-- The list of extra files beside a database: one file a line.
import CompileCommands.FileSystem
import CompileCommands.Utf8

namespace CompileCommands.Database

/-- The ending of the list of extra files, unless another one is set. -/
def defaultExtrasSuffix : String := ".files"

/-- The place of the list of extra files of a database. -/
def extrasPath (database : Path) (suffix : String) : Path := ⟨database.text ++ suffix⟩

/-- The entries of a list. Blanks at the ends of a line do not count, and
empty lines and lines that start with `#` are no entries. -/
def extraEntries (text : String) : List String :=
  ((Text.lines text).map Text.trim).filter
    (fun line => line != "" && !Text.startsWith line "#")

/-- The entries of the list at a place. A list that cannot be read has none. -/
def readExtras (fs : FileSystem) (p : Path) : List String :=
  match fs.read p with
  | .ok bytes => ((Utf8.text? bytes).map extraEntries).getD []
  | .error _ => []

end CompileCommands.Database
