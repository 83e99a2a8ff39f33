-- The rules of a scan: which directories are not entered, and which files are
-- left out. The rules that cost least come first, so the type of a file is
-- only asked for if its name settles nothing.
import CompileCommands.Mime

namespace CompileCommands

/-- The rules of a scan beside a database. -/
structure ScanFilter where
  database : Path
  extraBinaryExtensions : List String
  excludedDirectories : List String
  deriving DecidableEq, Repr

namespace ScanFilter

/-- The settings that a user keeps beside the database. -/
def userFile (f : ScanFilter) : Path := ⟨f.database.text ++ ".user"⟩

/-- The settings of a user, or a copy of them. -/
def isUserFile (f : ScanFilter) (file : Path) : Bool := Text.startsWith file.text f.userFile.text

/-- A directory of this name is not entered. -/
def excludes (f : ScanFilter) (name : String) : Bool := f.excludedDirectories.contains name

/-- The name of a file is enough to leave it out. -/
def ignoresName (f : ScanFilter) (file : Path) : Bool :=
  f.isUserFile file || Mime.hasBinaryExtension file f.extraBinaryExtensions

/-- A file is left out. The verdict on its type is remembered. -/
def ignores (f : ScanFilter) (fs : FileSystem) (file : Path) (cache : MimeCache) :
    Bool × MimeCache :=
  if f.ignoresName file then (true, cache) else cache.ask (Mime.ofFile fs file)

end ScanFilter

end CompileCommands
