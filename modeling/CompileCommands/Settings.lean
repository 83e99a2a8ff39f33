-- Settings. They say which database is read, which directory is shown, and
-- how much of it is scanned.
import CompileCommands.Database.Extras

namespace CompileCommands

/-- How the root is scanned. -/
structure ScanSettings where
  enabled : Bool
  extraBinaryExtensions : List String
  excludedDirectories : List String
  deriving DecidableEq, Repr

namespace ScanSettings

/-- The directories that are not entered, unless others are set. -/
def defaultExcluded : List String := [".git"]

/-- The scan that is made if nothing else is set. -/
def standard : ScanSettings := ⟨true, [], defaultExcluded⟩

end ScanSettings

/-- The settings of a project. -/
structure Settings where
  database : Path
  root : Path
  extrasSuffix : String
  /-- A database that did not change is not read again. -/
  skipUnchanged : Bool
  scan : ScanSettings
  deriving DecidableEq, Repr

/-- Why settings are refused. -/
inductive SettingsError
  | databaseMissing (database : Path)
  | databaseIsDirectory (database : Path)
  | unreadable (e : IoError)
  deriving DecidableEq, Repr

/-- The message of a refusal. -/
def SettingsError.message : SettingsError → String
  | .databaseMissing database => "compilation database " ++ database.text ++ " does not exist"
  | .databaseIsDirectory database => "compilation database " ++ database.text ++ " is a directory"
  | .unreadable e => "I/O error: " ++ e.message

namespace Settings

/-- The settings for a database in its own directory. -/
def ofDatabase (database : Path) : Settings :=
  ⟨database, database.parent?.getD ⟨""⟩, Database.defaultExtrasSuffix, true, .standard⟩

/-- Checks that the database is there, and is no directory. -/
def check (s : Settings) (fs : FileSystem) : Except SettingsError Unit :=
  match fs.entry s.database with
  | .ok (.directory _) => .error (.databaseIsDirectory s.database)
  | .ok _ => .ok ()
  | .error .notFound => .error (.databaseMissing s.database)
  | .error e => .error (.unreadable e)

end Settings

end CompileCommands
