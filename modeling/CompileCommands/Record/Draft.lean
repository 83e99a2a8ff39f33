-- The fields of a record, as the database gives them.

namespace CompileCommands

/-- A field that counts. All other keys of a record are skipped. -/
inductive Field
  | directory
  | file
  | arguments
  | command
  deriving DecidableEq, Repr

namespace Field

/-- The key of a field. -/
def key : Field → String
  | .directory => "directory"
  | .file => "file"
  | .arguments => "arguments"
  | .command => "command"

/-- The field with this key. -/
def ofKey? (key : String) : Option Field :=
  [Field.directory, .file, .arguments, .command].find? (·.key == key)

end Field

/-- A record that is read in part. A field that is there may still be `null`. -/
structure Draft where
  directory : Option (Option String)
  file : Option (Option String)
  arguments : Option (Option (List String))
  command : Option (Option String)
  deriving DecidableEq, Repr

namespace Draft

/-- No field is read yet. -/
def empty : Draft := ⟨none, none, none, none⟩

/-- The field was read. -/
def has (d : Draft) : Field → Bool
  | .directory => d.directory.isSome
  | .file => d.file.isSome
  | .arguments => d.arguments.isSome
  | .command => d.command.isSome

/-- The draft with a field that is `null`. -/
def setNull (d : Draft) : Field → Draft
  | .directory => { d with directory := some none }
  | .file => { d with file := some none }
  | .arguments => { d with arguments := some none }
  | .command => { d with command := some none }

/-- The draft with the text of a field. -/
def setText (d : Draft) (text : String) : Field → Draft
  | .directory => { d with directory := some (some text) }
  | .file => { d with file := some (some text) }
  | .arguments => d
  | .command => { d with command := some (some text) }

/-- The draft with its list of arguments. -/
def setArguments (d : Draft) (items : List String) : Draft :=
  { d with arguments := some (some items) }

/-- The directory, or nothing at all if there is none. -/
def directoryText (d : Draft) : String := (d.directory.bind id).getD ""

/-- The file, or nothing at all if there is none. -/
def fileText (d : Draft) : String := (d.file.bind id).getD ""

/-- The list of arguments, or the empty one if there is none. -/
def argumentList (d : Draft) : List String := (d.arguments.bind id).getD []

/-- The command, or nothing at all if there is none. -/
def commandText (d : Draft) : String := (d.command.bind id).getD ""

end Draft

end CompileCommands
