-- The arguments of the program. A command is asked for by its name, and
-- options may stand on both sides of the name. Arguments are read one by one,
-- and what one of them means depends only on those before it.
import CompileCommands.Path

namespace CompileCommands.Cli

/-! ## What is asked for -/

/-- When colours are shown. -/
inductive ColourChoice
  /-- If a terminal shows them. -/
  | auto
  | always
  | never
  deriving DecidableEq, Repr

/-- How a project is reported. -/
inductive ReportFormat
  | text
  | json
  deriving DecidableEq, Repr

/-- What one option asks for. -/
inductive Setting
  | quiet
  | verbose
  | colour (choice : ColourChoice)
  | config (file : Path)
  | database (file : Path)
  | root (directory : Path)
  | format (format : ReportFormat)
  | noScan
  deriving DecidableEq, Repr

/-- What all options together ask for. -/
structure Options where
  /-- Only errors are told. -/
  quiet : Bool
  /-- More is told, if there is more to tell. -/
  verbose : Bool
  colour : ColourChoice
  config : Option Path
  database : Option Path
  root : Option Path
  format : ReportFormat
  noScan : Bool
  deriving DecidableEq, Repr

namespace Options

/-- Nothing is asked for. -/
def standard : Options := ⟨false, false, .auto, none, none, none, .text, false⟩

/-- The options with one more setting, which replaces an older one. -/
def set (o : Options) : Setting → Options
  | .quiet => { o with quiet := true }
  | .verbose => { o with verbose := true }
  | .colour choice => { o with colour := choice }
  | .config file => { o with config := some file }
  | .database file => { o with database := some file }
  | .root directory => { o with root := some directory }
  | .format format => { o with format := format }
  | .noScan => { o with noScan := true }

/-- The options of some settings, the last of which count most. -/
def ofSettings (settings : List Setting) : Options := settings.foldl set standard

end Options

/-- What the program is to do. -/
inductive Command
  /-- Make one pass over a database, and report the project. -/
  | ingest
  /-- Tell the fingerprint of a database. -/
  | hash (database : Path)
  deriving DecidableEq, Repr

/-- A command and its options. -/
structure Invocation where
  command : Command
  options : Options
  deriving DecidableEq, Repr

/-! ## The options -/

/-- The options by what they are called. -/
inductive OptionName
  | quiet
  | verbose
  | color
  | config
  | database
  | root
  | format
  | noScan
  | help
  | version
  deriving DecidableEq, Repr

namespace OptionName

/-- The name after two dashes. -/
def long : OptionName → String
  | .quiet => "quiet"
  | .verbose => "verbose"
  | .color => "color"
  | .config => "config"
  | .database => "database"
  | .root => "root"
  | .format => "format"
  | .noScan => "no-scan"
  | .help => "help"
  | .version => "version"

/-- The letter after one dash. -/
def letter? : OptionName → Option Char
  | .quiet => some 'q'
  | .verbose => some 'v'
  | .database => some 'd'
  | .root => some 'r'
  | .format => some 'f'
  | .help => some 'h'
  | .version => some 'V'
  | .color | .config | .noScan => none

/-- The option is followed by a value. -/
def takesValue : OptionName → Bool
  | .color | .config | .database | .root | .format => true
  | .quiet | .verbose | .noScan | .help | .version => false

/-- The colour choices by name. -/
def colourChoices : List (String × ColourChoice) :=
  [("auto", .auto), ("always", .always), ("never", .never)]

/-- The formats of a report by name. -/
def reportFormats : List (String × ReportFormat) := [("text", .text), ("json", .json)]

/-- A path as a value. It is not empty. -/
def path? (value : String) : Option Path := if value = "" then none else some ⟨value⟩

/-- The setting of an option with a value. Without one, the value is empty and
does not count. -/
def setting? (value : String) : OptionName → Option Setting
  | .quiet => some .quiet
  | .verbose => some .verbose
  | .noScan => some .noScan
  | .color => (colourChoices.lookup value).map .colour
  | .format => (reportFormats.lookup value).map .format
  | .config => (path? value).map .config
  | .database => (path? value).map .database
  | .root => (path? value).map .root
  | .help | .version => none

end OptionName

/-! ## Where options stand -/

/-- The place of an argument: before the name of a command, or after it. -/
inductive Scope
  | top
  | ingest
  | hash
  deriving DecidableEq, Repr

namespace Scope

/-- The options that may stand on both sides of the name of a command. -/
def shared : List OptionName := [.quiet, .verbose, .color, .config]

/-- The options that may stand at a place. -/
def options : Scope → List OptionName
  | .top => shared ++ [.help, .version]
  | .ingest => shared ++ [.database, .root, .format, .noScan, .help]
  | .hash => shared ++ [.help]

/-- The option with a long name. -/
def withLong? (s : Scope) (name : String) : Option OptionName :=
  s.options.find? (·.long == name)

/-- The option with a letter. -/
def withLetter? (s : Scope) (letter : Char) : Option OptionName :=
  s.options.find? (·.letter? == some letter)

/-- The place after the name of a command. -/
def ofCommandName? : String → Option Scope
  | "ingest" => some .ingest
  | "hash" => some .hash
  | _ => none

end Scope

/-! ## Refusals -/

/-- Why arguments are refused. -/
inductive ArgumentError
  | unexpected (argument : String)
  | valueMissing (o : OptionName)
  | valueUnwanted (o : OptionName)
  | valueInvalid (o : OptionName) (value : String)
  | repeated (o : OptionName)
  | commandMissing
  | commandUnknown (name : String)
  | databaseMissing
  deriving DecidableEq, Repr

/-- The message of a refusal. -/
def ArgumentError.message : ArgumentError → String
  | .unexpected argument => "unexpected argument '" ++ argument ++ "' found"
  | .valueMissing o => "a value is required for '--" ++ o.long ++ "' but none was supplied"
  | .valueUnwanted o => "unexpected value for '--" ++ o.long ++ "' found; no more were expected"
  | .valueInvalid o value => "invalid value '" ++ value ++ "' for '--" ++ o.long ++ "'"
  | .repeated o => "the argument '--" ++ o.long ++ "' cannot be used multiple times"
  | .commandMissing => "a command is required but none was given"
  | .commandUnknown name => "unrecognized subcommand '" ++ name ++ "'"
  | .databaseMissing => "the database is required but was not given"

/-- How arguments can end without a command to run. -/
inductive Ending
  | help
  | version
  | refused (e : ArgumentError)
  deriving DecidableEq, Repr

/-! ## Reading -/

/-- What was read so far at one place. -/
structure Reading where
  scope : Scope
  /-- The options that were given, and what they ask for. -/
  given : List (OptionName × Setting)
  /-- The option that was given last, if it takes a value that follows it, and
  the value once it is there. It is looked at when the next thing is reached. -/
  pending : Option (OptionName × Option String)
  /-- The file that was named. -/
  file : Option Path
  /-- Two dashes were read: no later argument is an option. -/
  literal : Bool
  deriving DecidableEq, Repr

namespace Reading

/-- Nothing was read. -/
def new (scope : Scope) : Reading := ⟨scope, [], none, none, false⟩

/-- An option takes effect. No option is given twice at one place. -/
def add (r : Reading) (o : OptionName) (value : String) : Except Ending Reading :=
  if r.given.any (·.1 == o) then .error (.refused (.repeated o))
  else match o.setting? value with
    | some setting => .ok { r with given := r.given ++ [(o, setting)] }
    | none => .error (.refused (.valueInvalid o value))

/-- The pending option takes effect. -/
def settle (r : Reading) : Except Ending Reading :=
  match r.pending with
  | none => .ok r
  | some (o, none) => .error (.refused (.valueMissing o))
  | some (o, some value) => { r with pending := none }.add o value

/-- An option with the value that stands beside it. -/
def withValue (r : Reading) (o : OptionName) (value : String) : Except Ending Reading := do
  (← r.settle).add o value

/-- An option with a value that is to follow. -/
def awaitValue (r : Reading) (o : OptionName) : Except Ending Reading := do
  return { ← r.settle with pending := some (o, none) }

/-- An option without a value. The questions for help and for the version are
answered at once. -/
def flag (r : Reading) (o : OptionName) : Except Ending Reading := do
  let r ← r.settle
  match o with
  | .help => throw .help
  | .version => throw .version
  | o => r.add o ""

/-- A long name, and the value after its equals sign. -/
def long (r : Reading) (name : String) (value : Option String) : Except Ending Reading :=
  match r.scope.withLong? name with
  | none => .error (.refused (.unexpected ("--" ++ name)))
  | some o =>
    match o.takesValue, value with
    | true, some value => r.withValue o value
    | true, none => r.awaitValue o
    | false, some _ => .error (.refused (.valueUnwanted o))
    | false, none => r.flag o

/-- The value that stands beside a letter. One equals sign is no part of it. -/
def attached : List Char → String
  | '=' :: rest => String.ofList rest
  | chars => String.ofList chars

/-- Letters after one dash. What follows the letter of an option that takes a
value is its value. -/
def letters (r : Reading) : List Char → Except Ending Reading
  | [] => .ok r
  | c :: rest =>
    match r.scope.withLetter? c with
    | none => .error (.refused (.unexpected ("-" ++ String.singleton c)))
    | some o =>
      if o.takesValue then
        if rest.isEmpty then r.awaitValue o else r.withValue o (attached rest)
      else
        match r.flag o with
        | .ok r => r.letters rest
        | .error e => .error e

/-- An argument that is no option. Only a command for one file takes one. -/
def name (r : Reading) (argument : String) : Except Ending Reading := do
  let r ← r.settle
  match r.scope, r.file with
  | .hash, none =>
    match OptionName.path? argument with
    | some file => return { r with file := some file }
    | none => throw (.refused (.unexpected argument))
  | .top, _ => throw (.refused (.commandUnknown argument))
  | _, _ => throw (.refused (.unexpected argument))

/-- A value is awaited. -/
def awaits (r : Reading) : Option OptionName :=
  match r.pending with
  | some (o, none) => some o
  | _ => none

/-- One argument more. What starts with a dash is never a value that follows
an option, but a dash alone can be one. -/
def step (r : Reading) (argument : String) : Except Ending Reading :=
  if r.literal then r.name argument
  else match argument.toList with
    | ['-', '-'] => .ok { r with literal := true }
    | '-' :: '-' :: rest =>
      let (name, value) := Text.cutAt '=' (String.ofList rest)
      r.long name value
    | '-' :: c :: rest => r.letters (c :: rest)
    | _ =>
      match r.awaits with
      | some o => .ok { r with pending := some (o, some argument) }
      | none => r.name argument

/-- The name of a command may stand here. -/
def takesCommand (r : Reading) : Bool := !r.literal && r.awaits.isNone

/-- The settings of a place. -/
def settings (r : Reading) : List Setting := r.given.map (·.2)

end Reading

/-! ## Whole lists of arguments -/

/-- Reads the arguments after the name of a command. -/
def readCommand (scope : Scope) (arguments : List String) : Except Ending Reading := do
  (← arguments.foldlM Reading.step (.new scope)).settle

/-- The command that was named and read. -/
def commandOf (r : Reading) : Except Ending Command :=
  match r.scope, r.file with
  | .hash, some database => .ok (.hash database)
  | .hash, none => .error (.refused .databaseMissing)
  | _, _ => .ok .ingest

/-- How the arguments after `help` end: with help for a command, if it is one. -/
def helpEnding : List String → Ending
  | [] => .help
  | [name] =>
    if name = "help" ∨ (Scope.ofCommandName? name).isSome then .help
    else .refused (.commandUnknown name)
  | name :: other :: _ =>
    if (Scope.ofCommandName? name).isSome then .refused (.unexpected other)
    else .refused (.commandUnknown name)

/-- Reads arguments from a place before the name of a command on. What is said
after the name counts more than what is said before it. -/
def readFrom (r : Reading) : List String → Except Ending Invocation
  | [] => do
    let _ ← r.settle
    throw (.refused .commandMissing)
  | argument :: rest =>
    if r.takesCommand ∧ argument = "help" then .error (helpEnding rest)
    else match r.takesCommand, Scope.ofCommandName? argument with
      | true, some scope => do
        let below ← readCommand scope rest
        let command ← commandOf below
        let above ← r.settle
        return ⟨command, .ofSettings (above.settings ++ below.settings)⟩
      | _, _ =>
        match r.step argument with
        | .ok r => readFrom r rest
        | .error e => .error e

/-- Reads all arguments of the program. -/
def read (arguments : List String) : Except Ending Invocation := readFrom (.new .top) arguments

end CompileCommands.Cli
