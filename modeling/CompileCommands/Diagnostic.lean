-- Diagnostics. What goes wrong with one record, one path or one lookup is
-- told in a diagnostic, and the work goes on.
import CompileCommands.Path

namespace CompileCommands

/-! ## Severities -/

/-- How much of the project a diagnostic is about. -/
inductive Severity
  | help
  | note
  | warning
  | error
  deriving DecidableEq, Repr

namespace Severity

/-- The name of a severity in reports. -/
def name : Severity → String
  | .help => "help"
  | .note => "note"
  | .warning => "warning"
  | .error => "error"

/-- The terminal colour of a severity. -/
def colour : Severity → String
  | .error => "31"
  | .warning => "33"
  | .note => "36"
  | .help => "32"

end Severity

/-- How many diagnostics there are of each severity. -/
structure SeverityCounts where
  errors : Nat
  warnings : Nat
  notes : Nat
  help : Nat
  deriving DecidableEq, Repr

namespace SeverityCounts

/-- The counts of a list of severities. -/
def of (severities : List Severity) : SeverityCounts where
  errors := severities.count .error
  warnings := severities.count .warning
  notes := severities.count .note
  help := severities.count .help

/-- At least one error is counted. -/
def hasErrors (c : SeverityCounts) : Bool := c.errors != 0

end SeverityCounts

/-! ## Codes -/

/-- The stage that raised a diagnostic. -/
inductive Category
  | parse
  | toolchain
  | scan
  | internal
  deriving DecidableEq, Repr

/-- The letter of a stage in its codes. -/
def Category.letter : Category → String
  | .parse => "P"
  | .toolchain => "T"
  | .scan => "S"
  | .internal => "E"

/-- A stage, and the number of the diagnostic within it. -/
structure Code where
  category : Category
  number : Nat
  deriving DecidableEq, Repr

namespace Code

/-- A record that does not decode was skipped. -/
def malformedRecord : Code := ⟨.parse, 1⟩

/-- A record without a file was skipped. -/
def recordWithoutFile : Code := ⟨.parse, 2⟩

/-- The database could not be read. -/
def databaseUnreadable : Code := ⟨.parse, 3⟩

/-- No toolchain matched, and the default was taken. -/
def toolchainDefaulted : Code := ⟨.toolchain, 1⟩

/-- No toolchain matched, and there is no default. -/
def toolchainMissing : Code := ⟨.toolchain, 2⟩

/-- The root of a scan is missing or is no directory. -/
def scanRootMissing : Code := ⟨.scan, 1⟩

/-- A place below the root of a scan could not be looked at. -/
def scanPlaceClosed : Code := ⟨.scan, 2⟩

/-- A task of a pass broke off. -/
def taskFailed : Code := ⟨.internal, 1⟩

/-- The letter of the stage and the number, with three digits at least. -/
def text (c : Code) : String :=
  let digits := toString c.number
  c.category.letter ++ String.ofList (List.replicate (3 - digits.length) '0') ++ digits

end Code

/-! ## Diagnostics -/

/-- A message about one record, path or lookup. -/
structure Diagnostic where
  severity : Severity
  code : Code
  message : String
  subject : Option Path
  notes : List String
  help : List String
  deriving DecidableEq, Repr

namespace Diagnostic

/-- A diagnostic with nothing but its message. -/
def plain (severity : Severity) (code : Code) (message : String) : Diagnostic :=
  ⟨severity, code, message, none, [], []⟩

/-- The same diagnostic about a path. -/
def about (d : Diagnostic) (subject : Path) : Diagnostic := { d with subject := some subject }

/-- The same diagnostic with one more note. -/
def withNote (d : Diagnostic) (note : String) : Diagnostic := { d with notes := d.notes ++ [note] }

/-- The same diagnostic with one more piece of advice. -/
def withHelp (d : Diagnostic) (help : String) : Diagnostic := { d with help := d.help ++ [help] }

/-- The counts of a list of diagnostics. -/
def counts (ds : List Diagnostic) : SeverityCounts := SeverityCounts.of (ds.map (·.severity))

/-! ### The text of a diagnostic -/

/-- The severity as it is shown, in its colour if colours are wanted. -/
def severityText (severity : Severity) (colour : Bool) : String :=
  if colour then "\x1b[1;" ++ severity.colour ++ "m" ++ severity.name ++ "\x1b[0m"
  else severity.name

/-- The lines of a diagnostic: the message, the path, the notes, the advice. -/
def render (d : Diagnostic) (colour : Bool) : String :=
  let head := severityText d.severity colour ++ "[" ++ d.code.text ++ "]: " ++ d.message ++ "\n"
  let subject := match d.subject with
    | some path => "  --> " ++ path.text ++ "\n"
    | none => ""
  let notes := d.notes.map (fun note => "   = note: " ++ note ++ "\n")
  let help := d.help.map (fun help => "   = help: " ++ help ++ "\n")
  head ++ subject ++ String.join notes ++ String.join help

end Diagnostic

end CompileCommands
