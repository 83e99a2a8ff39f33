-- The program as a function: from a file system and a list of arguments to
-- what it prints and the status with which it exits.
import CompileCommands.Cli.Setup
import CompileCommands.Report
import CompileCommands.Report.Json
import CompileCommands.Session

namespace CompileCommands.Cli

/-! ## What a run prints -/

/-- Where a text is printed. -/
inductive Channel
  | stdout
  | stderr
  deriving DecidableEq, Repr

/-- What a run prints, in order, and the status with which it exits. -/
structure Output where
  exit : UInt8
  prints : List (Channel × String)
  deriving DecidableEq, Repr

namespace Output

/-- All that is printed at one place. -/
def on (o : Output) (channel : Channel) : String :=
  String.join ((o.prints.filter (·.1 == channel)).map (·.2))

/-- What is printed as the result. -/
def stdout (o : Output) : String := o.on .stdout

/-- What is printed beside the result. -/
def stderr (o : Output) : String := o.on .stderr

end Output

/-- The status of a run in which nothing failed. -/
def exitSuccess : UInt8 := 0

/-- The status of a run that failed, or that has an error to tell. -/
def exitFailure : UInt8 := 1

/-- The status of a run whose arguments are refused. -/
def exitUsage : UInt8 := 2

/-- A failure that is told. -/
def failureLine (message : String) : Channel × String :=
  (.stderr, Report.ofLines ["error: " ++ message])

/-- The output of a run that failed. -/
def failed (message : String) : Output := ⟨exitFailure, [failureLine message]⟩

/-! ## The commands -/

/-- The diagnostics that are told. -/
def told (quiet : Bool) (diagnostics : List Diagnostic) : List Diagnostic :=
  if quiet then diagnostics.filter (·.severity == .error) else diagnostics

/-- What is told before a pass over a database. -/
def beforePass (o : Options) (database : Path) : List (Channel × String) :=
  if o.quiet ∨ o.format = .json then [] else [(.stderr, Report.opening database)]

/-- A project as a text to read: the tree and the parts, then what is to be
told of them. -/
def textPrints (o : Options) (colour : Bool) (project : Project) : List (Channel × String) :=
  [(.stdout, Report.ofTree project.tree), (.stdout, "\n"), (.stdout, Report.ofBuild project.build)]
    ++ (told o.quiet project.diagnostics).map (fun d => (.stderr, d.render colour))
    ++ (if o.quiet then [] else [(.stderr, Report.closing project)])

/-- A project as it is reported. -/
def projectPrints (o : Options) (colour : Bool) (project : Project) : List (Channel × String) :=
  match o.format with
  | .text => textPrints o colour project
  | .json => [(.stdout, (Report.projectValue project).pretty ++ "\n")]

/-- The status of a run that ends with a project. -/
def exitOf (project : Project) : UInt8 :=
  if (Diagnostic.counts project.diagnostics).hasErrors then exitFailure else exitSuccess

/-- Makes one pass over a database. -/
def ingest (fs : FileSystem) (o : Options) (colour : Bool) : Output :=
  match setup fs o with
  | .error e => failed e.message
  | .ok workspace =>
    let before := beforePass o workspace.settings.database
    match ((Session.new workspace).reparse fs).1 with
    | .success project => ⟨exitOf project, before ++ projectPrints o colour project⟩
    | .cached _ => ⟨exitSuccess, before⟩
    | .cancelled => ⟨exitFailure, before ++ [failureLine "ingestion was cancelled"]⟩

/-- Tells the fingerprint of a database. -/
def hash (fs : FileSystem) (database : Path) : Output :=
  match fs.read database with
  | .ok bytes => ⟨exitSuccess, [(.stdout, Report.ofLines [(Fingerprint.of bytes).text])]⟩
  | .error e => failed ("cannot read " ++ database.text ++ ": " ++ e.message)

/-! ## The program -/

/-- The name and the version of the program. -/
def versionLine : String := "cdb 0.1.0"

/-- How the program is called. -/
def usage : List String :=
  ["Compilation database ingestion",
   "",
   "Usage: cdb [OPTIONS] <COMMAND>",
   "",
   "Commands:",
   "  ingest           Run one ingestion pass and print the result",
   "  hash <DATABASE>  Print the fingerprint of a compilation database",
   "  help [COMMAND]   Print this message",
   "",
   "Options:",
   "  -q, --quiet            Suppress all output except errors",
   "  -v, --verbose          Enable verbose output",
   "      --color <COLOR>    Control colored output: auto, always or never",
   "      --config <CONFIG>  Path to a configuration file",
   "  -h, --help             Print help",
   "  -V, --version          Print version",
   "",
   "Options of ingest:",
   "  -d, --database <DATABASE>  Compilation database to ingest",
   "  -r, --root <ROOT>          Project root",
   "  -f, --format <FORMAT>      Output format: text or json",
   "      --no-scan              Do not scan the root directory"]

/-- The output of arguments that end without a command. -/
def endingOutput : Ending → Output
  | .help => ⟨exitSuccess, [(.stdout, Report.ofLines usage)]⟩
  | .version => ⟨exitSuccess, [(.stdout, Report.ofLines [versionLine])]⟩
  | .refused e =>
    ⟨exitUsage, [failureLine e.message,
      (.stderr, Report.ofLines ["", "For more information, try '--help'."])]⟩

/-- Whether colours are shown, on a terminal or elsewhere. -/
def ColourChoice.shows (terminal : Bool) : ColourChoice → Bool
  | .auto => terminal
  | .always => true
  | .never => false

/-- Runs a command. -/
def runCommand (fs : FileSystem) (terminal : Bool) (i : Invocation) : Output :=
  match i.command with
  | .ingest => ingest fs i.options (i.options.colour.shows terminal)
  | .hash database => hash fs database

/-- Runs the program. -/
def run (fs : FileSystem) (terminal : Bool) (arguments : List String) : Output :=
  match read arguments with
  | .ok invocation => runCommand fs terminal invocation
  | .error ending => endingOutput ending

end CompileCommands.Cli
