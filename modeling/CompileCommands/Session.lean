-- Sessions. A session makes one pass after another over a database. A pass is
-- started, which reads the database and scans the root in two tasks, and is
-- finished later, which puts the project together. What a pass leaves behind is
-- the fingerprint of its database, and what the scan learned of types of files.
-- A task may break off; its pass goes on with what the other one gives.
import CompileCommands.Project

namespace CompileCommands

/-! ## Tasks -/

/-- How a task broke off: what it had told of until then, and the reason. -/
structure TaskFault where
  told : List Diagnostic
  reason : String
  deriving DecidableEq, Repr

/-- The tasks of a pass that break off. A session has no say in it. -/
structure PassFaults where
  parse : Option TaskFault
  scan : Option TaskFault
  deriving DecidableEq, Repr

/-- Both tasks of a pass come to their end. -/
def PassFaults.none : PassFaults := ⟨Option.none, Option.none⟩

namespace TaskFault

/-- What a task gives, unless it breaks off. -/
def outcomeOf (fault : Option TaskFault) (value : α) : Except TaskFault α :=
  match fault with
  | none => .ok value
  | some fault => .error fault

/-- The task that broke off, told of in a diagnostic. -/
def note (task : String) (subject : Path) (fault : TaskFault) : Diagnostic :=
  (Diagnostic.plain .error .taskFailed (task ++ " task failed: " ++ fault.reason)).about subject

/-- The notes on a task, of which there are none if it came to its end. -/
def notes (task : String) (subject : Path) : Except TaskFault α → List Diagnostic
  | .ok _ => []
  | .error fault => [fault.note task subject]

end TaskFault

/-! ## Passes -/

/-- What a session is doing. -/
inductive Activity
  | idle
  | scanning
  /-- A project is being put together. Between two steps this is never seen. -/
  | merging
  deriving DecidableEq, Repr

/-- What the task that reads the database gives, and what it told of. -/
abbrev PassParse := Except TaskFault (Database.Contents × List Diagnostic)

namespace PassParse

/-- The contents that were read. Of a task that broke off there are none. -/
def contents (settings : Settings) : PassParse → Database.Contents
  | .ok (contents, _) => contents
  | .error _ => .empty (Database.extrasPath settings.database settings.extrasSuffix)

/-- What the task told of. -/
def told : PassParse → List Diagnostic
  | .ok (_, told) => told
  | .error fault => fault.told

end PassParse

/-- The scan of a pass. -/
structure PassScan where
  root : Path
  outcome : Except TaskFault ScanOutcome

namespace PassScan

/-- The files that were found. -/
def files (s : PassScan) : List ScannedFile :=
  match s.outcome with
  | .ok outcome => outcome.files
  | .error _ => []

/-- What the task told of. -/
def told (s : PassScan) : List Diagnostic :=
  match s.outcome with
  | .ok outcome => outcome.diagnostics s.root
  | .error fault => fault.told

/-- What the scan gives back of what is known of types. -/
def cache? (s : PassScan) : Option MimeCache :=
  match s.outcome with
  | .ok outcome => outcome.cache?
  | .error _ => none

end PassScan

/-- What a pass found out when it was started. -/
inductive PassWork
  /-- The database did not change. -/
  | cached (fingerprint : Fingerprint)
  | read (parse : PassParse) (scan : Option PassScan)

/-- A pass that is started, and not finished yet. -/
structure Pass where
  generation : Nat
  fingerprint : Option Fingerprint
  work : PassWork

/-- The fingerprint that is kept of a pass. If the task that reads the database
broke off, none is kept, so that the next pass reads it again. -/
def Pass.kept (pass : Pass) : PassParse → Option Fingerprint
  | .ok _ => pass.fingerprint
  | .error _ => none

/-- How a pass ends. -/
inductive PassOutcome
  | success (project : Project)
  | cached (fingerprint : Fingerprint)
  | cancelled

/-! ## Sessions -/

/-- The state of a session. -/
structure Session where
  workspace : Workspace
  activity : Activity
  /-- The fingerprint of the database in the last pass that succeeded. -/
  previous : Option Fingerprint
  /-- What is known of types, unless a scan took it along. -/
  mimeCache : Option MimeCache
  /-- The number of passes that were started. -/
  generation : Nat
  /-- The pass that was started last is cancelled. -/
  cancelled : Bool
  pending : Option Pass
  published : Option Project

namespace Session

/-- A session before its first pass. -/
def new (workspace : Workspace) : Session :=
  ⟨workspace, .idle, none, some .empty, 0, false, none, none⟩

/-- The session with another root. The database counts as changed. -/
def setRoot (s : Session) (root : Path) : Session :=
  { s with
    workspace := { s.workspace with settings := { s.workspace.settings with root := root } }
    previous := none }

/-- The session with its pass cancelled. -/
def cancel (s : Session) : Session := { s with cancelled := true }

/-! ## Starting a pass -/

/-- The fingerprint of the database, if it can be read. -/
def fingerprintOf (settings : Settings) (fs : FileSystem) : Option Fingerprint :=
  (fs.read settings.database).toOption.map Fingerprint.of

/-- The fingerprint of a database that need not be read again. -/
def unchanged? (s : Session) (fs : FileSystem) : Option Fingerprint :=
  if s.workspace.settings.skipUnchanged then
    (fingerprintOf s.workspace.settings fs).filter (fun f => some f = s.previous)
  else none

/-- What the task that reads the database gives. -/
def readDatabase (s : Session) (fs : FileSystem) (faults : PassFaults) : PassParse :=
  let settings := s.workspace.settings
  TaskFault.outcomeOf faults.parse (Database.load fs settings.database settings.extrasSuffix)

/-- The scan of the root, if there is to be one. It takes along what is known
of types. -/
def scanRoot (s : Session) (fs : FileSystem) (faults : PassFaults) : Option PassScan :=
  let settings := s.workspace.settings
  if settings.scan.enabled then
    some ⟨settings.root, TaskFault.outcomeOf faults.scan
      (Scan.run fs settings.root s.workspace.scanFilter (s.mimeCache.getD .empty) false)⟩
  else none

/-- The session with a pass started. A pass that was not finished is given up,
and what its scan took along is lost. -/
def start (s : Session) (fs : FileSystem) (faults : PassFaults := .none) : Session :=
  let generation := s.generation + 1
  match s.unchanged? fs with
  | some f =>
    { s with
      activity := .idle
      generation := generation
      cancelled := false
      pending := some ⟨generation, some f, .cached f⟩ }
  | none =>
    let scan := s.scanRoot fs faults
    { s with
      activity := .scanning
      generation := generation
      cancelled := false
      mimeCache := if scan.isSome then none else s.mimeCache
      pending := some ⟨generation, fingerprintOf s.workspace.settings fs,
        .read (s.readDatabase fs faults) scan⟩ }

/-! ## Finishing a pass -/

/-- The project of a pass. What a task broke off at is told of after what the
tasks told of themselves. -/
def projectOf (s : Session) (fs : FileSystem) (pass : Pass) (parse : PassParse)
    (scan : Option PassScan) : Project :=
  let settings := s.workspace.settings
  let scanned := (scan.map PassScan.files).getD []
  let (tree, build, more) := s.workspace.assemble fs (parse.contents settings) scanned
  let told := parse.told ++ (scan.map PassScan.told).getD []
  let faults := TaskFault.notes "parse" settings.database parse ++
    (scan.map fun scan => TaskFault.notes "scan" settings.root scan.outcome).getD []
  ⟨tree, build, pass.fingerprint, told ++ faults ++ more, pass.generation⟩

/-- The session in which no pass is under way. -/
def settle (s : Session) : Session := { s with activity := .idle, pending := none }

/-- What is known of types after a scan was given back. One that broke off gives
nothing back. -/
def cacheAfter (s : Session) : Option PassScan → Option MimeCache
  | some ⟨_, .ok outcome⟩ => outcome.cache?
  | _ => s.mimeCache

/-- The session in which a project is published, with the fingerprint that is
kept of its pass. -/
def publish (s : Session) (project : Project) (kept : Option Fingerprint)
    (scan : Option PassScan) : Session :=
  { s.settle with
    previous := kept
    mimeCache := s.cacheAfter scan
    published := some project }

/-- How the pass under way ends, and the session after it. Without one, nothing
changes. The root is the one that is set now, not the one that was scanned. -/
def finish (s : Session) (fs : FileSystem) : PassOutcome × Session :=
  match s.pending with
  | none => (.cancelled, s)
  | some pass =>
    match pass.work with
    | .cached f => (.cached f, s.settle)
    | .read parse scan =>
      if s.cancelled then (.cancelled, s.settle)
      else
        let project := s.projectOf fs pass parse scan
        (.success project, s.publish project (pass.kept parse) scan)

/-- One whole pass. -/
def reparse (s : Session) (fs : FileSystem) (faults : PassFaults := .none) :
    PassOutcome × Session :=
  (s.start fs faults).finish fs

end Session

end CompileCommands
