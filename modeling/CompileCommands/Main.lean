-- The program. The part of the disk that a command looks at is read into a
-- value, and the command runs on that value.
import CompileCommands.Cli

namespace CompileCommands.Disk

/-! ## Single places -/

/-- The names of an absolute path without dots. -/
def namesOf (text : String) : List String :=
  (Path.components ⟨text⟩).filterMap Component.name?

/-- The names of a place once its links are followed, if it is there. -/
def realNames? (names : List String) : IO (Option (List String)) := do
  try
    let place ← IO.FS.realPath (FileSystem.pathOf names).text
    return some (namesOf place.toString)
  catch _ => return none

/-- The links that start at a place lead to no end. -/
def isLoop (names : List String) : IO Bool := do
  try
    let _ ← IO.FS.Handle.mk (FileSystem.pathOf names).text .read
    return false
  catch
    | .invalidArgument _ 40 _ => return true
    | _ => return false

/-- The file system with a link at the place with some names. -/
def withLink (fs : FileSystem) (place target : List String) : FileSystem :=
  { fs with root := Entry.put (.link (FileSystem.pathOf target).text) fs.root place }

/-- Reads the place with some names, which are no links. Of a file that need
not be read whole, no more is read than is known. -/
def readPlace (whole : Bool) (fs : FileSystem) (names : List String) : IO FileSystem := do
  let place ← IO.FS.realPath (FileSystem.pathOf names).text
  if ← place.isDir then return fs.makeDirectory (FileSystem.pathOf names)
  else if whole then
    let bytes ← IO.FS.readBinFile place
    return { fs with root := Entry.put (.file bytes.toList) fs.root names }
  else if (fs.root.at? names).isSome then return fs
  else return { fs with root := Entry.put (.file []) fs.root names }

/-- Reads what the pieces of a path lead to, and all that is passed on the way.
Reading ends where the disk has nothing more. A link without an end is kept as
one that leads to itself. -/
def readPieces (whole : Bool) (fs : FileSystem) (here : List String) :
    List String → IO FileSystem
  | [] => return fs
  | piece :: rest => do
    if piece = "" ∨ piece = "." then readPieces whole fs here rest
    else if piece = ".." then readPieces whole fs here.dropLast rest
    else
      let place := here ++ [piece]
      match ← realNames? place with
      | none => return if ← isLoop place then withLink fs place place else fs
      | some names =>
        let linked := if names = place then fs else withLink fs place names
        readPieces whole (← readPlace (whole && rest.isEmpty) linked names) names rest

/-- Reads what a path leads to. -/
def readPath (whole : Bool) (fs : FileSystem) (p : Path) : IO FileSystem :=
  readPieces whole fs (if p.isAbsolute then [] else fs.workingDirectory.getD []) p.pieces

/-! ## Directories -/

/-- The first bytes of a file, which tell its type. -/
def firstBytes (place : String) : IO (List UInt8) := do
  try
    let handle ← IO.FS.Handle.mk place .read
    return (← handle.read Mime.sniffed.toUSize).toList
  catch _ => return []

/-- Reads the directory with some names, and those below it that are not
excluded. A link is left out, for a scan does not follow it. -/
partial def readDirectory (excluded : String → Bool) (names : List String) : IO Entry := do
  let place ← IO.FS.realPath (FileSystem.pathOf names).text
  let entries ← try place.readDir catch _ => pure #[]
  let read ← entries.toList.filterMapM (fun entry => do
    let name := entry.fileName
    match (← entry.path.symlinkMetadata).type with
    | .dir =>
      if excluded name then return some (name, .directory [])
      else return some (name, ← readDirectory excluded (names ++ [name]))
    | .file => return some (name, .file (← firstBytes entry.path.toString))
    | _ => return none)
  return .directory read

/-! ## Commands -/

/-- Reads the root of a workspace, if it is to be scanned. -/
def readRoot (fs : FileSystem) (w : Workspace) : IO FileSystem := do
  let fs ← readPath false fs w.settings.root
  match w.settings.scan.enabled, fs.locate w.settings.root with
  | true, .ok names =>
    if fs.isDirectory w.settings.root then
      let entry ← readDirectory w.scanFilter.excludes names
      return { fs with root := Entry.put entry fs.root names }
    else return fs
  | _, _ => return fs

/-- Reads what a pass over the database of a workspace looks at. -/
def readWorkspace (fs : FileSystem) (w : Workspace) : IO FileSystem := do
  let s := w.settings
  let fs ← readPath true fs s.database
  let fs ← readPath true fs (Database.extrasPath s.database s.extrasSuffix)
  let bytes := (fs.read s.database).toOption.getD []
  (Database.lookups bytes).foldlM (readPath false) fs

/-- Reads what a command looks at. Configurations are read again after the
root, which may hold them. -/
def readFor (fs : FileSystem) (i : Cli.Invocation) : IO FileSystem := do
  match i.command with
  | .hash database => readPath true fs database
  | .ingest =>
    let readConfigs (fs : FileSystem) := (Cli.configPlaces fs i.options).foldlM (readPath true) fs
    let configured ← readConfigs fs
    match Cli.workspaceOf configured i.options with
    | .error _ => return configured
    | .ok w => readWorkspace (← readConfigs (← readRoot fs w)) w

end CompileCommands.Disk

/-- The program. -/
def main (arguments : List String) : IO UInt32 := do
  let here := CompileCommands.Disk.namesOf (← IO.currentDir).toString
  let place := CompileCommands.FileSystem.pathOf here
  let start := (⟨.directory [], some here⟩ : CompileCommands.FileSystem).makeDirectory place
  let fs ← match CompileCommands.Cli.read arguments with
    | .ok invocation => CompileCommands.Disk.readFor start invocation
    | .error _ => pure start
  let output := CompileCommands.Cli.run fs (← (← IO.getStderr).isTty) arguments
  for (channel, text) in output.prints do
    match channel with
    | .stdout => (← IO.getStdout).putStr text
    | .stderr => (← IO.getStderr).putStr text
  return output.exit.toUInt32
