-- Projects. A project is what becomes of a database: its tree, its parts, and
-- what is to be told of them.
import CompileCommands.BuildPart.Grouping
import CompileCommands.Fingerprint
import CompileCommands.ProjectTree.Building
import CompileCommands.Settings

namespace CompileCommands

/-- The outcome of one pass over a database. -/
structure Project where
  tree : Folder
  build : BuildDescription
  /-- The fingerprint of the database, if it could be read. -/
  fingerprint : Option Fingerprint
  diagnostics : List Diagnostic
  /-- The number of the pass. -/
  generation : Nat

/-- What the parts of a project are compiled with: the toolchains that are
known, and the build environment beside them. -/
structure Toolset where
  registry : Registry
  environment : BuildEnvironment
  deriving DecidableEq, Repr

namespace Toolset

/-- A registry with the environment that it names itself. -/
def ofRegistry (r : Registry) : Toolset := ⟨r, r.buildEnvironment⟩

instance : Coe Registry Toolset := ⟨ofRegistry⟩

/-- No toolchain is known, and none is taken in its place. -/
def empty : Toolset := Registry.empty

end Toolset

/-- What the passes of a project share: its settings, and what its parts are
compiled with. -/
structure Workspace where
  settings : Settings
  tools : Toolset
  host : Host
  deriving DecidableEq, Repr

namespace Workspace

/-- The build that the parts of the project belong to. -/
def buildContext (w : Workspace) : BuildContext :=
  ⟨w.settings.database, w.tools.registry, w.host⟩

/-- The rules for a scan of the root. -/
def scanFilter (w : Workspace) : ScanFilter :=
  ⟨w.settings.database, w.settings.scan.extraBinaryExtensions,
    w.settings.scan.excludedDirectories⟩

/-- The project with these contents and these scanned files. -/
def assemble (w : Workspace) (fs : FileSystem) (contents : Database.Contents)
    (scanned : List ScannedFile) : Folder × BuildDescription × List Diagnostic :=
  let (build, diagnostics) :=
    BuildDescription.ofContentsIn w.buildContext w.tools.environment contents
  let tree := Folder.ofInputs fs
    ⟨w.settings.root, w.settings.database, contents.extrasSource, build.parts, scanned⟩
  (tree, build, diagnostics)

end Workspace

end CompileCommands
