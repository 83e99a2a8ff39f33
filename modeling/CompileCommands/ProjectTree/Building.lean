-- The tree of a project. The files of the parts are put into it enabled, and
-- headers that only a scan found are put into it disabled. A file outside the
-- root but below the directory in which it is compiled goes into a second
-- root for that directory; with such roots, one folder is put around them all.
import CompileCommands.BuildPart
import CompileCommands.ProjectTree
import CompileCommands.Scan

namespace CompileCommands

/-- What a tree is built from. -/
structure TreeInputs where
  root : Path
  database : Path
  /-- The list of extra files, which need not be there. -/
  extrasSource : Path
  parts : List BuildPart
  scanned : List ScannedFile
  deriving DecidableEq, Repr

/-- The roots of a tree: the root of the project, and the further ones in the
order of their paths. -/
structure TreeRoots where
  main : Folder
  further : List Folder

namespace TreeRoots

variable [Reading]

/-- A file that is compiled. -/
def partFile (file : Path) : FileNode := ⟨file, .ofPartFile file, true⟩

/-- A file put into a further root, which is made if it is not there. -/
def addFurther (target file : Path) : List Folder → List Folder
  | [] => [((Folder.ofPath target).addFile (partFile file)).2]
  | f :: rest =>
    match target.order f.path with
    | .lt => ((Folder.ofPath target).addFile (partFile file)).2 :: f :: rest
    | .eq => (f.addFile (partFile file)).2 :: rest
    | .gt => f :: addFurther target file rest

/-- A file of a part put where it belongs. One that is neither below the root
nor below the directory of its part is left out. -/
def addPartFile (root target : Path) (roots : TreeRoots) (file : Path) : TreeRoots :=
  if file.isBelow root then { roots with main := (roots.main.addFile (partFile file)).2 }
  else if file.isBelow target then { roots with further := addFurther target file roots.further }
  else roots

/-- The files of a part put where they belong. -/
def addPart (root : Path) (roots : TreeRoots) (part : BuildPart) : TreeRoots :=
  part.files.toList.foldl (addPartFile root part.target) roots

/-- A scanned file put into the tree, if it is a header below the root. -/
def addScanned (root : Path) (f : Folder) (scanned : ScannedFile) : Folder :=
  if scanned.fileType = .header ∧ scanned.path.isBelow root then
    (f.addFile ⟨scanned.path, .header, false⟩).2
  else f

/-- The folder around all roots, or the root itself if it is the only one. -/
def top (root : Path) (roots : TreeRoots) : Folder :=
  match roots.further with
  | [] => roots.main
  | further =>
    let around := (Folder.ofPath root).addChild roots.main.displayName roots.main.toNode
    further.foldl (fun top f => top.addChild (Reading.read f.path.text) f.toNode) around

end TreeRoots

namespace Folder

variable [Reading]

/-- The folder with a file that describes the build. -/
def addMarker (f : Folder) (path : Path) : Folder :=
  f.addChild path.displayName (.file ⟨path, .project, true⟩)

/-- The tree of a project. The database is always shown, and the list of extra
files if it is there. -/
def ofInputs (fs : FileSystem) (inputs : TreeInputs) : Folder :=
  let roots := inputs.parts.foldl (TreeRoots.addPart inputs.root) ⟨.ofPath inputs.root, []⟩
  let main := inputs.scanned.foldl (TreeRoots.addScanned inputs.root) roots.main
  let top := (TreeRoots.top inputs.root { roots with main := main }).addMarker inputs.database
  if fs.isFile inputs.extrasSource then top.addMarker inputs.extrasSource else top

end Folder

end CompileCommands
