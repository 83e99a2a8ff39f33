-- The project tree. A folder holds files and folders under names, and no name
-- twice; its children stand in the order of their names. The names are texts, so
-- those in a path are read first.
import CompileCommands.FileType

namespace CompileCommands

/-! ## Nodes -/

/-- A file in the tree. -/
structure FileNode where
  path : Path
  fileType : FileType
  /-- A header that no part names is shown, but not enabled. -/
  enabled : Bool
  deriving DecidableEq, Repr

/-- A node of the tree: a file, or a folder with its named children. -/
inductive Node
  | file (file : FileNode)
  | folder (path : Path) (displayName : String) (children : List (String × Node))
  deriving Repr, Inhabited

/-- A folder by itself. -/
structure Folder where
  path : Path
  displayName : String
  children : List (String × Node)
  deriving Repr, Inhabited

namespace Node

/-- The path of a node. -/
def path : Node → Path
  | .file f => f.path
  | .folder path _ _ => path

/-- The node as a folder, if it is one. -/
def folder? : Node → Option Folder
  | .file _ => none
  | .folder path displayName children => some ⟨path, displayName, children⟩

end Node

/-! ## Children -/

/-- Named nodes in the order of their names, with a node put under a name. What
stood under that name goes. -/
def setChild (name : String) (node : Node) : List (String × Node) → List (String × Node)
  | [] => [(name, node)]
  | (other, old) :: rest =>
    match compare name other with
    | .lt => (name, node) :: (other, old) :: rest
    | .eq => (name, node) :: rest
    | .gt => (other, old) :: setChild name node rest

namespace Folder

/-- An empty folder with a name to show. -/
def named (path : Path) (displayName : String) : Folder := ⟨path, displayName, []⟩

/-- An empty folder that is shown under its own name. -/
def ofPath [Reading] (path : Path) : Folder := .named path path.displayName

/-- The folder as a node. -/
def toNode (f : Folder) : Node := .folder f.path f.displayName f.children

/-- The child under a name. -/
def child? (f : Folder) (name : String) : Option Node := f.children.lookup name

/-- The folder under a name. -/
def childFolder? (f : Folder) (name : String) : Option Folder := (f.child? name).bind Node.folder?

/-- The folder with a node under a name. -/
def put (f : Folder) (name : String) (node : Node) : Folder :=
  { f with children := setChild name node f.children }

/-- The folder with one more child. If its name is taken, it stands under its
whole path. -/
def addChild [Reading] (f : Folder) (name : String) (node : Node) : Folder :=
  if (f.child? name).isSome then f.put (Reading.read node.path.text) node else f.put name node

/-! ## Going down -/

/-- The folder under a name, which is new if the name is free. There is none
if the name is that of a file. -/
def openChild? (f : Folder) (name : String) : Option Folder :=
  match f.child? name with
  | some node => node.folder?
  | none => some (.named (f.path.child name) name)

/-- Goes down from a folder along some names, and changes the folder at their
end. Folders that are missing on the way are made, and stay even if a file is
in the way further down. -/
def descend (change : Folder → α × Folder) (blocked : α) : List String → Folder → α × Folder
  | [], f => change f
  | name :: rest, f =>
    match f.openChild? name with
    | none => (blocked, f)
    | some below =>
      let (answer, below) := descend change blocked rest below
      (answer, f.put name below.toNode)

/-- The folder at a path, and the tree in which it is. There is none outside
the tree, and none where a file is in the way. -/
def folderFor [Reading] (f : Folder) (path : Path) : Option Folder × Folder :=
  match path.namesBelow? f.path with
  | none => (none, f)
  | some names => f.descend (fun g => (some g, g)) none names

/-- A file put into the folder that holds it, unless its name is taken. -/
def insertFile [Reading] (file : FileNode) (f : Folder) : Bool × Folder :=
  if (f.child? file.path.displayName).isSome then (false, f)
  else (true, f.put file.path.displayName (.file file))

/-- Whether a file was put into the tree, and the tree. A file that is there
stays as it is. -/
def addFile [Reading] (f : Folder) (file : FileNode) : Bool × Folder :=
  match file.path.parent?.bind (·.namesBelow? f.path) with
  | none => (false, f)
  | some names => f.descend (insertFile file) false names

end Folder

/-! ## The files of a tree -/

mutual

/-- The number of nodes from a node down. -/
def Node.weight : Node → Nat
  | .file _ => 1
  | .folder _ _ children => 1 + weightOfEach children

/-- The number of nodes from some children down. -/
def weightOfEach : List (String × Node) → Nat
  | [] => 0
  | (_, node) :: rest => node.weight + weightOfEach rest

end

/-- Children without their names. -/
def nodesOf (children : List (String × Node)) : List Node := children.map (·.2)

/-- The number of nodes from some nodes down. -/
def weightOfAll : List Node → Nat
  | [] => 0
  | node :: rest => node.weight + weightOfAll rest

/-- The weight of some children is that of their nodes. -/
theorem weightOfEach_eq_weightOfAll (children : List (String × Node)) :
    weightOfEach children = weightOfAll (nodesOf children) := by
  induction children with
  | nil => rfl
  | cons child rest ih => simpa [weightOfEach, weightOfAll, nodesOf] using ih

/-- The weights of two lists add up. -/
theorem weightOfAll_append (nodes more : List Node) :
    weightOfAll (nodes ++ more) = weightOfAll nodes + weightOfAll more := by
  induction nodes with
  | nil => simp [weightOfAll]
  | cons node rest ih => simp [weightOfAll, ih, Nat.add_assoc]

/-- The files of some nodes that are still to be gone through, each folder
before what follows it. -/
def filesOfStack : List Node → List FileNode
  | [] => []
  | .file file :: stack => file :: filesOfStack stack
  | .folder _ _ children :: stack => filesOfStack (nodesOf children ++ stack)
termination_by stack => weightOfAll stack
decreasing_by
  · simp [weightOfAll, Node.weight]
  · simp [weightOfAll, weightOfAll_append, Node.weight, weightOfEach_eq_weightOfAll]

mutual

/-- The files of a node, those of the children of a folder one after another. -/
def Node.files : Node → List FileNode
  | .file file => [file]
  | .folder _ _ children => filesOfEach children

/-- The files of some children, one after another. -/
def filesOfEach : List (String × Node) → List FileNode
  | [] => []
  | (_, node) :: rest => node.files ++ filesOfEach rest

end

namespace Folder

/-- The files below a folder, depth first, in the order of names. -/
def files (f : Folder) : List FileNode := filesOfStack (nodesOf f.children)

/-- The file at a path. -/
def file? (f : Folder) (path : Path) : Option FileNode := f.files.find? (·.path.same path)

end Folder

end CompileCommands
