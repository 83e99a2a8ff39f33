-- Paths. A path keeps its text as it was given, and all questions about it
-- are asked of its components: two spellings with the same components name
-- the same place. Paths follow the POSIX rules on every host. Their texts are
-- Unicode. In a name that is not, characters stand for the bytes (`Reading`), and
-- how such a name is read matters only where it is shown or looked up as text.
import CompileCommands.Text
import CompileCommands.Text.Reading

namespace CompileCommands

/-! ## Components -/

/-- One step of a path. -/
inductive Component
  | root
  | current
  | parent
  | normal (name : String)
  deriving DecidableEq, Repr

namespace Component

/-- The text of a component between two slashes. The root has none. -/
def text : Component → String
  | .root => ""
  | .current => "."
  | .parent => ".."
  | .normal name => name

/-- The component that a piece between slashes stands for. An empty piece
and a dot stand for none. -/
def ofPiece (piece : String) : Option Component :=
  if piece = "" ∨ piece = "." then none
  else if piece = ".." then some .parent
  else some (.normal piece)

/-- The name of a normal component. -/
def name? : Component → Option String
  | .normal name => some name
  | _ => none

/-- The place of a kind of component in the order of components. -/
def rank : Component → Nat
  | .root => 0
  | .current => 1
  | .parent => 2
  | .normal _ => 3

/-- The root comes first, then `.`, then `..`, then the names in the order
of their characters. -/
def order : Component → Component → Ordering
  | .normal a, .normal b => compare a b
  | a, b => compare a.rank b.rank

end Component

/-- A path, as it was written. -/
structure Path where
  text : String
  deriving DecidableEq, Repr, Inhabited

namespace Path

/-- The pieces of the text between slashes. -/
def pieces (p : Path) : List String :=
  (Text.pieces (· == '/') p.text.toList).map String.ofList

/-- A path is absolute if it starts at the root. -/
def isAbsolute (p : Path) : Bool := Text.startsWith p.text "/"

/-- The components of the pieces below the start of a path. -/
def ofPieces (pieces : List String) : List Component := pieces.filterMap Component.ofPiece

/-- The components of a path. Repeated slashes and inner dots count for
nothing. A dot counts only at the start of a relative path. -/
def components (p : Path) : List Component :=
  if p.isAbsolute then .root :: ofPieces p.pieces
  else match p.pieces with
    | "." :: rest => .current :: ofPieces rest
    | pieces => ofPieces pieces

/-- Two paths with the same components name the same place. -/
def same (p q : Path) : Bool := p.components == q.components

/-- The lexicographic order of components, a shorter path before the paths
that extend it. -/
def orderComponents : List Component → List Component → Ordering
  | [], [] => .eq
  | [], _ :: _ => .lt
  | _ :: _, [] => .gt
  | a :: as, b :: bs => (a.order b).then (orderComponents as bs)

/-- The order of paths is the order of their components. -/
def order (p q : Path) : Ordering := orderComponents p.components q.components

/-! ## Writing components as text -/

/-- The text of pieces with a slash between each two. -/
def joinPieces (pieces : List String) : String := String.intercalate "/" pieces

/-- The path with the given components. -/
def ofComponents : List Component → Path
  | .root :: rest => ⟨"/" ++ joinPieces (rest.map Component.text)⟩
  | rest => ⟨joinPieces (rest.map Component.text)⟩

/-- The path below `base` that `p` names. An absolute `p` stands for itself. -/
def join (base p : Path) : Path :=
  if p.isAbsolute then p
  else if base.text = "" ∨ Text.endsWith base.text "/" then ⟨base.text ++ p.text⟩
  else ⟨base.text ++ "/" ++ p.text⟩

/-- The path below `base` with one more name. -/
def child (base : Path) (name : String) : Path := base.join ⟨name⟩

/-! ## The parts of a path -/

/-- A piece that stands for no component. -/
def isEmptyPiece (piece : String) : Bool := piece == "" || piece == "."

/-- The start of a path, which is never cut off piece by piece, and the pieces
that follow it. -/
def startAndPieces (p : Path) : String × List String :=
  if p.isAbsolute then ("/", p.pieces.drop 1)
  else match p.pieces with
    | "." :: rest => (".", rest)
    | pieces => ("", pieces)

/-- The path without its last component. The root and the empty path have
no parent. -/
def parent? (p : Path) : Option Path :=
  let (start, pieces) := p.startAndPieces
  match pieces.reverse.dropWhile isEmptyPiece with
  | [] => if start = "." then some ⟨""⟩ else none
  | _ :: above =>
    match (above.dropWhile isEmptyPiece).reverse with
    | [] => some ⟨start⟩
    | kept => some ⟨(if start = "." then "./" else start) ++ joinPieces kept⟩

/-- The last component, if it is a name. -/
def fileName? (p : Path) : Option String :=
  p.components.getLast?.bind Component.name?

/-- The last name of a path, or its whole text if it does not end in a name, as
it is read. -/
def displayName [Reading] (p : Path) : String := Reading.read (p.fileName?.getD p.text)

/-- The file name up to its first dot, or nothing for a path without one. -/
def baseName (p : Path) : String := (Text.cutAt '.' (p.fileName?.getD "")).1

/-- The part of the file name after its last dot. A dot that starts the name
does not count. -/
def extension? (p : Path) : Option String := do
  let name ← p.fileName?
  let chars := name.toList
  if chars.contains '.' then
    let ext := Text.lastPiece (· == '.') chars
    if ext.length + 1 = chars.length then none else some (String.ofList ext)
  else none

/-! ## Containment -/

/-- The components of `p` start with those of `base`. -/
def startsWith (p base : Path) : Bool := base.components.isPrefixOf p.components

/-- `p` lies strictly below `dir`. The empty path contains nothing. -/
def isBelow (p dir : Path) : Bool :=
  dir.text != "" && !p.same dir && p.startsWith dir

/-- The names that lead from `root` down to `folder`, as they are read, or
nothing if `folder` is not `root` and not below it. -/
def namesBelow? [Reading] (folder root : Path) : Option (List String) :=
  if folder.startsWith root then
    let names := (folder.components.drop root.components.length).filterMap Component.name?
    some (names.map Reading.read)
  else none

/-! ## Spelling -/

/-- The text with each backslash made a slash. -/
def withSlashes (text : String) : String :=
  String.ofList (text.toList.map (fun c => if c = '\\' then '/' else c))

/-- The path that a text names when either separator may stand in it. -/
def ofNative (text : String) : Path := ⟨withSlashes text⟩

end Path

end CompileCommands
