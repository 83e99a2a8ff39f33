-- Sets of paths, in the order of paths. Two spellings of one place count as
-- one path.
import CompileCommands.Path

namespace CompileCommands

/-- Paths in their order, no place twice. -/
structure PathSet where
  toList : List Path
  deriving DecidableEq, Repr

namespace PathSet

/-- The set without paths. -/
def empty : PathSet := ⟨[]⟩

/-- The number of paths. -/
def size (s : PathSet) : Nat := s.toList.length

/-- A path put into an ordered list. A place that is there keeps its spelling. -/
def insertInOrder (p : Path) : List Path → List Path
  | [] => [p]
  | q :: rest =>
    match p.order q with
    | .lt => p :: q :: rest
    | .eq => q :: rest
    | .gt => q :: insertInOrder p rest

/-- The set with one more path. -/
def insert (s : PathSet) (p : Path) : PathSet := ⟨insertInOrder p s.toList⟩

/-- The set of some paths. Of several spellings of one place, the first one
stands. -/
def ofList (paths : List Path) : PathSet := paths.foldl insert empty

end PathSet

end CompileCommands
