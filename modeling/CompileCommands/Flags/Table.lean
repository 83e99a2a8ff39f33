-- The table of flags. A database says the same few flags again and again, so
-- a record holds keys, and each flag stands once in a table.
import CompileCommands.Text

namespace CompileCommands

/-- The place of a flag in a table. -/
abbrev FlagKey := Nat

/-- The distinct flags, in the order in which they were first seen. -/
structure FlagTable where
  flags : List String
  nodup : flags.Nodup

namespace FlagTable

/-- The table without flags. -/
def empty : FlagTable := ⟨[], List.nodup_nil⟩

/-- The number of distinct flags. -/
def size (t : FlagTable) : Nat := t.flags.length

/-- The flag with a key, if the table gave out that key. -/
def flag? (t : FlagTable) (key : FlagKey) : Option String := t.flags[key]?

/-- The key of a flag, which is added to the table if it is new. -/
def intern (t : FlagTable) (flag : String) : FlagKey × FlagTable :=
  if h : flag ∈ t.flags then (t.flags.idxOf flag, t)
  else (t.size, ⟨t.flags ++ [flag], by
    rw [List.nodup_append]
    exact ⟨t.nodup, by simp, fun a ha b hb => by
      rintro rfl
      exact h ((List.mem_singleton.mp hb) ▸ ha)⟩⟩)

/-- The keys of a list of flags, from left to right. -/
def internAll (t : FlagTable) : List String → List FlagKey × FlagTable
  | [] => ([], t)
  | flag :: rest =>
    let (key, t) := t.intern flag
    let (keys, t) := t.internAll rest
    (key :: keys, t)

/-- The flags with the given keys, if the table gave out all of them. -/
def flags? (t : FlagTable) (keys : List FlagKey) : Option (List String) := keys.mapM t.flag?

/-- The flags with the given keys. A key that the table never gave out has
no flag. -/
def flagsOf (t : FlagTable) (keys : List FlagKey) : List String := keys.filterMap t.flag?

/-- The order of two lists of keys by the flags that they stand for, a shorter
list before the lists that extend it. Equal keys are not looked up. There is
no answer if a key has to be looked up that the table never gave out. -/
def compare? (t : FlagTable) : List FlagKey → List FlagKey → Option Ordering
  | [], [] => some .eq
  | [], _ :: _ => some .lt
  | _ :: _, [] => some .gt
  | a :: as, b :: bs =>
    if a = b then t.compare? as bs
    else match t.flag? a, t.flag? b with
      | some x, some y =>
        match compare x y with
        | .eq => t.compare? as bs
        | order => some order
      | _, _ => none

/-- The first list of keys does not come after the second. -/
def inOrder (t : FlagTable) (a b : List FlagKey) : Bool := t.compare? a b != some .gt

end FlagTable

end CompileCommands
