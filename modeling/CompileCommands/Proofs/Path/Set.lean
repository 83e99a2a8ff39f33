-- The laws of sets of paths. Paths are in a linear order in which two
-- spellings of one place count as equal, so a set that paths are put into in
-- turn holds each of their places once.
import CompileCommands.Path.Set

namespace CompileCommands

open Std

/-! ## The order of paths -/

theorem ne_of_compare_lt {α : Type} [Ord α] [ReflOrd α] {a b : α} (h : compare a b = .lt) :
    a ≠ b := by
  rintro rfl
  rw [ReflOrd.compare_self] at h
  cases h

theorem Component.order_eq :
    Component.order = compareLex (compareOn Component.rank) (compareOn Component.text) := by
  funext a b
  cases a <;> cases b <;> rfl

instance Component.order_trans : TransCmp Component.order := by
  rw [Component.order_eq]
  infer_instance

instance Component.order_lawfulEq : LawfulEqCmp Component.order where
  compare_self := ReflCmp.compare_self
  eq_of_compare {a b} h := by
    cases a <;> cases b <;> first | rfl | cases h | exact congrArg _ (LawfulEqOrd.eq_of_compare h)

theorem Path.orderComponents_eq : Path.orderComponents = List.compareLex Component.order := by
  funext as bs
  induction as generalizing bs with
  | nil => cases bs <;> rfl
  | cons a as ih =>
    cases bs with
    | nil => rfl
    | cons b bs =>
      rw [Path.orderComponents, ih, List.compareLex_cons_cons]

instance Path.order_trans : TransCmp Path.order where
  eq_swap := by
    intro p q
    unfold Path.order
    rw [Path.orderComponents_eq]
    exact OrientedCmp.eq_swap
  isLE_trans := by
    intro p q r
    unfold Path.order
    rw [Path.orderComponents_eq]
    exact TransCmp.isLE_trans

/-- Paths are equal in their order when they name the same place. -/
theorem Path.order_eq_eq_iff {p q : Path} : p.order q = .eq ↔ p.same q = true := by
  unfold Path.order Path.same
  rw [Path.orderComponents_eq, LawfulEqCmp.compare_eq_iff_eq, beq_iff_eq]

/-! ## One path more -/

namespace PathSet

theorem mem_insertInOrder {p q : Path} {paths : List Path} (h : q ∈ insertInOrder p paths) :
    q = p ∨ q ∈ paths := by
  induction paths with
  | nil => exact .inl (List.mem_singleton.mp h)
  | cons r paths ih =>
    unfold insertInOrder at h
    split at h
    · exact List.mem_cons.mp h
    · exact .inr h
    · rcases List.mem_cons.mp h with rfl | h
      · exact .inr List.mem_cons_self
      · exact (ih h).imp_right (List.mem_cons_of_mem r)

theorem mem_insertInOrder_of_mem {q : Path} {paths : List Path} (p : Path) (h : q ∈ paths) :
    q ∈ insertInOrder p paths := by
  induction paths with
  | nil => cases h
  | cons r paths ih =>
    unfold insertInOrder
    split
    · exact List.mem_cons_of_mem p h
    · exact h
    · rcases List.mem_cons.mp h with rfl | h
      · exact List.mem_cons_self
      · exact List.mem_cons_of_mem r (ih h)

theorem exists_same_insertInOrder (p : Path) (paths : List Path) :
    ∃ q ∈ insertInOrder p paths, q.same p = true := by
  induction paths with
  | nil => exact ⟨p, List.mem_singleton.mpr rfl, Path.order_eq_eq_iff.mp ReflCmp.compare_self⟩
  | cons r paths ih =>
    unfold insertInOrder
    split
    · exact ⟨p, List.mem_cons_self, Path.order_eq_eq_iff.mp ReflCmp.compare_self⟩
    · rename_i heq
      exact ⟨r, List.mem_cons_self, Path.order_eq_eq_iff.mp (OrientedCmp.eq_symm heq)⟩
    · obtain ⟨q, hq, hsame⟩ := ih
      exact ⟨q, List.mem_cons_of_mem r hq, hsame⟩

theorem insertInOrder_pairwise {p : Path} {paths : List Path}
    (h : paths.Pairwise (Path.order · · = .lt)) :
    (insertInOrder p paths).Pairwise (Path.order · · = .lt) := by
  induction paths with
  | nil => exact List.pairwise_singleton _ p
  | cons r paths ih =>
    obtain ⟨hr, hpaths⟩ := List.pairwise_cons.mp h
    unfold insertInOrder
    split
    · rename_i hlt
      refine List.pairwise_cons.mpr ⟨fun q hq => ?_, h⟩
      rcases List.mem_cons.mp hq with rfl | hq
      · exact hlt
      · exact TransCmp.lt_trans hlt (hr q hq)
    · exact h
    · rename_i hgt
      refine List.pairwise_cons.mpr ⟨fun q hq => ?_, ih hpaths⟩
      rcases mem_insertInOrder hq with rfl | hq
      · exact OrientedCmp.lt_of_gt hgt
      · exact hr q hq

/-! ## Sets of some paths -/

/-- The set holds the places of some paths, each of them once. -/
structure Holds (s : PathSet) (paths : List Path) : Prop where
  sound : ∀ q ∈ s.toList, q ∈ paths
  complete : ∀ p ∈ paths, ∃ q ∈ s.toList, q.same p = true
  ordered : s.toList.Pairwise (Path.order · · = .lt)

theorem empty_holds : empty.Holds [] where
  sound := by simp [empty]
  complete := by simp
  ordered := List.Pairwise.nil

theorem Holds.insert {s : PathSet} {paths : List Path} (h : s.Holds paths) (p : Path) :
    (s.insert p).Holds (paths ++ [p]) where
  sound q hq := by
    rcases mem_insertInOrder hq with rfl | hq
    · simp
    · exact List.mem_append_left [p] (h.sound q hq)
  complete q hq := by
    rcases List.mem_append.mp hq with hq | hq
    · obtain ⟨r, hr, hsame⟩ := h.complete q hq
      exact ⟨r, mem_insertInOrder_of_mem p hr, hsame⟩
    · rw [List.mem_singleton.mp hq]
      exact exists_same_insertInOrder p s.toList
  ordered := insertInOrder_pairwise h.ordered

theorem foldl_insert_holds {s : PathSet} {paths : List Path} (h : s.Holds paths)
    (more : List Path) : (more.foldl PathSet.insert s).Holds (paths ++ more) := by
  induction more generalizing s paths with
  | nil => rwa [List.append_nil]
  | cons p more ih =>
    rw [List.append_cons, List.foldl_cons]
    exact ih (h.insert p)

theorem ofList_holds (paths : List Path) : (ofList paths).Holds paths :=
  foldl_insert_holds empty_holds paths

end PathSet

end CompileCommands
