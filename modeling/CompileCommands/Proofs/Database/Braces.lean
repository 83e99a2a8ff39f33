-- One opening brace. The text from it to a closing brace may be a record. At
-- most one closing brace ends a record there, for a record that is cut off
-- before ends too early and has no other fault.
import CompileCommands.Database.Extraction
import CompileCommands.Proofs.Record.Reading

namespace CompileCommands.Database

open Record

/-! ## Places of a byte -/

theorem bounds_of_mem_positions {b : UInt8} {offset n : Nat} {xs : List UInt8}
    (h : n ∈ positions b offset xs) : offset ≤ n ∧ n < offset + xs.length := by
  induction xs generalizing offset with
  | nil => cases h
  | cons x xs ih =>
    simp only [positions] at h
    have hlen : (x :: xs).length = xs.length + 1 := rfl
    split at h
    · rcases List.mem_cons.mp h with rfl | h
      · omega
      · have := ih h; omega
    · have := ih h; omega

theorem positions_eq_nil_iff {b : UInt8} {offset : Nat} {xs : List UInt8} :
    positions b offset xs = [] ↔ b ∉ xs := by
  induction xs generalizing offset with
  | nil => simp [positions]
  | cons x xs ih =>
    by_cases hx : x = b
    · subst hx
      simp [positions]
    · have hne : b ≠ x := fun h => hx h.symm
      simp only [positions, if_neg hx, ih, List.mem_cons, hne, false_or]

theorem mem_positions {b : UInt8} {offset n : Nat} {xs : List UInt8} :
    offset + n ∈ positions b offset xs ↔ xs[n]? = some b := by
  induction xs generalizing offset n with
  | nil => simp [positions]
  | cons x xs ih =>
    cases n with
    | zero =>
      have hno : offset ∉ positions b (offset + 1) xs := fun h => by
        have := bounds_of_mem_positions h
        omega
      simp only [positions, Nat.add_zero, List.getElem?_cons_zero, Option.some.injEq]
      split <;> simp_all
    | succ n =>
      have hplace : offset + (n + 1) = offset + 1 + n := by omega
      have hne : offset + 1 + n ≠ offset := by omega
      rw [hplace, List.getElem?_cons_succ, ← @ih (offset + 1) n, positions]
      split
      · simp only [List.mem_cons, hne, false_or]
      · exact Iff.rfl

theorem positions_pairwise (b : UInt8) (offset : Nat) (xs : List UInt8) :
    (positions b offset xs).Pairwise (· < ·) := by
  induction xs generalizing offset with
  | nil => exact .nil
  | cons x xs ih =>
    unfold positions
    split
    · exact .cons (fun m hm => (bounds_of_mem_positions hm).1) (ih (offset + 1))
    · exact ih (offset + 1)

theorem mem_openings {bytes : List UInt8} {n : Nat} :
    n ∈ openings bytes ↔ bytes[n]? = some 0x7B := by
  have hplace := @mem_positions 0x7B 0 n bytes
  rw [Nat.zero_add] at hplace
  exact hplace

theorem mem_closings {bytes : List UInt8} {n : Nat} :
    n ∈ closings bytes ↔ bytes[n]? = some 0x7D := by
  have hplace := @mem_positions 0x7D 0 n bytes
  rw [Nat.zero_add] at hplace
  exact hplace

/-- The closing braces behind a place. -/
def closingsBehind (bytes : List UInt8) (first : Nat) : List Nat :=
  (closings bytes).filter (first < ·)

theorem mem_closingsBehind {bytes : List UInt8} {first n : Nat} :
    n ∈ closingsBehind bytes first ↔ first < n ∧ bytes[n]? = some 0x7D := by
  unfold closingsBehind
  rw [List.mem_filter, mem_closings, decide_eq_true_eq, and_comm]

theorem closingsBehind_pairwise (bytes : List UInt8) (first : Nat) :
    (closingsBehind bytes first).Pairwise (· < ·) := (positions_pairwise 0x7D 0 bytes).filter _

/-- All closing braces of a text stand behind an opening brace at its start. -/
theorem closingsBehind_brace (rest : List UInt8) :
    closingsBehind (0x7B :: rest) 0 = closings (0x7B :: rest) := by
  refine List.filter_eq_self.mpr fun n hn => ?_
  have hrest : n ∈ positions 0x7D 1 rest := hn
  exact decide_eq_true (bounds_of_mem_positions hrest).1

theorem closingsBehind_tail {bytes : List UInt8} {first last : Nat} {more : List Nat}
    (h : closingsBehind bytes first = last :: more) : closingsBehind bytes last = more := by
  have hsorted := closingsBehind_pairwise bytes first
  have hmem : last ∈ closingsBehind bytes first := by rw [h]; simp
  have hbehind := (mem_closingsBehind.mp hmem).1
  have hfilter : closingsBehind bytes last = (closingsBehind bytes first).filter (last < ·) := by
    unfold closingsBehind
    rw [List.filter_filter]
    refine List.filter_congr fun n _ => ?_
    rw [← Bool.decide_and]
    exact decide_eq_decide.mpr ⟨fun hn => ⟨hn, Nat.lt_trans hbehind hn⟩, And.left⟩
  rw [h] at hsorted hfilter
  rw [hfilter, List.filter_cons_of_neg (by simp), List.filter_eq_self]
  exact fun n hn => decide_eq_true ((List.pairwise_cons.mp hsorted).1 n hn)

/-! ## From one place to another -/

theorem slice_split {bytes : List UInt8} {first n last : Nat} (hfirst : first ≤ n)
    (hlast : n ≤ last) :
    slice bytes first last = slice bytes first n ++ slice bytes (n + 1) last := by
  have hdrop : bytes.drop (n + 1) = (bytes.drop first).drop (n + 1 - first) := by
    rw [List.drop_drop]
    congr 1
    omega
  have htake : last + 1 - first = (n + 1 - first) + (last + 1 - (n + 1)) := by omega
  unfold slice
  rw [htake, List.take_add, hdrop]

theorem slice_self {bytes : List UInt8} {n : Nat} {b : UInt8} (h : bytes[n]? = some b) :
    slice bytes n n = [b] := by
  obtain ⟨hn, rfl⟩ := List.getElem?_eq_some_iff.mp h
  unfold slice
  rw [Nat.add_sub_cancel_left, List.drop_eq_getElem_cons hn]
  rfl

theorem slice_last {bytes : List UInt8} {first last : Nat} {b : UInt8} (hfirst : first ≤ last)
    (h : bytes[last]? = some b) : ∃ front, slice bytes first last = front ++ [b] := by
  rcases Nat.eq_or_lt_of_le hfirst with rfl | hlt
  · exact ⟨[], slice_self h⟩
  · obtain ⟨k, rfl⟩ : ∃ k, last = k + 1 := ⟨last - 1, by omega⟩
    exact ⟨slice bytes first k, by rw [slice_split (by omega) (Nat.le_succ k), slice_self h]⟩

theorem slice_ne_nil {bytes : List UInt8} {first n : Nat} (hfirst : first ≤ n)
    (h : first < bytes.length) : slice bytes first n ≠ [] := by
  unfold slice
  simp only [ne_eq, List.take_eq_nil_iff, List.drop_eq_nil_iff]
  omega

/-! ## What may be a record -/

/-- The text from one place to a closing brace behind it is one record. -/
structure IsRecordAt (bytes : List UInt8) (first last : Nat) (draft : Draft) : Prop where
  behind : first < last
  closing : bytes[last]? = some 0x7D
  decodes : decode (slice bytes first last) = .ok draft

theorem IsRecordAt.cut {bytes : List UInt8} {first n last : Nat} {draft : Draft}
    (h : IsRecordAt bytes first last draft) (hfirst : first ≤ n) (hlast : n < last) :
    ∃ fault, decode (slice bytes first n) = .error fault ∧ fault.cause.isEnd = true := by
  obtain ⟨hlen, -⟩ := List.getElem?_eq_some_iff.mp h.closing
  obtain ⟨back, hback⟩ : ∃ back, slice bytes (n + 1) last = back ++ [0x7D] :=
    slice_last hlast h.closing
  have hdecode := h.decodes
  rw [slice_split hfirst (Nat.le_of_lt hlast), hback] at hdecode
  exact decode_cut hdecode (slice_ne_nil hfirst (by omega))

theorem IsRecordAt.unique {bytes : List UInt8} {first last last' : Nat} {draft draft' : Draft}
    (h : IsRecordAt bytes first last draft) (h' : IsRecordAt bytes first last' draft') :
    last = last' ∧ draft = draft' := by
  rcases Nat.lt_trichotomy last last' with hlt | rfl | hlt
  · obtain ⟨fault, hfault, -⟩ := h'.cut (Nat.le_of_lt h.behind) hlt
    cases h.decodes.symm.trans hfault
  · cases h.decodes.symm.trans h'.decodes
    exact ⟨rfl, rfl⟩
  · obtain ⟨fault, hfault, -⟩ := h.cut (Nat.le_of_lt h'.behind) hlt
    cases h'.decodes.symm.trans hfault

/-- A fault that is no early end is there in every longer text. -/
theorem not_isRecordAt_of_fault {bytes : List UInt8} {first n last : Nat} {fault : Json.Fault}
    (hfirst : first ≤ n) (hfault : decode (slice bytes first n) = .error fault)
    (hend : fault.cause.isEnd = false) (hlast : n < last) (draft : Draft) :
    ¬ IsRecordAt bytes first last draft := by
  intro h
  obtain ⟨fault', hfault', hend'⟩ := h.cut hfirst hlast
  cases hfault.symm.trans hfault'
  rw [hend] at hend'
  cases hend'

/-! ## The closing braces in turn -/

/-- A record ends at one of the closing braces. -/
theorem settle_taken {bytes : List UInt8} {first last : Nat} {ends : List Nat} {draft : Draft}
    (h : settle bytes first ends = some (.taken last draft)) :
    last ∈ ends ∧ decode (slice bytes first last) = .ok draft := by
  induction ends with
  | nil => cases h
  | cons n more ih =>
    simp only [settle] at h
    split at h
    · cases h
      exact ⟨by simp, ‹_›⟩
    · split at h
      · exact ⟨List.mem_cons_of_mem n (ih h).1, (ih h).2⟩
      · cases h

/-- A text that ends too early is read on to the next closing brace. -/
theorem settle_of_early {bytes : List UInt8} {first last : Nat} {early late : List Nat}
    {draft : Draft}
    (hearly : ∀ n ∈ early, ∃ fault, decode (slice bytes first n) = .error fault ∧
      fault.cause.isEnd = true)
    (hlast : decode (slice bytes first last) = .ok draft) :
    settle bytes first (early ++ last :: late) = some (.taken last draft) := by
  induction early with
  | nil => simp only [List.nil_append, settle, hlast]
  | cons n early ih =>
    obtain ⟨fault, hfault, hend⟩ := hearly n (by simp)
    have hrest := ih (fun m hm => hearly m (by simp [hm]))
    simp only [List.cons_append, settle, hfault, hend]
    simpa using hrest

theorem settle_eq_none {bytes : List UInt8} {first : Nat} {ends : List Nat} :
    settle bytes first ends = none ↔ ends = [] := by
  induction ends with
  | nil => simp [settle]
  | cons n more ih =>
    simp only [settle]
    split
    · simp
    · split
      · rename_i hmore
        simp only [Bool.and_eq_true, Bool.not_eq_true', List.isEmpty_eq_false_iff] at hmore
        simp [ih, hmore.2]
      · simp

/-- The closing braces are tried until one of them ends a record, if any does. -/
theorem settle_taken_iff {bytes : List UInt8} {first last : Nat} {draft : Draft} :
    settle bytes first (closingsBehind bytes first) = some (.taken last draft) ↔
      IsRecordAt bytes first last draft := by
  constructor
  · intro h
    obtain ⟨hmem, hdecode⟩ := settle_taken h
    obtain ⟨hbehind, hclosing⟩ := mem_closingsBehind.mp hmem
    exact ⟨hbehind, hclosing, hdecode⟩
  · intro h
    obtain ⟨early, late, hends⟩ := List.append_of_mem
      (mem_closingsBehind.mpr ⟨h.behind, h.closing⟩)
    have hsorted := closingsBehind_pairwise bytes first
    rw [hends] at hsorted ⊢
    refine settle_of_early (fun n hn => h.cut ?_ ?_) h.decodes
    · have hmem : n ∈ closingsBehind bytes first := by rw [hends]; simp [hn]
      exact Nat.le_of_lt (mem_closingsBehind.mp hmem).1
    · exact (List.pairwise_append.mp hsorted).2.2 n hn last (by simp)

end CompileCommands.Database
