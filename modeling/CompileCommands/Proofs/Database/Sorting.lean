-- Sorted records. Records are sorted by their flags, and those with the same flags
-- stay in the order in which they were. There is one such order of them, whatever
-- keys their flags were given.
import CompileCommands.Proofs.Database.Records
import CompileCommands.Proofs.Flags.Order
import Mathlib.Data.List.Permutation

namespace CompileCommands.Database

open Std

/-! ## Sorted records -/

/-- The first record does not come after the second by its flags. -/
def flagOrder (table : FlagTable) (a b : CompileRecord) : Bool :=
  (compare (table.flagsOf a.flags) (table.flagsOf b.flags)).isLE

theorem flagOrder_trans (table : FlagTable) (a b c : CompileRecord)
    (hab : flagOrder table a b = true) (hbc : flagOrder table b c = true) :
    flagOrder table a c = true := TransCmp.isLE_trans hab hbc

theorem flagOrder_total (table : FlagTable) (a b : CompileRecord) :
    (flagOrder table a b || flagOrder table b a) = true := by
  unfold flagOrder
  rw [OrientedOrd.eq_swap (a := table.flagsOf b.flags)]
  cases compare (table.flagsOf a.flags) (table.flagsOf b.flags) <;> rfl

section Sorted

variable {table : FlagTable} {records : List CompileRecord}

/-- As long as all keys were given out, records are sorted by their flags. -/
theorem sortRecords_eq (hheld : ∀ r ∈ records, table.Holds r.flags) :
    sortRecords table records = records.mergeSort (flagOrder table) := by
  have hsame : ∀ a ∈ records, ∀ b ∈ records,
      table.inOrder a.flags b.flags = flagOrder table (id a) (id b) := fun a ha b hb =>
    FlagTable.inOrder_eq (hheld a ha) (hheld b hb)
  have hsort := List.map_mergeSort hsame
  rwa [List.map_id, List.map_id] at hsort

theorem mem_sortRecords {r : CompileRecord} : r ∈ sortRecords table records ↔ r ∈ records :=
  List.mem_mergeSort

theorem sortRecords_pairwise (hheld : ∀ r ∈ records, table.Holds r.flags) :
    (sortRecords table records).Pairwise (flagOrder table · · = true) := by
  rw [sortRecords_eq hheld]
  exact List.pairwise_mergeSort (flagOrder_trans table) (flagOrder_total table) records

/-- Records with the same flags stay in the order in which they were. -/
theorem sortRecords_filter (hheld : ∀ r ∈ records, table.Holds r.flags) (flags : List String) :
    (sortRecords table records).filter (fun r => table.flagsOf r.flags = flags) =
      records.filter (fun r => table.flagsOf r.flags = flags) := by
  rw [sortRecords_eq hheld]
  have hequal : (records.filter (fun r => table.flagsOf r.flags = flags)).Pairwise
      (flagOrder table · · = true) := by
    refine List.pairwise_of_forall_mem_list fun a ha b hb => ?_
    have hab : table.flagsOf a.flags = table.flagsOf b.flags := by
      rw [of_decide_eq_true (List.mem_filter.mp ha).2, of_decide_eq_true (List.mem_filter.mp hb).2]
    unfold flagOrder
    rw [hab, ReflOrd.compare_self]
    rfl
  have hsub := (List.sublist_mergeSort (flagOrder_trans table) (flagOrder_total table) hequal
    List.filter_sublist).filter (fun r => table.flagsOf r.flags = flags)
  rw [List.filter_filter] at hsub
  have hlen := ((List.mergeSort_perm records (flagOrder table)).filter
    (fun r => table.flagsOf r.flags = flags)).length_eq
  simp only [Bool.and_self] at hsub
  exact (hsub.eq_of_length hlen.symm).symm

end Sorted

/-! ## One order -/

/-- The records in the order of their flags, those with the same flags in the
order in which they were given. -/
structure IsSorting (table : FlagTable) (records sorted : List CompileRecord) : Prop where
  perm : sorted.Perm records
  ascending : sorted.Pairwise fun a b => (table.compare? a.flags b.flags).any Ordering.isLE = true
  stable : ∀ flags, sorted.filter (fun r => table.flagsOf r.flags = flags) =
    records.filter (fun r => table.flagsOf r.flags = flags)

/-- Two lists that are sorted by a key are the same, if they have the same elements
in the same order for each key. -/
theorem eq_of_filter_eq {α κ : Type} [DecidableEq κ] (key : α → κ) {le : α → α → Prop}
    {xs ys : List α} (hxs : xs.Pairwise le) (hys : ys.Pairwise le)
    (hkey : ∀ a ∈ xs, ∀ b ∈ xs, le a b → le b a → key a = key b)
    (h : ∀ k, xs.filter (key · = k) = ys.filter (key · = k)) : xs = ys := by
  have hmem : ∀ {zs ws : List α}, (∀ k, zs.filter (key · = k) = ws.filter (key · = k)) →
      ∀ x ∈ zs, x ∈ ws := by
    intro zs ws hzw x hx
    have hfiltered : x ∈ zs.filter (key · = key x) := List.mem_filter.mpr ⟨hx, by simp⟩
    rw [hzw] at hfiltered
    exact (List.mem_filter.mp hfiltered).1
  induction xs generalizing ys with
  | nil =>
    exact (List.eq_nil_iff_forall_not_mem.mpr fun y hy =>
      List.not_mem_nil (hmem (fun k => (h k).symm) y hy)).symm
  | cons x xs ih =>
    cases ys with
    | nil => exact absurd (hmem h x List.mem_cons_self) List.not_mem_nil
    | cons y ys =>
      have hx := hmem h x List.mem_cons_self
      have hy := hmem (fun k => (h k).symm) y List.mem_cons_self
      -- Each of the two first elements stands somewhere in the other list.
      have hfirst : x = y := by
        rcases List.mem_cons.mp hx with hxy | hx'
        · exact hxy
        rcases List.mem_cons.mp hy with hyx | hy'
        · exact hyx.symm
        have hkeys := hkey x List.mem_cons_self y hy ((List.pairwise_cons.mp hxs).1 y hy')
          ((List.pairwise_cons.mp hys).1 x hx')
        have hheads := h (key x)
        rw [List.filter_cons_of_pos (by simp),
          List.filter_cons_of_pos (by simp [hkeys])] at hheads
        exact (List.cons.inj hheads).1
      subst hfirst
      rw [ih (List.pairwise_cons.mp hxs).2 (List.pairwise_cons.mp hys).2
        (fun a ha b hb => hkey a (List.mem_cons_of_mem x ha) b (List.mem_cons_of_mem x hb))
        fun k => ?_]
      have hk := h k
      rw [List.filter_cons, List.filter_cons] at hk
      split at hk
      · exact (List.cons.inj hk).2
      · exact hk

section Sorting

variable {table : FlagTable} {records sorted : List CompileRecord}

theorem any_compare?_eq {a b : CompileRecord} (ha : table.Holds a.flags)
    (hb : table.Holds b.flags) :
    (table.compare? a.flags b.flags).any Ordering.isLE = flagOrder table a b := by
  rw [FlagTable.compare?_eq ha hb]
  rfl

theorem sortRecords_isSorting (hheld : ∀ r ∈ records, table.Holds r.flags) :
    IsSorting table records (sortRecords table records) where
  perm := List.mergeSort_perm records _
  ascending := (sortRecords_pairwise hheld).imp_of_mem fun ha hb hab => by
    rwa [any_compare?_eq (hheld _ (mem_sortRecords.mp ha)) (hheld _ (mem_sortRecords.mp hb))]
  stable := sortRecords_filter hheld

theorem IsSorting.unique {more : List CompileRecord} (hheld : ∀ r ∈ records, table.Holds r.flags)
    (h : IsSorting table records sorted) (h' : IsSorting table records more) : sorted = more := by
  refine eq_of_filter_eq (fun r => table.flagsOf r.flags) h.ascending h'.ascending ?_
    fun flags => (h.stable flags).trans (h'.stable flags).symm
  intro a ha b hb hab hba
  have ha := hheld a (h.perm.mem_iff.mp ha)
  have hb := hheld b (h.perm.mem_iff.mp hb)
  rw [any_compare?_eq ha hb] at hab
  rw [any_compare?_eq hb ha] at hba
  exact LawfulEqOrd.eq_of_compare (OrientedCmp.isLE_antisymm hab hba)

end Sorting

/-! ## Records with their flags written out -/

/-- The first record does not come after the second by its flags. -/
def plainOrder (a b : PlainRecord) : Bool := (compare a.flags b.flags).isLE

/-- What is sorted shows nothing of the keys. -/
theorem map_plain_sortRecords {table : FlagTable} {records : List CompileRecord}
    (hheld : ∀ r ∈ records, table.Holds r.flags) :
    (sortRecords table records).map (·.plain table) =
      (records.map (·.plain table)).mergeSort plainOrder := by
  rw [sortRecords_eq hheld]
  exact List.map_mergeSort fun _ _ _ _ => rfl

open FlagTable (Issued ofHistory)

/-- Whatever flags a table was asked for before, the keys that it gave out are
compared as the bytes of their flags are, which orders them totally. By this order
there is one sorting of records, which leaves those with the same flags as they
stand. With other keys, given out in another history, the same records are sorted
in the same way. -/
theorem sortRecords_canonical (history : List String) :
    (∀ as bs, Issued history as → Issued history bs →
      (ofHistory history).compare? as bs =
        some (compare ((ofHistory history).bytesOf as) ((ofHistory history).bytesOf bs))) ∧
    (ofHistory history).IsTotalOn (Issued history) ∧
    ∀ records : List CompileRecord, (∀ r ∈ records, Issued history r.flags) →
      (∀ sorted, IsSorting (ofHistory history) records sorted ↔
        sorted = sortRecords (ofHistory history) records) ∧
      ∀ (other : List String) (records' : List CompileRecord),
        (∀ r ∈ records', Issued other r.flags) →
        records.map (·.plain (ofHistory history)) = records'.map (·.plain (ofHistory other)) →
        (sortRecords (ofHistory history) records).map (·.plain (ofHistory history)) =
          (sortRecords (ofHistory other) records').map (·.plain (ofHistory other)) := by
  refine ⟨fun as bs ha hb => FlagTable.compare?_eq_bytes ha.holds hb.holds,
    (FlagTable.isTotalOn_holds _).mono fun _ => Issued.holds, fun records hissued => ?_⟩
  have hheld : ∀ r ∈ records, (ofHistory history).Holds r.flags := fun r hr => (hissued r hr).holds
  refine ⟨fun sorted => ⟨fun h => h.unique hheld (sortRecords_isSorting hheld), ?_⟩, ?_⟩
  · rintro rfl
    exact sortRecords_isSorting hheld
  · intro other records' hissued' hsame
    have hheld' : ∀ r ∈ records', (ofHistory other).Holds r.flags := fun r hr =>
      (hissued' r hr).holds
    rw [map_plain_sortRecords hheld, hsame, map_plain_sortRecords hheld']

/-- A record of flags with some keys. -/
def keyed (flags : List FlagKey) (file : String) : CompileRecord := ⟨flags, ⟨file⟩, ⟨"/p"⟩⟩

/-- The later flag `-a` comes before the earlier flag `-z`, a shorter list before
the lists that extend it, and two records with the same flags stay as they are. -/
theorem sortRecords_canonical_laterFlag :
    let history := ["-z", "cc", "-a"]
    let records := [keyed [1, 0] "/p/z.c", keyed [1, 2] "/p/y.c", keyed [1] "/p/x.c",
      keyed [1, 0] "/p/a.c"]
    let other := ["-a", "-z", "cc"]
    let records' := [keyed [2, 1] "/p/z.c", keyed [2, 0] "/p/y.c", keyed [2] "/p/x.c",
      keyed [2, 1] "/p/a.c"]
    Issued history [1, 0] ∧ Issued history [1, 2] ∧
      (ofHistory history).compare? [1, 0] [1, 2] = some .gt ∧
      (∀ r ∈ records, Issued history r.flags) ∧ (∀ r ∈ records', Issued other r.flags) ∧
      records.map (·.plain (ofHistory history)) = records'.map (·.plain (ofHistory other)) ∧
      IsSorting (ofHistory history) records
        [keyed [1] "/p/x.c", keyed [1, 2] "/p/y.c", keyed [1, 0] "/p/z.c", keyed [1, 0] "/p/a.c"] ∧
      (sortRecords (ofHistory history) records).map (·.plain (ofHistory history)) =
        (sortRecords (ofHistory other) records').map (·.plain (ofHistory other)) := by
  intro history records other records'
  have hfirst : Issued history [1, 0] := by decide +kernel
  have hsecond : Issued history [1, 2] := by decide +kernel
  have hissued : ∀ r ∈ records, Issued history r.flags := by decide +kernel
  have hissued' : ∀ r ∈ records', Issued other r.flags := by decide +kernel
  have hsame : records.map (·.plain (ofHistory history)) =
      records'.map (·.plain (ofHistory other)) := by decide +kernel
  have hsorted : [keyed [1] "/p/x.c", keyed [1, 2] "/p/y.c", keyed [1, 0] "/p/z.c",
      keyed [1, 0] "/p/a.c"] = sortRecords (ofHistory history) records := by cbv
  obtain ⟨hcompare, -, hsorting⟩ := sortRecords_canonical history
  obtain ⟨hunique, hcanonical⟩ := hsorting records hissued
  refine ⟨hfirst, hsecond, ?_, hissued, hissued', hsame, (hunique _).mpr hsorted,
    hcanonical other records' hissued' hsame⟩
  rw [hcompare _ _ hfirst hsecond]
  decide +kernel

end CompileCommands.Database
