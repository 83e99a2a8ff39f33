-- Greedy reading. From left to right a record is taken at every opening brace
-- where one starts, and reading goes on behind it; another brace is passed
-- over alone. Nothing else is said of the faults of the texts that were tried.
import CompileCommands.Proofs.Database.Loop
import CompileCommands.Proofs.Database.Records
import Mathlib.Data.List.Basic

namespace CompileCommands.Database

open Record

variable {bytes : List UInt8} {free : Nat}

/-! ## Visits -/

/-- An opening brace that is looked at, and the closing brace and the draft of
the record that is taken there, if one is. -/
structure Visit where
  first : Nat
  taken : Option (Nat × Draft)

/-- The opening braces that are looked at from a place on. The next one is
looked for behind a record that is taken, or else behind the brace. -/
inductive Greedy (bytes : List UInt8) : Nat → List Visit → Prop
  | done {free : Nat} : (∀ n, free ≤ n → bytes[n]? ≠ some 0x7B) → Greedy bytes free []
  | taken {free first last : Nat} {draft : Draft} {visits : List Visit} :
      IsNextOpening bytes free first → IsRecordAt bytes first last draft →
      Greedy bytes (last + 1) visits → Greedy bytes free (⟨first, some (last, draft)⟩ :: visits)
  | passed {free first : Nat} {visits : List Visit} :
      IsNextOpening bytes free first → (∀ last draft, ¬ IsRecordAt bytes first last draft) →
      Greedy bytes (first + 1) visits → Greedy bytes free (⟨first, none⟩ :: visits)

theorem exists_greedy (bytes : List UInt8) (free : Nat) : ∃ visits, Greedy bytes free visits := by
  rcases isNextOpening_or bytes free with ⟨first, hnext⟩ | hno
  · have hreached := hnext.reached
    have hlen := hnext.lt_length
    by_cases h : ∃ last draft, IsRecordAt bytes first last draft
    · obtain ⟨last, draft, hrecord⟩ := h
      have hlast := hrecord.behind
      obtain ⟨visits, hvisits⟩ := exists_greedy bytes (last + 1)
      exact ⟨_, .taken hnext hrecord hvisits⟩
    · obtain ⟨visits, hvisits⟩ := exists_greedy bytes (first + 1)
      exact ⟨_, .passed hnext (fun last draft hrecord => h ⟨last, draft, hrecord⟩) hvisits⟩
  · exact ⟨[], .done hno⟩
termination_by bytes.length - free

namespace Greedy

variable {visits visits' : List Visit}

theorem of_no_opening (h : Greedy bytes free visits)
    (hno : ∀ n, free ≤ n → bytes[n]? ≠ some 0x7B) : visits = [] := by
  cases h with
  | done => rfl
  | taken hnext => exact absurd hnext.opening (hno _ hnext.reached)
  | passed hnext => exact absurd hnext.opening (hno _ hnext.reached)

theorem of_record {first last : Nat} {draft : Draft} (h : Greedy bytes free visits)
    (hnext : IsNextOpening bytes free first) (hrecord : IsRecordAt bytes first last draft) :
    ∃ rest, visits = ⟨first, some (last, draft)⟩ :: rest ∧ Greedy bytes (last + 1) rest := by
  cases h with
  | done hno => exact absurd hnext.opening (hno _ hnext.reached)
  | taken hnext' hrecord' hrest =>
    cases hnext.unique hnext'
    obtain ⟨rfl, rfl⟩ := hrecord.unique hrecord'
    exact ⟨_, rfl, hrest⟩
  | passed hnext' hnone =>
    cases hnext.unique hnext'
    exact absurd hrecord (hnone _ _)

theorem of_no_record {first : Nat} (h : Greedy bytes free visits)
    (hnext : IsNextOpening bytes free first)
    (hnone : ∀ last draft, ¬ IsRecordAt bytes first last draft) :
    ∃ rest, visits = ⟨first, none⟩ :: rest ∧ Greedy bytes (first + 1) rest := by
  cases h with
  | done hno => exact absurd hnext.opening (hno _ hnext.reached)
  | taken hnext' hrecord =>
    cases hnext.unique hnext'
    exact absurd hrecord (hnone _ _)
  | passed hnext' _ hrest =>
    cases hnext.unique hnext'
    exact ⟨_, rfl, hrest⟩

/-- There is one way to look at the braces of a text. -/
theorem unique (h : Greedy bytes free visits) (h' : Greedy bytes free visits') :
    visits = visits' := by
  induction h generalizing visits' with
  | done hno => exact (h'.of_no_opening hno).symm
  | taken hnext hrecord _ ih =>
    obtain ⟨rest, rfl, hrest⟩ := h'.of_record hnext hrecord
    rw [ih hrest]
  | passed hnext hnone _ ih =>
    obtain ⟨rest, rfl, hrest⟩ := h'.of_no_record hnext hnone
    rw [ih hrest]

theorem free_le (h : Greedy bytes free visits) : ∀ v ∈ visits, free ≤ v.first := by
  induction h with
  | done => exact fun v hv => nomatch hv
  | taken hnext hrecord _ ih =>
    intro v hv
    have hreached := hnext.reached
    have hbehind := hrecord.behind
    rcases List.mem_cons.mp hv with rfl | hv
    · exact hreached
    · have := ih v hv
      omega
  | passed hnext _ _ ih =>
    intro v hv
    have hreached := hnext.reached
    rcases List.mem_cons.mp hv with rfl | hv
    · exact hreached
    · have := ih v hv
      omega

/-- Each brace stands behind the one that was looked at before it. -/
theorem increasing (h : Greedy bytes free visits) : visits.Pairwise (·.first < ·.first) := by
  induction h with
  | done => exact .nil
  | taken _ hrecord hrest ih =>
    exact .cons (fun v hv => Nat.lt_trans hrecord.behind (hrest.free_le v hv)) ih
  | passed _ _ hrest ih => exact .cons (fun v hv => hrest.free_le v hv) ih

/-- A record is taken at a brace if one starts there, and it is that record. -/
theorem taken_iff (h : Greedy bytes free visits) :
    ∀ v ∈ visits, ∀ last draft,
      v.taken = some (last, draft) ↔ IsRecordAt bytes v.first last draft := by
  induction h with
  | done => exact fun v hv => nomatch hv
  | taken _ hrecord _ ih =>
    intro v hv last draft
    rcases List.mem_cons.mp hv with rfl | hv
    · constructor
      · intro heq
        cases heq
        exact hrecord
      · intro hrecord'
        obtain ⟨rfl, rfl⟩ := hrecord.unique hrecord'
        rfl
    · exact ih v hv last draft
  | passed _ hnone _ ih =>
    intro v hv last draft
    rcases List.mem_cons.mp hv with rfl | hv
    · constructor
      · exact nofun
      · exact fun hrecord => absurd hrecord (hnone last draft)
    · exact ih v hv last draft

end Greedy

/-! ## Findings and visits -/

/-- The place of the opening brace of a finding. -/
def Finding.first : Finding → Nat
  | .record first _ => first
  | .malformed first _ => first

/-- A closing brace stands behind the opening one. -/
def Visit.isFollowed (bytes : List UInt8) (v : Visit) : Bool :=
  (closings bytes).any (v.first < ·)

/-- The draft of the record that is taken. -/
def Visit.draft? (v : Visit) : Option Draft := v.taken.map (·.2)

theorem isFollowed_iff {v : Visit} :
    v.isFollowed bytes = true ↔ closingsBehind bytes v.first ≠ [] := by
  unfold Visit.isFollowed closingsBehind
  simp

theorem IsRecordAt.closingsBehind_ne_nil {first last : Nat} {draft : Draft}
    (h : IsRecordAt bytes first last draft) : closingsBehind bytes first ≠ [] :=
  List.ne_nil_of_mem (mem_closingsBehind.mpr ⟨h.behind, h.closing⟩)

/-- If no closing brace follows a brace, then none follows a later one. -/
theorem closingsBehind_eq_nil_of_le {first later : Nat} (h : closingsBehind bytes first = [])
    (hle : first ≤ later) : closingsBehind bytes later = [] := by
  refine List.eq_nil_iff_forall_not_mem.mpr fun n hn => ?_
  obtain ⟨hbehind, hclosing⟩ := mem_closingsBehind.mp hn
  have hmem : n ∈ closingsBehind bytes first :=
    mem_closingsBehind.mpr ⟨Nat.lt_of_le_of_lt hle hbehind, hclosing⟩
  rw [h] at hmem
  cases hmem

namespace Greedy

variable {visits : List Visit}

/-- The findings are the visits up to the first brace that none follows. -/
theorem foundFrom_eq (h : Greedy bytes free visits) :
    (foundFrom bytes free).map (fun f => (f.first, f.draft?)) =
      (visits.filter (·.isFollowed bytes)).map (fun v => (v.first, v.draft?)) := by
  induction h with
  | done hno =>
    rw [foundFrom_eq_nil hno]
    rfl
  | @taken free first last draft visits hnext hrecord _ ih =>
    have hfollowed : Visit.isFollowed bytes ⟨first, some (last, draft)⟩ = true :=
      isFollowed_iff.mpr hrecord.closingsBehind_ne_nil
    rw [hnext.foundFrom_eq, settle_taken_iff.mpr hrecord, List.filter_cons_of_pos hfollowed]
    simp only [List.map_cons, ih]
    rfl
  | @passed free first visits hnext hnone hrest ih =>
    rw [hnext.foundFrom_eq]
    cases hsettle : settle bytes first (closingsBehind bytes first) with
    | none =>
      -- Reading ends here, and no brace further on is followed by another.
      have hnil := settle_eq_none.mp hsettle
      have hvisits : (⟨first, none⟩ :: visits : List Visit).filter (·.isFollowed bytes) = [] := by
        refine List.filter_eq_nil_iff.mpr fun v hv => ?_
        have hle : first ≤ v.first := by
          rcases List.mem_cons.mp hv with rfl | hv
          · exact Nat.le_refl first
          · exact Nat.le_of_succ_le (hrest.free_le v hv)
        rw [isFollowed_iff]
        exact fun hne => hne (closingsBehind_eq_nil_of_le hnil hle)
      rw [hvisits]
      rfl
    | some verdict =>
      cases verdict with
      | taken last draft => exact absurd (settle_taken_iff.mp hsettle) (hnone last draft)
      | malformed last fault =>
        have hfollowed : Visit.isFollowed bytes ⟨first, none⟩ = true := by
          refine isFollowed_iff.mpr fun hnil => ?_
          rw [settle_eq_none.mpr hnil] at hsettle
          cases hsettle
        rw [List.filter_cons_of_pos hfollowed]
        simp only [List.map_cons, ih]
        rfl

theorem draft?_eq_none (h : Greedy bytes free visits) :
    ∀ v ∈ visits, v.isFollowed bytes = false → v.draft? = none := by
  intro v hv hfollowed
  cases htaken : v.taken with
  | none => rw [Visit.draft?, htaken]; rfl
  | some record =>
    have hrecord := (h.taken_iff v hv record.1 record.2).mp htaken
    rw [isFollowed_iff.mpr hrecord.closingsBehind_ne_nil] at hfollowed
    cases hfollowed

theorem drafts_eq (h : Greedy bytes 0 visits) : drafts bytes = visits.filterMap Visit.draft? := by
  have hfound : drafts bytes = ((visits.filter (·.isFollowed bytes)).map
      (fun v => (v.first, v.draft?))).filterMap Prod.snd := by
    rw [← h.foundFrom_eq, List.filterMap_map]
    rfl
  rw [hfound, List.filterMap_map, List.filterMap_filter]
  refine List.filterMap_congr fun v hv => ?_
  cases hfollowed : v.isFollowed bytes with
  | true => rfl
  | false => exact (h.draft?_eq_none v hv hfollowed).symm

end Greedy

/-! ## Reading is greedy -/

/-- The loop over the braces of a text moves on with every turn, and what it
finds is what there is to be taken: every text has one list of visits, in which
a record is taken wherever one starts. The loop finds these visits at the
braces that a closing brace follows, and the records are those of the drafts
that are taken. A record ends at one place, and a text with a fault that is no
early end is not completed by a longer one. -/
theorem extraction_is_greedy (bytes : List UInt8) :
    extract bytes = loopFrom bytes 0 ∧
    (∀ c c' : Cursor, (c.turn bytes).2 = some c' → c.Before c' ∧ c'.last < bytes.length) ∧
    (∃ visits, Greedy bytes 0 visits ∧ (∀ others, Greedy bytes 0 others → others = visits) ∧
      (extract bytes).map (fun f => (f.first, f.draft?)) =
        (visits.filter (·.isFollowed bytes)).map (fun v => (v.first, v.draft?)) ∧
      (∀ fs source, (readRecords fs source bytes).plain =
        (visits.filterMap Visit.draft?).filterMap (recordOf fs)) ∧
      (∀ v ∈ visits, ∀ last draft,
        v.taken = some (last, draft) ↔ IsRecordAt bytes v.first last draft) ∧
      visits.Pairwise (·.first < ·.first)) ∧
    (∀ first last last' draft draft', IsRecordAt bytes first last draft →
      IsRecordAt bytes first last' draft' → last = last' ∧ draft = draft') ∧
    (∀ first n last fault draft, first ≤ n → decode (slice bytes first n) = .error fault →
      fault.cause.isEnd = false → n < last → ¬ IsRecordAt bytes first last draft) := by
  obtain ⟨visits, h⟩ := exists_greedy bytes 0
  refine ⟨(loopFrom_eq bytes 0).symm, ?_, ⟨visits, h, fun others h' => h'.unique h,
    h.foundFrom_eq, ?_, h.taken_iff, h.increasing⟩, ?_, ?_⟩
  · intro c c' hturn
    exact Cursor.before_of_turn hturn
  · intro fs source
    rw [readRecords_plain, h.drafts_eq]
  · intro first last last' draft draft' hrecord hrecord'
    exact hrecord.unique hrecord'
  · intro first n last fault draft hfirst hfault hend hlast
    exact not_isRecordAt_of_fault hfirst hfault hend hlast draft

/-- A string with a brace in it, a record that breaks off, and one that is taken
from within it. -/
example : (extract (Utf8.ofText
    "\x7b\"file\":\"\x7d\"\x7d \x7b\"file\": \x7b\"file\":\"a\"\x7d")).map Finding.first =
    [0, 13, 22] := by decide +kernel

end CompileCommands.Database
