-- What is told of a text. Each opening brace that is looked at gives a record
-- or one diagnostic that names its place, unless no closing brace follows it:
-- reading ends there, and nothing is told of the rest.
import CompileCommands.Proofs.Database.Greedy

namespace CompileCommands.Database

open Record

variable {fs : FileSystem} {source : Path} {bytes : List UInt8} {free : Nat}

/-! ## Diagnostics that name a place -/

/-- The diagnostic tells that no record starts at a place. -/
def IsMalformedAt (first : Nat) (d : Diagnostic) : Prop :=
  d.code = .malformedRecord ∧ d.message = "skipped a malformed record at byte " ++ toString first

/-- The diagnostic tells that the record at a place names no file. -/
def IsWithoutFileAt (first : Nat) (d : Diagnostic) : Prop :=
  d.code = .recordWithoutFile ∧
    d.message = "skipped the record at byte " ++ toString first ++ ": it has no `file`"

instance (first : Nat) (d : Diagnostic) : Decidable (IsMalformedAt first d) :=
  inferInstanceAs (Decidable (_ ∧ _))

instance (first : Nat) (d : Diagnostic) : Decidable (IsWithoutFileAt first d) :=
  inferInstanceAs (Decidable (_ ∧ _))

theorem toString_inj {m n : Nat} (h : toString m = toString n) : m = n := by
  have hrepr : m.repr = n.repr := h
  rw [Nat.repr_eq_ofList_toDigits, Nat.repr_eq_ofList_toDigits] at hrepr
  have hdigits := congrArg (Nat.ofDigitChars 10 · 0) (String.ofList_injective hrepr)
  simpa [Nat.ofDigitChars_toDigits] using hdigits

theorem isMalformedAt_malformedNote {first n : Nat} {message : String} :
    IsMalformedAt n (malformedNote source first message) ↔ first = n := by
  constructor
  · rintro ⟨-, h⟩
    exact toString_inj ((String.append_right_inj _).mp h)
  · rintro rfl
    exact ⟨rfl, rfl⟩

theorem isWithoutFileAt_withoutFileNote {first n : Nat} :
    IsWithoutFileAt n (withoutFileNote source first) ↔ first = n := by
  constructor
  · rintro ⟨-, h⟩
    exact toString_inj ((String.append_right_inj _).mp ((String.append_left_inj _).mp h))
  · rintro rfl
    exact ⟨rfl, rfl⟩

theorem not_isMalformedAt_withoutFileNote (first n : Nat) :
    ¬ IsMalformedAt n (withoutFileNote source first) := by
  rintro ⟨h, -⟩
  cases h

theorem not_isWithoutFileAt_malformedNote (first n : Nat) (message : String) :
    ¬ IsWithoutFileAt n (malformedNote source first message) := by
  rintro ⟨h, -⟩
  cases h

/-! ## What is told of a finding -/

/-- The diagnostic of a finding, if it has one. -/
def Finding.note? (fs : FileSystem) (source : Path) : Finding → Option Diagnostic
  | .malformed first message => some (malformedNote source first message)
  | .record first draft =>
    if (recordOf fs draft).isNone then some (withoutFileNote source first) else none

theorem diagnostics_eq (fs : FileSystem) (source : Path) (bytes : List UInt8) :
    (readRecords fs source bytes).diagnostics =
      (extract bytes).filterMap (Finding.note? fs source) := by
  unfold readRecords
  simp only [List.filterMap_map]
  congr 1
  funext f
  cases f with
  | malformed first message => rfl
  | record first draft =>
    simp only [Function.comp_apply, Finding.outcome, Finding.note?]
    cases recordOf fs draft <;> rfl

theorem countP_isMalformedAt (fs : FileSystem) (source : Path) (bytes : List UInt8) (n : Nat) :
    (readRecords fs source bytes).diagnostics.countP (IsMalformedAt n) =
      (extract bytes).countP fun f => f.first = n ∧ f.draft? = none := by
  rw [diagnostics_eq, List.countP_filterMap]
  refine List.countP_congr fun f _ => ?_
  cases f with
  | malformed first message =>
    simp [Finding.note?, Finding.first, Finding.draft?, isMalformedAt_malformedNote]
  | record first draft =>
    cases hrecord : recordOf fs draft <;>
      simp [Finding.note?, Finding.draft?, hrecord, not_isMalformedAt_withoutFileNote]

theorem countP_isWithoutFileAt (fs : FileSystem) (source : Path) (bytes : List UInt8) (n : Nat) :
    (readRecords fs source bytes).diagnostics.countP (IsWithoutFileAt n) =
      (extract bytes).countP fun f =>
        f.first = n ∧ f.draft?.any (fun draft => (recordOf fs draft).isNone) = true := by
  rw [diagnostics_eq, List.countP_filterMap]
  refine List.countP_congr fun f _ => ?_
  cases f with
  | malformed first message =>
    simp [Finding.note?, Finding.draft?, not_isWithoutFileAt_malformedNote]
  | record first draft =>
    cases hrecord : recordOf fs draft <;>
      simp [Finding.note?, Finding.first, Finding.draft?, hrecord, isWithoutFileAt_withoutFileNote]

/-- Each diagnostic names the place of the finding that it is about. -/
theorem forall₂_names (fs : FileSystem) (source : Path) (findings : List Finding) :
    List.Forall₂ (fun d n => IsMalformedAt n d ∨ IsWithoutFileAt n d)
      (findings.filterMap (Finding.note? fs source))
      ((findings.filter fun f => (f.note? fs source).isSome).map Finding.first) := by
  induction findings with
  | nil => exact .nil
  | cons f findings ih =>
    cases hnote : f.note? fs source with
    | none =>
      rw [List.filterMap_cons_none hnote, List.filter_cons_of_neg (by simp [hnote])]
      exact ih
    | some d =>
      rw [List.filterMap_cons_some hnote, List.filter_cons_of_pos (by simp [hnote]), List.map_cons]
      refine .cons ?_ ih
      cases f with
      | malformed first message =>
        cases hnote
        exact .inl (isMalformedAt_malformedNote.mpr rfl)
      | record first draft =>
        simp only [Finding.note?] at hnote
        split at hnote <;> cases hnote
        exact .inr (isWithoutFileAt_withoutFileNote.mpr rfl)

/-! ## What is told of a visit -/

/-- The place lies within the record that is taken. -/
def Visit.Covers (v : Visit) (n : Nat) : Prop :=
  ∃ last draft, v.taken = some (last, draft) ∧ v.first ≤ n ∧ n ≤ last

/-- A closing brace stands behind a place. -/
def IsFollowed (bytes : List UInt8) (n : Nat) : Prop := ∃ last, n < last ∧ bytes[last]? = some 0x7D

theorem Visit.isFollowed_eq_true {v : Visit} :
    v.isFollowed bytes = true ↔ IsFollowed bytes v.first := by
  rw [isFollowed_iff]
  constructor
  · intro h
    obtain ⟨last, hlast⟩ := List.exists_mem_of_ne_nil _ h
    exact ⟨last, mem_closingsBehind.mp hlast⟩
  · rintro ⟨last, hlast⟩
    exact List.ne_nil_of_mem (mem_closingsBehind.mpr hlast)

/-- Where the places increase, at most one visit is to a place. -/
theorem countP_visits {visits : List Visit} (h : visits.Pairwise (·.first < ·.first)) {v : Visit}
    (hv : v ∈ visits) {p : Visit → Bool} (hp : ∀ w ∈ visits, p w = true → w.first = v.first) :
    visits.countP p = if p v then 1 else 0 := by
  induction visits with
  | nil => cases hv
  | cons w rest ih =>
    obtain ⟨hw, hrest⟩ := List.pairwise_cons.mp h
    rcases List.mem_cons.mp hv with rfl | hv
    · have hlater : rest.countP p = 0 := by
        refine List.countP_eq_zero.mpr fun u hu hpu => ?_
        have hsame := hp u (List.mem_cons_of_mem _ hu) hpu
        exact Nat.lt_irrefl _ (hsame ▸ hw u hu)
      rw [List.countP_cons, hlater, Nat.zero_add]
    · have hfirst : p w = false := by
        refine Bool.eq_false_iff.mpr fun hpw => ?_
        have hsame := hp w List.mem_cons_self hpw
        exact Nat.lt_irrefl _ (hsame ▸ hw v hv)
      rw [List.countP_cons_of_neg (by simp [hfirst])]
      exact ih hrest hv fun u hu => hp u (List.mem_cons_of_mem _ hu)

namespace Greedy

variable {visits : List Visit}

/-- Each opening brace is within a record that is taken, or is passed over. -/
theorem covered_or_passed (h : Greedy bytes free visits) :
    ∀ n, free ≤ n → bytes[n]? = some 0x7B → (∃ v ∈ visits, v.Covers n) ∨ ⟨n, none⟩ ∈ visits := by
  induction h with
  | done hno => exact fun n hn hopening => absurd hopening (hno n hn)
  | @taken free first last draft visits hnext hrecord _ ih =>
    intro n hn hopening
    have hfirst : first ≤ n := Nat.le_of_not_lt fun hlt => hnext.passed n hn hlt hopening
    by_cases hlast : n ≤ last
    · exact .inl ⟨_, List.mem_cons_self, last, draft, rfl, hfirst, hlast⟩
    · rcases ih n (Nat.lt_of_not_le hlast) hopening with ⟨v, hv, hcovers⟩ | hv
      · exact .inl ⟨v, List.mem_cons_of_mem _ hv, hcovers⟩
      · exact .inr (List.mem_cons_of_mem _ hv)
  | @passed free first visits hnext _ _ ih =>
    intro n hn hopening
    have hfirst : first ≤ n := Nat.le_of_not_lt fun hlt => hnext.passed n hn hlt hopening
    rcases Nat.eq_or_lt_of_le hfirst with rfl | hlt
    · exact .inr List.mem_cons_self
    · rcases ih n hlt hopening with ⟨v, hv, hcovers⟩ | hv
      · exact .inl ⟨v, List.mem_cons_of_mem _ hv, hcovers⟩
      · exact .inr (List.mem_cons_of_mem _ hv)

/-- What is found in a text is found at the visits that a closing brace follows. -/
theorem countP_extract (h : Greedy bytes 0 visits) (p : Nat → Option Draft → Bool) :
    (extract bytes).countP (fun f => p f.first f.draft?) =
      visits.countP fun v => p v.first v.draft? && v.isFollowed bytes := by
  have hpairs := congrArg (List.countP fun pair => p pair.1 pair.2) h.foundFrom_eq
  rw [List.countP_map, List.countP_map, List.countP_filter] at hpairs
  exact hpairs

end Greedy

/-! ## What is told of a text -/

/-- Of a text is told, in the order of their places: each opening brace outside
all records that are taken, if it is one of those in `told`, and each record
that is taken and names no file. The other records are read. -/
structure Accounts (fs : FileSystem) (source : Path) (bytes : List UInt8) (visits : List Visit)
    (told : Nat → Prop) : Prop where
  passed : ∀ n, bytes[n]? = some 0x7B → (∀ v ∈ visits, ¬ v.Covers n) →
    (told n → (readRecords fs source bytes).diagnostics.countP (IsMalformedAt n) = 1) ∧
      (¬ told n → (readRecords fs source bytes).diagnostics.countP (IsMalformedAt n) = 0)
  taken : ∀ v ∈ visits, ∀ last draft, v.taken = some (last, draft) →
    (readRecords fs source bytes).diagnostics.countP (IsWithoutFileAt v.first) =
      if (recordOf fs draft).isSome then 0 else 1
  records : (readRecords fs source bytes).plain =
    (visits.filterMap Visit.draft?).filterMap (recordOf fs)
  increasing : ∃ places : List Nat, places.Pairwise (· < ·) ∧
    List.Forall₂ (fun d n => IsMalformedAt n d ∨ IsWithoutFileAt n d)
      (readRecords fs source bytes).diagnostics places

namespace Greedy

variable {visits : List Visit}

theorem countP_passed (h : Greedy bytes 0 visits) (fs : FileSystem) (source : Path) {n : Nat}
    (hv : ⟨n, none⟩ ∈ visits) :
    (readRecords fs source bytes).diagnostics.countP (IsMalformedAt n) =
      if Visit.isFollowed bytes ⟨n, none⟩ then 1 else 0 := by
  rw [countP_isMalformedAt, h.countP_extract fun first draft? => first = n ∧ draft? = none,
    countP_visits h.increasing hv fun w _ hw =>
      (of_decide_eq_true (Bool.and_eq_true_iff.mp hw).1).1]
  simp [Visit.draft?]

theorem countP_taken (h : Greedy bytes 0 visits) (fs : FileSystem) (source : Path) {v : Visit}
    (hv : v ∈ visits) {last : Nat} {draft : Draft} (htaken : v.taken = some (last, draft)) :
    (readRecords fs source bytes).diagnostics.countP (IsWithoutFileAt v.first) =
      if (recordOf fs draft).isSome then 0 else 1 := by
  have hrecord := (h.taken_iff v hv last draft).mp htaken
  have hfollowed := isFollowed_iff.mpr hrecord.closingsBehind_ne_nil
  rw [countP_isWithoutFileAt, h.countP_extract fun first draft? =>
    first = v.first ∧ draft?.any (fun draft => (recordOf fs draft).isNone) = true,
    countP_visits h.increasing hv fun w _ hw =>
      (of_decide_eq_true (Bool.and_eq_true_iff.mp hw).1).1]
  cases hplain : recordOf fs draft <;> simp [Visit.draft?, htaken, hfollowed, hplain]

theorem findings_increasing (h : Greedy bytes 0 visits) :
    ((extract bytes).map Finding.first).Pairwise (· < ·) := by
  have hfirsts := congrArg (List.map Prod.fst) h.foundFrom_eq
  rw [List.map_map, List.map_map] at hfirsts
  have hvisits : ((visits.filter (·.isFollowed bytes)).map Visit.first).Pairwise (· < ·) :=
    List.pairwise_map.mpr (h.increasing.filter _)
  exact hfirsts ▸ hvisits

/-- All is told but the opening braces that no closing brace follows. -/
theorem accounts (h : Greedy bytes 0 visits) (fs : FileSystem) (source : Path) :
    Accounts fs source bytes visits (IsFollowed bytes) where
  passed n hopening houtside := by
    have hv : ⟨n, none⟩ ∈ visits := by
      rcases h.covered_or_passed n (Nat.zero_le n) hopening with ⟨v, hv, hcovers⟩ | hv
      · exact absurd hcovers (houtside v hv)
      · exact hv
    rw [h.countP_passed fs source hv]
    exact ⟨fun hfollowed => if_pos (Visit.isFollowed_eq_true.mpr hfollowed),
      fun hfollowed => if_neg (mt Visit.isFollowed_eq_true.mp hfollowed)⟩
  taken v hv last draft htaken := h.countP_taken fs source hv htaken
  records := by rw [readRecords_plain, h.drafts_eq]
  increasing := by
    refine ⟨_, ?_, diagnostics_eq fs source bytes ▸ forall₂_names fs source (extract bytes)⟩
    exact List.Pairwise.sublist (List.filter_sublist.map _) h.findings_increasing

end Greedy

/-- Every text has one list of visits. Each record that is taken is read, or told
of where it names no file; each opening brace outside of them is told of once if
a closing brace follows it, and else not at all; and the places of what is told
increase. So nothing is left out exactly if a closing brace follows each opening
brace outside the records. -/
theorem accounts_of_followed (fs : FileSystem) (source : Path) (bytes : List UInt8) :
    ∃ visits, Greedy bytes 0 visits ∧ (∀ others, Greedy bytes 0 others → others = visits) ∧
      Accounts fs source bytes visits (IsFollowed bytes) ∧
      (Accounts fs source bytes visits (fun _ => True) ↔
        ∀ n, bytes[n]? = some 0x7B → (∀ v ∈ visits, ¬ v.Covers n) → IsFollowed bytes n) := by
  obtain ⟨visits, h⟩ := exists_greedy bytes 0
  have haccounts := h.accounts fs source
  refine ⟨visits, h, fun others h' => h'.unique h, haccounts, ?_⟩
  constructor
  · intro hall n hopening houtside
    by_contra hfollowed
    have hone := (hall.passed n hopening houtside).1 trivial
    rw [(haccounts.passed n hopening houtside).2 hfollowed] at hone
    cases hone
  · intro hfollowed
    refine ⟨fun n hopening houtside => ⟨fun _ => ?_, fun h => absurd trivial h⟩, haccounts.taken,
      haccounts.records, haccounts.increasing⟩
    exact (haccounts.passed n hopening houtside).1 (hfollowed n hopening houtside)

/-- A record that breaks off at the end of a text. -/
def brokenOff : List UInt8 := Utf8.ofText "\x7b\"file\":\"a"

/-- A record that breaks off is left out, and nothing is told of it. -/
theorem not_accounts_of_truncated : ¬ ∀ (fs : FileSystem) (source : Path) (bytes : List UInt8)
    (visits : List Visit), Greedy bytes 0 visits →
      Accounts fs source bytes visits (fun _ => True) := by
  intro h
  have hclosing : ∀ last : Nat, brokenOff[last]? ≠ some 0x7D :=
    fun last hlast => absurd (List.mem_of_getElem? hlast) (by decide +kernel)
  have hopening : ∀ n : Nat, 1 ≤ n → brokenOff[n]? ≠ some 0x7B := by
    intro n hn heq
    obtain ⟨k, rfl⟩ : ∃ k, n = k + 1 := ⟨n - 1, by omega⟩
    have hrest : brokenOff.tail[k]? = some 0x7B := by
      rwa [List.getElem?_tail]
    exact absurd (List.mem_of_getElem? hrest) (by decide +kernel)
  have hvisits : Greedy brokenOff 0 [⟨0, none⟩] := by
    refine .passed ⟨Nat.le_refl 0, by decide +kernel, nofun⟩ ?_ (.done hopening)
    exact fun last _ hrecord => hclosing last hrecord.closing
  have houtside : ∀ v ∈ [(⟨0, none⟩ : Visit)], ¬ v.Covers 0 := by
    rintro v hv ⟨last, draft, htaken, -⟩
    rw [List.mem_singleton.mp hv] at htaken
    cases htaken
  have hall := h .empty ⟨"/db"⟩ _ _ hvisits
  have hone := (hall.passed 0 (by decide +kernel) houtside).1 trivial
  have hnone := (hvisits.accounts .empty ⟨"/db"⟩).passed 0 (by decide +kernel) houtside
  rw [hnone.2 fun ⟨last, _, hlast⟩ => hclosing last hlast] at hone
  cases hone

end CompileCommands.Database
