-- The loop over the braces of a text. It stands at an opening brace and at a
-- closing brace behind it. The closing brace moves on while the text between
-- them ends too early, and falls back with the next opening brace.
import CompileCommands.Proofs.Database.Extraction
import Mathlib.Data.Nat.Find

namespace CompileCommands.Database

open Record

variable {bytes : List UInt8} {free first last : Nat}

/-! ## The next opening brace -/

/-- The first opening brace from a place on. -/
structure IsNextOpening (bytes : List UInt8) (free first : Nat) : Prop where
  reached : free ≤ first
  opening : bytes[first]? = some 0x7B
  passed : ∀ n, free ≤ n → n < first → bytes[n]? ≠ some 0x7B

theorem isNextOpening_or (bytes : List UInt8) (free : Nat) :
    (∃ first, IsNextOpening bytes free first) ∨ ∀ n, free ≤ n → bytes[n]? ≠ some 0x7B := by
  by_cases h : ∃ n, free ≤ n ∧ bytes[n]? = some 0x7B
  · left
    obtain ⟨hfree, hopening⟩ := Nat.find_spec h
    exact ⟨Nat.find h, hfree, hopening, fun n hn hlt heq => Nat.find_min h hlt ⟨hn, heq⟩⟩
  · right
    exact fun n hn heq => h ⟨n, hn, heq⟩

namespace IsNextOpening

theorem lt_length (h : IsNextOpening bytes free first) : first < bytes.length := by
  obtain ⟨hlen, -⟩ := List.getElem?_eq_some_iff.mp h.opening
  exact hlen

theorem unique {first' : Nat} (h : IsNextOpening bytes free first)
    (h' : IsNextOpening bytes free first') : first = first' := by
  rcases Nat.lt_trichotomy first first' with hlt | heq | hlt
  · exact absurd h.opening (h'.passed first h.reached hlt)
  · exact heq
  · exact absurd h'.opening (h.passed first' h'.reached hlt)

theorem openings_eq (h : IsNextOpening bytes free first) :
    ∃ early more, openings bytes = early ++ first :: more ∧ (∀ n ∈ early, n < free) ∧
      ∀ n ∈ more, first < n := by
  obtain ⟨early, more, hopen⟩ := List.append_of_mem (mem_openings.mpr h.opening)
  have hsorted : (openings bytes).Pairwise (· < ·) := positions_pairwise 0x7B 0 bytes
  rw [hopen, List.pairwise_append] at hsorted
  obtain ⟨-, hmore, hearly⟩ := hsorted
  refine ⟨early, more, hopen, fun n hn => ?_, (List.pairwise_cons.mp hmore).1⟩
  have hopening : bytes[n]? = some 0x7B := mem_openings.mp (by rw [hopen]; simp [hn])
  exact Nat.lt_of_not_le fun hfree => h.passed n hfree (hearly n hn first (by simp)) hopening

end IsNextOpening

/-! ## What is found from a place on -/

/-- The findings at the opening braces from a place on. -/
def foundFrom (bytes : List UInt8) (free : Nat) : List Finding :=
  extractFrom bytes (closings bytes) free (openings bytes)

theorem foundFrom_eq_nil (h : ∀ n, free ≤ n → bytes[n]? ≠ some 0x7B) :
    foundFrom bytes free = [] := by
  have hpassed : ∀ n ∈ openings bytes, n < free := fun n hn =>
    Nat.lt_of_not_le fun hfree => h n hfree (mem_openings.mp hn)
  have hnil : extractFrom bytes (closings bytes) free (openings bytes ++ []) = [] :=
    extractFrom_passed hpassed
  rw [List.append_nil] at hnil
  exact hnil

/-- The next opening brace is settled, and the findings go on behind its
record, or else behind the brace. -/
theorem IsNextOpening.foundFrom_eq (h : IsNextOpening bytes free first) :
    foundFrom bytes free =
      match settle bytes first (closingsBehind bytes first) with
      | none => []
      | some (.taken last draft) => .record first draft :: foundFrom bytes (last + 1)
      | some (.malformed last fault) =>
        .malformed first (fault.message (slice bytes first last)) ::
          foundFrom bytes (first + 1) := by
  obtain ⟨early, more, hopen, hearly, hmore⟩ := h.openings_eq
  have hreached := h.reached
  have hfirst : foundFrom bytes free =
      extractFrom bytes (closings bytes) free (first :: more) := by
    rw [foundFrom, hopen, extractFrom_passed hearly]
  -- From behind the brace on, only the later braces count.
  have hbehind : ∀ k, first < k → foundFrom bytes k =
      extractFrom bytes (closings bytes) k more := by
    intro k hk
    have hpassed : ∀ n ∈ early ++ [first], n < k := by
      intro n hn
      rcases List.mem_append.mp hn with hn | hn
      · have := hearly n hn
        omega
      · cases List.mem_singleton.mp hn
        exact hk
    rw [foundFrom, hopen, List.append_cons, extractFrom_passed hpassed]
  have hrest : extractFrom bytes (closings bytes) free more = foundFrom bytes (first + 1) := by
    rw [hbehind (first + 1) (Nat.lt_succ_self first),
      extractFrom_free (fun n hn => Nat.le_trans hreached (Nat.le_of_lt (hmore n hn))),
      extractFrom_free (fun n hn => hmore n hn)]
  rw [hfirst, extractFrom, if_neg (Nat.not_lt.mpr hreached), ← closingsBehind]
  cases hsettle : settle bytes first (closingsBehind bytes first) with
  | none => rfl
  | some verdict =>
    cases verdict with
    | taken last draft =>
      have hlast := (settle_taken_iff.mp hsettle).behind
      simp only [hbehind (last + 1) (Nat.lt_succ_of_lt hlast)]
    | malformed last fault => simp only [hrest]

/-! ## The next place of a byte -/

/-- The first place of a byte from some place on. -/
def place? (b : UInt8) (bytes : List UInt8) (free : Nat) : Option Nat :=
  (positions b 0 bytes).find? (free ≤ ·)

theorem bounds_of_place? {b : UInt8} {n : Nat} (h : place? b bytes free = some n) :
    free ≤ n ∧ n < bytes.length := by
  have hbounds := bounds_of_mem_positions (List.mem_of_find?_eq_some h)
  rw [Nat.zero_add] at hbounds
  exact ⟨by simpa using List.find?_some (p := (free ≤ ·)) h, hbounds.2⟩

theorem place?_closing (bytes : List UInt8) (n : Nat) :
    place? 0x7D bytes (n + 1) = (closingsBehind bytes n).head? := by
  rw [closingsBehind, List.head?_filter]
  rfl

theorem IsNextOpening.place?_eq (h : IsNextOpening bytes free first) :
    place? 0x7B bytes free = some first := by
  obtain ⟨early, more, hopen, hearly, -⟩ := h.openings_eq
  refine List.find?_eq_some_iff_append.mpr ⟨decide_eq_true h.reached, early, more, hopen, ?_⟩
  intro n hn
  simpa using hearly n hn

theorem place?_eq_none (h : ∀ n, free ≤ n → bytes[n]? ≠ some 0x7B) :
    place? 0x7B bytes free = none := by
  refine List.find?_eq_none.mpr fun n hn hfree => ?_
  exact h n (of_decide_eq_true hfree) (mem_openings.mp hn)

/-! ## The loop -/

/-- An opening brace, and a closing brace up to which the text is tried. -/
structure Cursor where
  first : Nat
  last : Nat
  inFront : first < last

namespace Cursor

/-- An opening brace and the first closing brace from a place on. -/
def closing? (bytes : List UInt8) (first free : Nat) (h : first < free) : Option Cursor :=
  match hplace : place? 0x7D bytes free with
  | none => none
  | some last => some ⟨first, last, Nat.lt_of_lt_of_le h (bounds_of_place? hplace).1⟩

/-- The same opening brace and the next closing brace. -/
def extend (bytes : List UInt8) (c : Cursor) : Option Cursor :=
  closing? bytes c.first (c.last + 1) (Nat.lt_succ_of_lt c.inFront)

end Cursor

/-- The first opening brace from a place on and the first closing brace behind it. -/
def aim (bytes : List UInt8) (free : Nat) : Option Cursor :=
  (place? 0x7B bytes free).bind fun first =>
    Cursor.closing? bytes first (first + 1) (Nat.lt_succ_self first)

namespace Cursor

/-- One turn of the loop: what is found at the opening brace, unless a longer
text is to be tried, and where the loop goes on. -/
def turn (bytes : List UInt8) (c : Cursor) : Option Finding × Option Cursor :=
  match decode (slice bytes c.first c.last) with
  | .ok draft => (some (.record c.first draft), aim bytes (c.last + 1))
  | .error fault =>
    match fault.cause.isEnd, c.extend bytes with
    | true, some longer => (none, some longer)
    | _, _ =>
      (some (.malformed c.first (fault.message (slice bytes c.first c.last))),
        aim bytes (c.first + 1))

/-- The opening brace of the one stands before that of the other, or it is the
same and the closing brace stands before. -/
def Before (c c' : Cursor) : Prop :=
  c.first < c'.first ∨ c.first = c'.first ∧ c.last < c'.last

theorem bounds_of_closing? {h : first < free} {c : Cursor}
    (hc : closing? bytes first free h = some c) :
    c.first = first ∧ free ≤ c.last ∧ c.last < bytes.length := by
  unfold closing? at hc
  split at hc
  · cases hc
  · rename_i last hplace
    cases hc
    exact ⟨rfl, bounds_of_place? hplace⟩

theorem bounds_of_aim {c : Cursor} (h : aim bytes free = some c) :
    free ≤ c.first ∧ c.last < bytes.length := by
  obtain ⟨first, hplace, hc⟩ := Option.bind_eq_some_iff.mp h
  obtain ⟨rfl, -, hlen⟩ := bounds_of_closing? hc
  exact ⟨(bounds_of_place? hplace).1, hlen⟩

/-- The loop moves on with every turn, and never behind the end of the text. -/
theorem before_of_turn {c c' : Cursor} (h : (c.turn bytes).2 = some c') :
    c.Before c' ∧ c'.last < bytes.length := by
  have hfront := c.inFront
  unfold turn at h
  split at h
  · obtain ⟨hfree, hlen⟩ := bounds_of_aim h
    exact ⟨.inl (by omega), hlen⟩
  · split at h
    · rename_i longer _ hextend
      cases h
      obtain ⟨hfirst, hlast, hlen⟩ := bounds_of_closing? hextend
      exact ⟨.inr ⟨hfirst.symm, hlast⟩, hlen⟩
    · obtain ⟨hfree, hlen⟩ := bounds_of_aim h
      exact ⟨.inl hfree, hlen⟩

/-- What the loop finds from a cursor on. -/
def run (bytes : List UInt8) (c : Cursor) : List Finding :=
  (c.turn bytes).1.toList ++
    match h : (c.turn bytes).2 with
    | none => []
    | some c' =>
      have := before_of_turn h
      c'.run bytes
termination_by (bytes.length - c.first, bytes.length - c.last)
decreasing_by
  obtain ⟨hbefore, hlen⟩ := this
  have hfront := c'.inFront
  rcases hbefore with hfirst | ⟨hfirst, hlast⟩
  · exact Prod.Lex.left _ _ (by omega)
  · rw [hfirst]
    exact Prod.Lex.right _ (by omega)

end Cursor

/-- What the loop finds from a place on. -/
def loopFrom (bytes : List UInt8) (free : Nat) : List Finding :=
  (aim bytes free).elim [] (Cursor.run bytes)

/-! ## Where the loop goes -/

theorem aim_eq_none (h : ∀ n, free ≤ n → bytes[n]? ≠ some 0x7B) : aim bytes free = none := by
  rw [aim, place?_eq_none h]
  rfl

theorem IsNextOpening.aim_eq (h : IsNextOpening bytes free first) :
    aim bytes free = Cursor.closing? bytes first (first + 1) (Nat.lt_succ_self first) := by
  rw [aim, h.place?_eq]
  rfl

namespace Cursor

variable {n : Nat} {h : first < n + 1}

theorem closing?_eq_none (hends : closingsBehind bytes n = []) :
    closing? bytes first (n + 1) h = none := by
  have hplace : place? 0x7D bytes (n + 1) = none := by
    rw [place?_closing, hends]
    rfl
  unfold closing?
  split
  · rfl
  · rename_i last hlast
    cases hlast.symm.trans hplace

theorem closing?_eq_some {more : List Nat} (hends : closingsBehind bytes n = last :: more) :
    ∃ hfront, closing? bytes first (n + 1) h = some ⟨first, last, hfront⟩ := by
  have hplace : place? 0x7D bytes (n + 1) = some last := by
    rw [place?_closing, hends]
    rfl
  refine ⟨Nat.lt_of_lt_of_le h (bounds_of_place? hplace).1, ?_⟩
  unfold closing?
  split
  · rename_i hnone
    cases hnone.symm.trans hplace
  · rename_i last' hlast
    cases hlast.symm.trans hplace
    rfl

variable {c : Cursor}

theorem run_of_turn {finding : Option Finding} {next : Option Cursor}
    (h : c.turn bytes = (finding, next)) :
    c.run bytes = finding.toList ++ next.elim [] (run bytes) := by
  have hfinding : (c.turn bytes).1 = finding := by rw [h]
  have hnext : (c.turn bytes).2 = next := by rw [h]
  rw [run, hfinding]
  congr 1
  split
  · rename_i hnone
    obtain rfl : next = none := hnext.symm.trans hnone
    rfl
  · rename_i c' hsome
    obtain rfl : next = some c' := hnext.symm.trans hsome
    rfl

theorem run_of_ok {draft : Draft} (h : decode (slice bytes c.first c.last) = .ok draft) :
    c.run bytes = .record c.first draft :: loopFrom bytes (c.last + 1) := by
  have hturn : c.turn bytes = (some (.record c.first draft), aim bytes (c.last + 1)) := by
    simp only [turn, h]
  exact run_of_turn hturn

theorem run_of_early {longer : Cursor} {fault : Json.Fault}
    (h : decode (slice bytes c.first c.last) = .error fault) (hend : fault.cause.isEnd = true)
    (hextend : c.extend bytes = some longer) : c.run bytes = longer.run bytes := by
  have hturn : c.turn bytes = (none, some longer) := by simp only [turn, h, hend, hextend]
  exact run_of_turn hturn

theorem run_of_fault {fault : Json.Fault}
    (h : decode (slice bytes c.first c.last) = .error fault)
    (hend : fault.cause.isEnd = false ∨ c.extend bytes = none) :
    c.run bytes = .malformed c.first (fault.message (slice bytes c.first c.last)) ::
      loopFrom bytes (c.first + 1) := by
  have hturn : c.turn bytes =
      (some (.malformed c.first (fault.message (slice bytes c.first c.last))),
        aim bytes (c.first + 1)) := by
    rcases hend with hend | hextend
    · simp only [turn, h, hend]
    · cases hend : fault.cause.isEnd <;> simp only [turn, h, hend, hextend]
  exact run_of_turn hturn

/-- The loop tries the closing braces in turn, and goes on behind the record,
or else behind the opening brace. -/
theorem run_settle {more : List Nat} (h : closingsBehind bytes c.last = more) :
    c.run bytes =
      match settle bytes c.first (c.last :: more) with
      | none => []
      | some (.taken last draft) => .record c.first draft :: loopFrom bytes (last + 1)
      | some (.malformed last fault) =>
        .malformed c.first (fault.message (slice bytes c.first last)) ::
          loopFrom bytes (c.first + 1) := by
  induction more generalizing c with
  | nil =>
    cases hdecode : decode (slice bytes c.first c.last) with
    | ok draft => simp only [run_of_ok hdecode, settle, hdecode]
    | error fault =>
      rw [run_of_fault hdecode (.inr (closing?_eq_none h))]
      simp [settle, hdecode]
  | cons next more ih =>
    obtain ⟨hfront, hextend⟩ : ∃ hfront, c.extend bytes = some ⟨c.first, next, hfront⟩ :=
      closing?_eq_some h
    cases hdecode : decode (slice bytes c.first c.last) with
    | ok draft => simp only [run_of_ok hdecode, settle, hdecode]
    | error fault =>
      cases hend : fault.cause.isEnd with
      | false =>
        rw [run_of_fault hdecode (.inl hend)]
        simp [settle, hdecode, hend]
      | true =>
        have hlonger := ih (c := ⟨c.first, next, hfront⟩) (closingsBehind_tail h)
        rw [run_of_early hdecode hend hextend, hlonger]
        simp [settle, hdecode, hend]

end Cursor

/-- The loop finds what is found when each opening brace is settled. -/
theorem loopFrom_eq (bytes : List UInt8) (free : Nat) :
    loopFrom bytes free = foundFrom bytes free := by
  rcases isNextOpening_or bytes free with ⟨first, hnext⟩ | hno
  · have hreached := hnext.reached
    have hlen := hnext.lt_length
    rw [hnext.foundFrom_eq]
    cases hends : closingsBehind bytes first with
    | nil =>
      rw [loopFrom, hnext.aim_eq, Cursor.closing?_eq_none hends]
      rfl
    | cons last more =>
      obtain ⟨hfront, hclosing⟩ := Cursor.closing?_eq_some (h := Nat.lt_succ_self first) hends
      have hrun := Cursor.run_settle (c := ⟨first, last, hfront⟩) (closingsBehind_tail hends)
      rw [loopFrom, hnext.aim_eq, hclosing, Option.elim_some, hrun, ← hends]
      cases hsettle : settle bytes first (closingsBehind bytes first) with
      | none => rfl
      | some verdict =>
        cases verdict with
        | taken last draft =>
          have hlast := (settle_taken_iff.mp hsettle).behind
          simp only [loopFrom_eq bytes (last + 1)]
        | malformed last fault => simp only [loopFrom_eq bytes (first + 1)]
  · rw [loopFrom, aim_eq_none hno, foundFrom_eq_nil hno]
    rfl
termination_by bytes.length - free

end CompileCommands.Database
