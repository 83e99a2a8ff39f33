-- Finding records piece by piece. What is found from some place on does not
-- depend on the text before that place, so a text can be taken apart at its
-- start: another byte is passed over, a record is found and passed over as a
-- whole, and any other opening brace is passed over alone.
import CompileCommands.Proofs.Database.Braces

namespace CompileCommands.Database

open Record

/-! ## Places of a byte -/

theorem positions_append (b : UInt8) (offset : Nat) (xs ys : List UInt8) :
    positions b offset (xs ++ ys) =
      positions b offset xs ++ positions b (offset + xs.length) ys := by
  induction xs generalizing offset with
  | nil => rfl
  | cons x xs ih =>
    have hlen : offset + (x :: xs).length = offset + 1 + xs.length := by simp; omega
    simp only [List.cons_append, positions, ih, hlen]
    split <;> rfl

theorem positions_add (b : UInt8) (k offset : Nat) (xs : List UInt8) :
    positions b (k + offset) xs = (positions b offset xs).map (k + ·) := by
  induction xs generalizing offset with
  | nil => rfl
  | cons x xs ih =>
    simp only [positions, Nat.add_assoc, ih]
    split <;> rfl

/-! ## What is found from a place on -/

/-- The same verdict on a text that stands further on. -/
def Verdict.shift (k : Nat) : Verdict → Verdict
  | .taken last draft => .taken (k + last) draft
  | .malformed last fault => .malformed (k + last) fault

/-- The same finding in a text that stands further on. -/
def Finding.shift (k : Nat) : Finding → Finding
  | .record first draft => .record (k + first) draft
  | .malformed first message => .malformed (k + first) message

section Shift

variable (front text : List UInt8)

theorem slice_append (first last : Nat) :
    slice (front ++ text) (front.length + first) (front.length + last) = slice text first last := by
  have hlen : front.length + last + 1 - (front.length + first) = last + 1 - first := by omega
  have hdrop : front.drop (front.length + first) = [] := List.drop_eq_nil_of_le (by omega)
  simp [slice, hlen, List.drop_append, hdrop]

theorem settle_append (first : Nat) (ends : List Nat) :
    settle (front ++ text) (front.length + first) (ends.map (front.length + ·)) =
      (settle text first ends).map (Verdict.shift front.length) := by
  induction ends with
  | nil => rfl
  | cons last more ih =>
    simp only [List.map_cons, settle, slice_append, List.isEmpty_map]
    cases Record.decode (slice text first last) with
    | ok draft => rfl
    | error fault =>
      simp only
      split
      · exact ih
      · rfl

theorem closings_append :
    closings (front ++ text) = closings front ++ (closings text).map (front.length + ·) := by
  simp only [closings, positions_append, ← positions_add, Nat.add_zero, Nat.zero_add]

theorem openings_append :
    openings (front ++ text) = openings front ++ (openings text).map (front.length + ·) := by
  simp only [openings, positions_append, ← positions_add, Nat.add_zero, Nat.zero_add]

theorem closings_append_filter (first : Nat) :
    (closings (front ++ text)).filter (front.length + first < ·) =
      ((closings text).filter (first < ·)).map (front.length + ·) := by
  rw [closings_append, List.filter_append, List.filter_map]
  have hfront : (closings front).filter (front.length + first < ·) = [] := by
    simp only [List.filter_eq_nil_iff, decide_eq_true_eq]
    intro n hn
    have := bounds_of_mem_positions hn
    omega
  simp [hfront, Function.comp_def]

theorem extractFrom_append (free : Nat) (places : List Nat) :
    extractFrom (front ++ text) (closings (front ++ text)) (front.length + free)
        (places.map (front.length + ·)) =
      (extractFrom text (closings text) free places).map (Finding.shift front.length) := by
  induction places generalizing free with
  | nil => rfl
  | cons first more ih =>
    simp only [List.map_cons, extractFrom, Nat.add_lt_add_iff_left, closings_append_filter,
      settle_append]
    split
    · exact ih free
    · cases settle text first ((closings text).filter (first < ·)) with
      | none => rfl
      | some verdict =>
        cases verdict with
        | taken last draft =>
          have hlast : front.length + last + 1 = front.length + (last + 1) := by omega
          simp only [Option.map_some, Verdict.shift, hlast, ih, List.map_cons, Finding.shift]
        | malformed last fault =>
          simp only [Option.map_some, Verdict.shift, slice_append, ih, List.map_cons,
            Finding.shift]

end Shift

/-- Braces that are passed over change nothing. -/
theorem extractFrom_passed {bytes : List UInt8} {ends early late : List Nat} {free : Nat}
    (h : ∀ n ∈ early, n < free) :
    extractFrom bytes ends free (early ++ late) = extractFrom bytes ends free late := by
  induction early with
  | nil => rfl
  | cons n early ih =>
    have hn : n < free := h n (by simp)
    simp only [List.cons_append, extractFrom, hn, if_true]
    exact ih (fun m hm => h m (by simp [hm]))

/-- It does not matter how far the text before the first brace was read. -/
theorem extractFrom_free {bytes : List UInt8} {ends places : List Nat} {free : Nat}
    (h : ∀ n ∈ places, free ≤ n) :
    extractFrom bytes ends free places = extractFrom bytes ends 0 places := by
  induction places with
  | nil => rfl
  | cons n places ih =>
    have hn : ¬ n < free := Nat.not_lt.mpr (h n (by simp))
    have hrest := ih (fun m hm => h m (by simp [hm]))
    simp only [extractFrom, hn, if_false, Nat.not_lt_zero, hrest]

/-- From a place on, a text is read as if nothing stood before that place. -/
theorem extractFrom_openings (front text : List UInt8) :
    extractFrom (front ++ text) (closings (front ++ text)) front.length
        (openings (front ++ text)) =
      (extract text).map (Finding.shift front.length) := by
  have hfront : ∀ n ∈ openings front, n < front.length := fun n hn => by
    have := bounds_of_mem_positions hn; omega
  rw [openings_append, extractFrom_passed hfront]
  exact extractFrom_append front text 0 (openings text)

/-! ## The text piece by piece -/

/-- A byte that is no opening brace is passed over. -/
theorem extract_cons {b : UInt8} (hb : b ≠ 0x7B) (text : List UInt8) :
    extract (b :: text) = (extract text).map (Finding.shift 1) := by
  have hopen : ∀ n ∈ openings (b :: text), 1 ≤ n := by
    intro n hn
    simp only [openings, positions, hb, if_false] at hn
    exact (bounds_of_mem_positions hn).1
  exact (extractFrom_free hopen).symm.trans (extractFrom_openings [b] text)

/-- What becomes of a text that starts with an opening brace. -/
theorem extract_brace (rest : List UInt8) :
    extract (0x7B :: rest) =
      match settle (0x7B :: rest) 0 (closings (0x7B :: rest)) with
      | none => []
      | some (.taken last draft) =>
        .record 0 draft ::
          (extract (rest.drop last)).map (Finding.shift (last + 1))
      | some (.malformed last fault) =>
        .malformed 0 (fault.message (slice (0x7B :: rest) 0 last)) ::
          (extract rest).map (Finding.shift 1) := by
  have hends : (closings (0x7B :: rest)).filter (0 < ·) = closings (0x7B :: rest) :=
    closingsBehind_brace rest
  have hopen : openings (0x7B :: rest) = [0] ++ positions 0x7B 1 rest := rfl
  have hpast : ∀ k, extractFrom (0x7B :: rest) (closings (0x7B :: rest)) (k + 1)
      (positions 0x7B 1 rest) = extractFrom (0x7B :: rest) (closings (0x7B :: rest)) (k + 1)
      (openings (0x7B :: rest)) := fun k => by
    rw [hopen, extractFrom_passed (by simp)]
  have hfirst : extract (0x7B :: rest) = extractFrom (0x7B :: rest) (closings (0x7B :: rest)) 0
      (0 :: positions 0x7B 1 rest) := rfl
  rw [hfirst]
  simp only [extractFrom, Nat.not_lt_zero, if_false, hends]
  cases hsettle : settle (0x7B :: rest) 0 (closings (0x7B :: rest)) with
  | none => rfl
  | some verdict =>
    cases verdict with
    | taken last draft =>
      have hlast := bounds_of_mem_positions (settle_taken hsettle).1
      have hsplit := extractFrom_openings ((0x7B :: rest).take (last + 1)) (rest.drop last)
      have hlen : ((0x7B :: rest).take (last + 1)).length = last + 1 := by
        simp only [List.length_take]; omega
      have htext : (0x7B :: rest).take (last + 1) ++ rest.drop last = 0x7B :: rest := by
        simp [List.take_append_drop]
      rw [htext, hlen] at hsplit
      simp only [hpast last, hsplit]
    | malformed last fault =>
      have hfree : extractFrom (0x7B :: rest) (closings (0x7B :: rest)) 1 (positions 0x7B 1 rest) =
          extractFrom (0x7B :: rest) (closings (0x7B :: rest)) 0 (positions 0x7B 1 rest) :=
        extractFrom_free (fun n hn => (bounds_of_mem_positions hn).1)
      simp only [← hfree, hpast 0]
      exact congrArg _ (extractFrom_openings [0x7B] rest)

/-! ## Records in a text -/

/-- The draft of a finding that is a record. -/
def Finding.draft? : Finding → Option Draft
  | .record _ draft => some draft
  | .malformed _ _ => none

/-- The drafts of the records in a text. -/
def drafts (bytes : List UInt8) : List Draft := (extract bytes).filterMap Finding.draft?

/-- What is found in a text, be it a record or not. -/
def readings (bytes : List UInt8) : List (Option Draft) := (extract bytes).map Finding.draft?

theorem drafts_eq_readings (bytes : List UInt8) : drafts bytes = (readings bytes).filterMap id := by
  simp [drafts, readings, List.filterMap_map]

theorem draft?_shift (k : Nat) (f : Finding) : (f.shift k).draft? = f.draft? := by
  cases f <;> rfl

theorem map_shift (k : Nat) (fs : List Finding) :
    (fs.map (Finding.shift k)).map Finding.draft? = fs.map Finding.draft? := by
  simp [Function.comp_def, draft?_shift]

theorem readings_cons {b : UInt8} (hb : b ≠ 0x7B) (text : List UInt8) :
    readings (b :: text) = readings text := by
  rw [readings, extract_cons hb, map_shift, readings]

theorem drafts_cons {b : UInt8} (hb : b ≠ 0x7B) (text : List UInt8) :
    drafts (b :: text) = drafts text := by
  rw [drafts_eq_readings, readings_cons hb, drafts_eq_readings]

theorem readings_gap {gap : List UInt8} (hgap : 0x7B ∉ gap) (text : List UInt8) :
    readings (gap ++ text) = readings text := by
  induction gap with
  | nil => rfl
  | cons b gap ih =>
    simp only [List.mem_cons, not_or] at hgap
    rw [List.cons_append, readings_cons (Ne.symm hgap.1), ih hgap.2]

theorem drafts_gap {gap : List UInt8} (hgap : 0x7B ∉ gap) (text : List UInt8) :
    drafts (gap ++ text) = drafts text := by
  rw [drafts_eq_readings, readings_gap hgap, drafts_eq_readings]

/-- A record that is cut off anywhere ends too early, so it is read up to its
closing brace. -/
theorem settle_record {body : List UInt8} {d : Draft} (h : Reader.start.Closes body d)
    (rest : List UInt8) :
    settle (0x7B :: body ++ rest) 0 (closings (0x7B :: body ++ rest)) =
      some (.taken body.length d) := by
  have hrecord : IsRecordAt (0x7B :: body ++ rest) 0 body.length d := by
    obtain ⟨front, rfl⟩ := h.ends_in_brace
    have hslice : slice (0x7B :: (front ++ [0x7D]) ++ rest) 0 (front ++ [0x7D]).length =
        0x7B :: (front ++ [0x7D]) := by
      simp only [slice, Nat.sub_zero, List.drop_zero, List.cons_append, List.take_succ_cons]
      rw [List.take_left]
    refine ⟨by simp, by simp, ?_⟩
    rw [hslice]
    exact decode_ok_iff.mpr ⟨_, [], by simp, h, by simp⟩
  rw [List.cons_append, ← closingsBehind_brace]
  exact settle_taken_iff.mpr hrecord

/-- A record is found where it starts, and reading goes on after it. -/
theorem readings_record {body : List UInt8} {d : Draft} (h : Reader.start.Closes body d)
    (rest : List UInt8) : readings (0x7B :: body ++ rest) = some d :: readings rest := by
  have hsettle := settle_record h rest
  rw [List.cons_append] at hsettle ⊢
  simp only [readings, extract_brace, hsettle, List.map_cons, Finding.draft?, map_shift,
    List.drop_left]

theorem drafts_record {body : List UInt8} {d : Draft} (h : Reader.start.Closes body d)
    (rest : List UInt8) : drafts (0x7B :: body ++ rest) = d :: drafts rest := by
  rw [drafts_eq_readings, readings_record h, drafts_eq_readings]
  rfl

theorem readings_eq_nil {text : List UInt8} (h : 0x7D ∉ text) : readings text = [] := by
  induction text with
  | nil => rfl
  | cons b text ih =>
    have hrest := ih (fun hmem => h (List.mem_cons_of_mem b hmem))
    by_cases hb : b = 0x7B
    · subst hb
      rw [readings, extract_brace, closings, positions_eq_nil_iff.mpr h]
      rfl
    · rw [readings_cons hb, hrest]

theorem drafts_eq_nil {text : List UInt8} (h : 0x7D ∉ text) : drafts text = [] := by
  rw [drafts_eq_readings, readings_eq_nil h, List.filterMap_nil]

/-- Where no record starts, the brace is passed over. -/
theorem drafts_brace {rest : List UInt8}
    (h : ∀ front back, 0x7B :: rest = front ++ back → ∀ d, decode front ≠ .ok d) :
    drafts (0x7B :: rest) = drafts rest := by
  cases hsettle : settle (0x7B :: rest) 0 (closings (0x7B :: rest)) with
  | none =>
    have hno : 0x7D ∉ 0x7B :: rest := positions_eq_nil_iff.mp (settle_eq_none.mp hsettle)
    rw [drafts_eq_nil hno, drafts_eq_nil (fun hmem => hno (List.mem_cons_of_mem _ hmem))]
  | some verdict =>
    cases verdict with
    | taken last draft =>
      have hdecode := (settle_taken hsettle).2
      exact absurd hdecode (h _ ((0x7B :: rest).drop (last + 1)) (by simp [slice]) draft)
    | malformed last fault =>
      have hreadings : readings (0x7B :: rest) = none :: readings rest := by
        simp only [readings, extract_brace, hsettle, List.map_cons, Finding.draft?, map_shift]
      rw [drafts_eq_readings, hreadings, drafts_eq_readings]
      rfl

end CompileCommands.Database
