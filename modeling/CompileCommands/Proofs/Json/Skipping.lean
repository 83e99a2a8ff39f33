-- Skipped values. A string is skipped as it is read, only without a look at
-- what it says, and a value is skipped in the same way in whatever brackets
-- it stands.
import CompileCommands.Json.Skip

namespace CompileCommands.Json

/-- The place in a skipped string for a place in a string that is read. -/
def TextPlace.shadow : TextPlace → SkippedText
  | .plain | .pair _ => .plain
  | .escape | .pairEscape _ => .escape
  | .digits _ read => .digits read

/-- After a number escape a string goes on as before, unless a second half of
a pair is awaited. -/
theorem TextReader.number_more {t t' : TextReader} {high : Option Nat} {n : Nat}
    (h : t.number high n = .more t') : t'.place.shadow = .plain := by
  unfold TextReader.number at h
  split at h
  · split at h <;> cases h
    rfl
  · split at h
    · cases h
    · split at h <;> cases h <;> rfl

theorem TextReader.number_ne_closed (t : TextReader) (high : Option Nat) (n : Nat)
    (bytes : List UInt8) : t.number high n ≠ .closed bytes := by
  unfold TextReader.number
  split
  · split <;> simp
  · split
    · simp
    · split <;> simp

/-- A byte that is read goes on in the same way when it is skipped. -/
theorem Skip.textStep_of_more {t t' : TextReader} {b : UInt8} (h : t.step b = .more t')
    (frames : List Frame) (isKey : Bool) :
    Skip.textStep frames isKey t.place.shadow b = .more ⟨.text isKey t'.place.shadow, frames⟩ := by
  obtain ⟨place, bytes⟩ := t
  cases place <;> simp only [TextReader.step] at h
  case plain =>
    grind [TextPlace.shadow, TextReader.push, Skip.textStep]
  case escape =>
    grind [TextPlace.shadow, TextReader.push, Skip.textStep]
  case digits high read =>
    grind [TextPlace.shadow, TextReader.number_more, Skip.textStep]
  case pair high =>
    grind [TextPlace.shadow, Skip.textStep]
  case pairEscape high =>
    grind [TextPlace.shadow, Skip.textStep]

/-- The closing quote of a string also closes the skipped string. -/
theorem Skip.textStep_of_closed {t : TextReader} {b : UInt8} {bytes : List UInt8}
    (h : t.step b = .closed bytes) (frames : List Frame) (isKey : Bool) :
    Skip.textStep frames isKey t.place.shadow b =
      if isKey then .more ⟨.colon, frames⟩ else complete frames := by
  obtain ⟨place, bytes⟩ := t
  cases place <;> simp only [TextReader.step] at h
  case plain => grind [TextPlace.shadow, Skip.textStep]
  case digits high read => grind [TextReader.number_ne_closed]
  all_goals grind

/-- A skipped value within more brackets. -/
def Skip.within (s : Skip) (outer : List Frame) : Skip := ⟨s.place, s.frames ++ outer⟩

/-- What a byte does within more brackets. A byte after the value is a byte of
these brackets. -/
def SkipStep.within (outer : List Frame) (b : UInt8) : SkipStep → SkipStep
  | .more s => .more (s.within outer)
  | .ended => .more ⟨.after, outer⟩
  | .endedBefore => Skip.afterStep outer b
  | .fail cause back => .fail cause back

namespace Skip

/-! ## The states of a skipped value -/

/-- The state of a value that is skipped from its first byte on. -/
structure IsSound (s : Skip) : Prop where
  /-- An opened bracket is one of the open brackets. -/
  framed : s.place = .opened → s.frames ≠ []
  /-- The words are `null`, `true` and `false`. -/
  word : ∀ left, s.place = .word left → 0x7B ∉ left

theorem start_isSound {frames : List Frame} {b : UInt8} {s : Skip}
    (h : start frames b = .more s) : s.IsSound := by
  unfold start at h
  constructor
  · grind
  · have hwords : 0x7B ∉ afterN ∧ 0x7B ∉ afterT ∧ 0x7B ∉ afterF := by decide
    grind

theorem complete_isSound {frames : List Frame} {s : Skip} (h : complete frames = .more s) :
    s.IsSound := by
  cases frames <;> cases h
  exact ⟨by rintro ⟨⟩, by rintro left ⟨⟩⟩

theorem inside_isSound {frames : List Frame} {b : UInt8} {s : Skip}
    (h : inside frames b = .more s) : s.IsSound := by
  have hstart := @start_isSound
  have hcomplete := @complete_isSound
  cases frames with
  | nil => cases h
  | cons frame frames => cases frame <;> grind [inside, IsSound]

theorem afterStep_isSound {frames : List Frame} {b : UInt8} {s : Skip}
    (h : afterStep frames b = .more s) : s.IsSound := by
  have hcomplete := @complete_isSound
  unfold afterStep behind at h
  grind [IsSound]

theorem step_isSound {s s' : Skip} {b : UInt8} (h : s.step b = .more s') (hs : s.IsSound) :
    s'.IsSound := by
  have hstart := @start_isSound
  have hcomplete := @complete_isSound
  have hafter := @afterStep_isSound
  have hinside := @inside_isSound
  obtain ⟨place, frames⟩ := s
  cases place <;> simp only [step] at h
  case text isKey t => cases t <;> grind [textStep, IsSound]
  case word left =>
    have hleft := hs.word left rfl
    cases left <;> grind [wordStep, IsSound]
  all_goals grind [numberStep, IsSound]

/-! ## Brackets around a skipped value -/

section Within

variable (frame : Frame) (outer frames : List Frame) (b : UInt8)

theorem complete_within :
    complete (frames ++ frame :: outer) = (complete frames).within (frame :: outer) b := by
  cases frames <;> rfl

theorem start_within :
    start (frames ++ frame :: outer) b = (start frames b).within (frame :: outer) b := by
  unfold start
  simp only [apply_ite (SkipStep.within (frame :: outer) b)]
  cases NumberPlace.ofFirst? b <;> rfl

theorem inside_within (h : frames ≠ []) :
    inside (frames ++ frame :: outer) b = (inside frames b).within (frame :: outer) b := by
  cases frames with
  | nil => exact absurd rfl h
  | cons inner frames =>
    cases inner with
    | list =>
      have hstart := start_within frame outer (.list :: frames) b
      simp only [List.cons_append] at hstart
      simp only [inside, List.cons_append, apply_ite (SkipStep.within (frame :: outer) b),
        hstart, complete_within frame outer frames b]
    | object =>
      simp only [inside, List.cons_append, apply_ite (SkipStep.within (frame :: outer) b),
        complete_within frame outer frames b]
      rfl

theorem behind_within (h : frames ≠ []) :
    behind (frames ++ frame :: outer) b = (behind frames b).within (frame :: outer) b := by
  cases frames with
  | nil => exact absurd rfl h
  | cons inner frames =>
    cases inner <;>
      simp only [behind, List.cons_append, apply_ite (SkipStep.within (frame :: outer) b),
        complete_within frame outer frames b] <;> rfl

theorem afterStep_within :
    afterStep (frames ++ frame :: outer) b = (afterStep frames b).within (frame :: outer) b := by
  cases frames with
  | nil => rfl
  | cons inner frames =>
    have hbehind := behind_within frame outer (inner :: frames) b (by simp)
    simp only [List.cons_append] at hbehind
    simp only [afterStep, List.cons_append, apply_ite (SkipStep.within (frame :: outer) b),
      hbehind]
    rfl

theorem textStep_within (isKey : Bool) (t : SkippedText) :
    textStep (frames ++ frame :: outer) isKey t b =
      (textStep frames isKey t b).within (frame :: outer) b := by
  have hcomplete := complete_within frame outer frames b
  cases t with
  | plain =>
    simp only [textStep, hcomplete, apply_ite (SkipStep.within (frame :: outer) b)]
    rfl
  | escape =>
    simp only [textStep, apply_ite (SkipStep.within (frame :: outer) b)]
    cases TextReader.shortEscape? b <;> rfl
  | digits read =>
    simp only [textStep, apply_ite (SkipStep.within (frame :: outer) b)]
    cases hexNumber? (b :: read).reverse <;> rfl

theorem wordStep_within (left : List UInt8) :
    wordStep (frames ++ frame :: outer) left b =
      (wordStep frames left b).within (frame :: outer) b := by
  cases left with
  | nil => rfl
  | cons c left =>
    simp only [wordStep, complete_within frame outer frames b,
      apply_ite (SkipStep.within (frame :: outer) b)]
    rfl

theorem numberStep_within (place : NumberPlace) :
    numberStep (frames ++ frame :: outer) place b =
      (numberStep frames place b).within (frame :: outer) b := by
  simp only [numberStep, afterStep_within frame outer frames b]
  cases place.step b <;> rfl

/-- A value is skipped in the same way in whatever brackets it stands. -/
theorem step_within (s : Skip) (hs : s.IsSound) :
    (s.within (frame :: outer)).step b = (s.step b).within (frame :: outer) b := by
  obtain ⟨place, frames⟩ := s
  cases place <;> simp only [Skip.within, step]
  case value =>
    split
    · rfl
    · exact start_within frame outer frames b
  case opened =>
    split
    · rfl
    · exact inside_within frame outer frames b (hs.framed rfl)
  case after => exact afterStep_within frame outer frames b
  case key =>
    simp only [apply_ite (SkipStep.within (frame :: outer) b)]
    rfl
  case colon =>
    simp only [apply_ite (SkipStep.within (frame :: outer) b)]
    rfl
  case text isKey t => exact textStep_within frame outer frames b isKey t
  case word left => exact wordStep_within frame outer frames b left
  case number place => exact numberStep_within frame outer frames b place

end Within

end Skip

/-! ## An opening brace -/

theorem foldl_digits_none (digits : List UInt8) :
    digits.foldl (fun n b => do return (← n) * 16 + (← hexDigit? b)) none = none := by
  induction digits with
  | nil => rfl
  | cons b digits ih => exact ih

/-- An opening brace is no hexadecimal digit. -/
theorem hexNumber?_eq_none {digits : List UInt8} (h : 0x7B ∈ digits) :
    hexNumber? digits = none := by
  obtain ⟨front, back, rfl⟩ := List.append_of_mem h
  simp only [hexNumber?, List.foldl_append, List.foldl_cons]
  cases List.foldl _ (some 0) front <;> exact foldl_digits_none back

theorem NumberPlace.step_brace (place next : NumberPlace) : place.step 0x7B ≠ .more next := by
  cases place <;> simp [NumberPlace.step, isDigit, isExponentMark]

/-- An opening brace goes on with a skipped string, or it opens an object. -/
theorem Skip.step_brace {s s' : Skip} (h : s.step 0x7B = .more s') (hs : s.IsSound) :
    (∃ isKey t, s.place = .text isKey t) ∨ ∃ outer, s' = ⟨.opened, .object :: outer⟩ := by
  have hspace : isSpace 0x7B = false := by decide
  have hstart : ∀ frames, start frames 0x7B = .more s' → s' = ⟨.opened, .object :: frames⟩ := by
    intro frames hframes
    cases hframes
    rfl
  have hafter : ∀ frames, afterStep frames 0x7B ≠ .more s' := by
    intro frames
    rcases frames with _ | ⟨_ | _, frames⟩ <;> simp [afterStep, hspace, behind]
  obtain ⟨place, frames⟩ := s
  cases place <;> simp only [step, hspace, Bool.false_eq_true, if_false] at h
  case value => exact .inr ⟨_, hstart _ h⟩
  case opened =>
    rcases frames with _ | ⟨_ | _, frames⟩ <;> simp [inside] at h
    exact .inr ⟨_, hstart _ h⟩
  case after => exact absurd h (hafter _)
  case text isKey t => exact .inl ⟨_, _, rfl⟩
  case word left =>
    have hleft := hs.word left rfl
    cases left with
    | nil => cases h
    | cons c left =>
      have hc : (0x7B : UInt8) ≠ c := by rintro rfl; simp at hleft
      simp [wordStep, hc] at h
  case number place =>
    unfold numberStep at h
    split at h
    · exact absurd ‹_› (NumberPlace.step_brace _ _)
    · cases h
    · exact absurd h (hafter _)
  all_goals simp at h

end CompileCommands.Json
