-- What a text does to the reader of a record. The reader goes from state to
-- state until the closing brace of the record, and nothing but that brace
-- ends it. So a text that is cut off before ends too early and has no other
-- fault, unless it was lost already.
import CompileCommands.Record.Reader
import Mathlib.Data.List.TakeWhile

namespace CompileCommands.Record.Reader

open Json

/-- A state from which no text completes a record. -/
def isLost : Place → Bool
  | .repeated _ | .wrongWord _ _ _ | .wrongNumber _ _ _ | .wrongText _ _ => true
  | _ => false

@[simp] theorem goto_ne_done (r : Reader) (p : Place) (d : Draft) : r.goto p ≠ .done d := nofun

@[simp] theorem close_ne_done (draft d : Draft) : close draft ≠ .done d := nofun

theorem textStep_done {t : TextReader} {b : UInt8} {more : TextReader → Step}
    {closed : String → Step} {d : Draft} (h : textStep t b more closed = .done d) :
    (∃ t, more t = .done d) ∨ ∃ s, closed s = .done d := by
  unfold textStep at h
  split at h
  · exact .inl ⟨_, h⟩
  · cases h
  · split at h
    · exact .inr ⟨_, h⟩
    · cases h

theorem keyRead_ne_done (r : Reader) (key : String) (d : Draft) : r.keyRead key ≠ .done d := by
  unfold keyRead
  split
  · simp
  · split <;> simp

theorem wrongStart_ne_done (r : Reader) (wanted : Wanted) (b : UInt8) (d : Draft) :
    r.wrongStart wanted b ≠ .done d := by
  unfold wrongStart
  grind [goto]

theorem valueStart_ne_done (r : Reader) (field : Field) (b : UInt8) (d : Draft) :
    r.valueStart field b ≠ .done d := by
  have hwrong := wrongStart_ne_done r
  cases field <;> grind [valueStart, goto]

theorem itemStart_ne_done (r : Reader) (items : List String) (b : UInt8) (d : Draft) :
    r.itemStart items b ≠ .done d := by
  have hwrong := wrongStart_ne_done r
  grind [itemStart, goto]

theorem wordStep_done {left : List UInt8} {b : UInt8} {more : List UInt8 → Step}
    {complete : Step} {d : Draft} (h : wordStep left b more complete = .done d) :
    (∃ left, more left = .done d) ∨ complete = .done d := by
  unfold wordStep at h
  grind

theorem memberEnd_done {r : Reader} {b : UInt8} {d : Draft} (h : r.memberEnd b = .done d) :
    b = 0x7D := by
  unfold memberEnd at h
  grind [goto]

/-- Only a closing brace ends a record, and only where a member may end. -/
theorem step_done {r : Reader} {b : UInt8} {d : Draft} (h : r.step b = .done d) :
    b = 0x7D ∧ (r.place = .firstKey ∨ r.place = .afterMember ∨
      ∃ s, r.place = .skipped s ∧ s.step b = .endedBefore) := by
  have hkey := keyRead_ne_done r
  have hvalue := valueStart_ne_done r
  have hitem := itemStart_ne_done r
  have hend := @memberEnd_done r b d
  obtain ⟨place, draft⟩ := r
  cases place <;>
    simp only [step, isLoose, looseStep, tightStep, if_true, Bool.false_eq_true, if_false] at h
  all_goals grind [textStep_done, wordStep_done, goto_ne_done, close_ne_done, skipStep,
    afterMemberStep, wrongNumberRead]

theorem isLost_of_step_done {r : Reader} {b : UInt8} {d : Draft} (h : r.step b = .done d) :
    isLost r.place = false := by
  obtain ⟨-, h | h | ⟨s, h, -⟩⟩ := step_done h <;> rw [h] <;> rfl

theorem textStep_more {t : TextReader} {b : UInt8} {more : TextReader → Step}
    {closed : String → Step} {r : Reader} (h : textStep t b more closed = .more r) :
    (∃ t', t.step b = .more t' ∧ more t' = .more r) ∨
      ∃ bytes s, t.step b = .closed bytes ∧ closed s = .more r := by
  unfold textStep at h
  split at h
  · exact .inl ⟨_, ‹_›, h⟩
  · cases h
  · split at h
    · exact .inr ⟨_, _, ‹_›, h⟩
    · cases h

theorem wordStep_more {left : List UInt8} {b : UInt8} {more : List UInt8 → Step}
    {complete : Step} {r : Reader} (h : wordStep left b more complete = .more r) :
    (∃ c rest, left = b :: c :: rest ∧ more (c :: rest) = .more r) ∨
      left = [b] ∧ complete = .more r := by
  unfold wordStep at h
  split at h
  · cases h
  · rename_i c rest
    split at h
    · cases h
    · obtain rfl : b = c := Decidable.not_not.mp ‹_›
      cases rest with
      | nil => exact .inr ⟨rfl, by simpa using h⟩
      | cons c rest => exact .inl ⟨c, rest, rfl, by simpa using h⟩

/-- A text that is no record so far stays none. -/
theorem step_isLost {r r' : Reader} {b : UInt8} (h : r.step b = .more r')
    (hlost : isLost r.place = true) : isLost r'.place = true := by
  obtain ⟨place, draft⟩ := r
  cases place <;> simp only [isLost, Bool.false_eq_true] at hlost <;>
    simp only [step, isLoose, looseStep, tightStep, if_true, Bool.false_eq_true, if_false] at h
  case repeated field =>
    split at h
    · cases h; rfl
    · cases h
  case wrongWord found left wanted =>
    obtain ⟨c, rest, -, h⟩ | ⟨-, h⟩ := wordStep_more h <;> cases h
    rfl
  case wrongNumber place read wanted =>
    grind [goto, wrongNumberRead, isLost]
  case wrongText t wanted =>
    obtain ⟨t', -, h⟩ | ⟨bytes, s, -, h⟩ := textStep_more h <;> cases h
    rfl

/-- What a list of bytes does to a record, up to the byte that ends it. -/
def feed (r : Reader) : List UInt8 → Step
  | [] => .more r
  | b :: rest =>
    match r.step b with
    | .more r => r.feed rest
    | .done draft => .done draft
    | .fail cause back => .fail cause back

theorem feed_append (r : Reader) (xs ys : List UInt8) :
    r.feed (xs ++ ys) =
      match r.feed xs with
      | .more r => r.feed ys
      | .done draft => .done draft
      | .fail cause back => .fail cause back := by
  induction xs generalizing r with
  | nil => rfl
  | cons x xs ih =>
    simp only [List.cons_append, feed]
    cases r.step x with
    | more r' => exact ih r'
    | done draft => rfl
    | fail cause back => rfl

/-! ## Texts that complete a record -/

/-- The bytes complete the record, and the last of them is its closing brace. -/
inductive Closes : Reader → List UInt8 → Draft → Prop
  | last {r : Reader} {b : UInt8} {d : Draft} : r.step b = .done d → Closes r [b] d
  | more {r r' : Reader} {b : UInt8} {rest : List UInt8} {d : Draft} :
      r.step b = .more r' → Closes r' rest d → Closes r (b :: rest) d

/-- A text that closes a record does so at its very end, at a closing brace. -/
theorem Closes.ends_in_brace {r : Reader} {body : List UInt8} {d : Draft} (h : r.Closes body d) :
    ∃ front, body = front ++ [0x7D] := by
  induction h with
  | last h => exact ⟨[], by rw [(step_done h).1]; rfl⟩
  | @more r r' b rest d _ _ ih =>
    obtain ⟨front, rfl⟩ := ih
    exact ⟨b :: front, rfl⟩

theorem Closes.feed_append {r : Reader} {body : List UInt8} {d : Draft} (h : r.Closes body d)
    (rest : List UInt8) : r.feed (body ++ rest) = .done d := by
  induction h with
  | last h => simp [feed, h]
  | more h _ ih => simp [feed, h, ih]

theorem closes_of_feed {r : Reader} {text : List UInt8} {d : Draft} (h : r.feed text = .done d) :
    ∃ body rest, text = body ++ rest ∧ r.Closes body d := by
  induction text generalizing r with
  | nil => cases h
  | cons b text ih =>
    simp only [feed] at h
    split at h
    · rename_i r' hstep
      obtain ⟨body, rest, rfl, hbody⟩ := ih h
      exact ⟨b :: body, rest, rfl, .more hstep hbody⟩
    · rename_i hstep
      cases h
      exact ⟨[b], text, rfl, .last hstep⟩
    · cases h

/-- What comes after a part of a text that closes a record closes it from the
state after that part. -/
theorem Closes.split {r : Reader} {front back : List UInt8} {d : Draft}
    (h : r.Closes (front ++ back) d) (hback : back ≠ []) :
    ∃ r', r.feed front = .more r' ∧ r'.Closes back d := by
  induction front generalizing r with
  | nil => exact ⟨r, rfl, h⟩
  | cons b front ih =>
    generalize htext : b :: front ++ back = text at h
    cases h with
    | last hstep => simp_all
    | more hstep hrest =>
      obtain ⟨rfl, rfl⟩ := List.cons.inj htext
      obtain ⟨r', hfeed, hclose⟩ := ih hrest
      exact ⟨r', by simp [feed, hstep, hfeed], hclose⟩

theorem Closes.isLost {r : Reader} {body : List UInt8} {d : Draft} (h : r.Closes body d) :
    isLost r.place = false := by
  induction h with
  | last h => exact isLost_of_step_done h
  | @more r r' b rest d h _ ih =>
    cases hlost : Reader.isLost r.place with
    | false => rfl
    | true => exact absurd (step_isLost h hlost) (by simp [ih])

/-! ## Decoding -/

/-- A text that ends in a state from which a record can still be read ends too
early, and has no other fault. -/
theorem endCause_isEnd {r : Reader} (h : Reader.isLost r.place = false) :
    r.endCause.isEnd = true := by
  obtain ⟨place, draft⟩ := r
  cases place <;> try rfl
  case repeated field => cases h
  case skipped s =>
    obtain ⟨place, frames⟩ := s
    cases place <;> try rfl
    all_goals cases frames <;> try rfl
    all_goals rename_i frame _; cases frame <;> rfl

theorem run_of_feed_more {r r' : Reader} {offset : Nat} {text : List UInt8}
    (h : r.feed text = .more r') :
    r.run offset text = .error ⟨r'.endCause, offset + text.length⟩ := by
  induction text generalizing r offset with
  | nil => cases h; rfl
  | cons b text ih =>
    simp only [feed] at h
    split at h
    · rename_i hstep
      simp only [run, hstep, ih h, List.length_cons]
      congr 2
      omega
    · cases h
    · cases h

theorem finish_ok_iff {draft d : Draft} {offset : Nat} {rest : List UInt8} :
    finish draft offset rest = .ok d ↔ draft = d ∧ ∀ b ∈ rest, isSpace b = true := by
  rw [← List.dropWhile_eq_nil_iff]
  unfold finish
  split <;> simp_all

theorem run_ok_iff {r : Reader} {offset : Nat} {text : List UInt8} {d : Draft} :
    r.run offset text = .ok d ↔
      ∃ body gap, text = body ++ gap ∧ r.Closes body d ∧ ∀ b ∈ gap, isSpace b = true := by
  induction text generalizing r offset with
  | nil =>
    constructor
    · intro h; cases h
    · rintro ⟨body, gap, h, hbody, -⟩
      obtain ⟨rfl, rfl⟩ := List.append_eq_nil_iff.mp h.symm
      cases hbody
  | cons b text ih =>
    constructor
    · intro h
      simp only [run] at h
      split at h
      · rename_i r' hstep
        obtain ⟨body, gap, rfl, hbody, hgap⟩ := ih.mp h
        exact ⟨b :: body, gap, rfl, .more hstep hbody, hgap⟩
      · rename_i draft hstep
        obtain ⟨rfl, hrest⟩ := finish_ok_iff.mp h
        exact ⟨[b], text, rfl, .last hstep, hrest⟩
      · cases h
    · rintro ⟨body, gap, htext, hbody, hgap⟩
      cases hbody with
      | last hstep =>
        obtain ⟨rfl, rfl⟩ := List.cons.inj htext
        simp only [run, hstep]
        exact finish_ok_iff.mpr ⟨rfl, hgap⟩
      | more hstep hrest =>
        obtain ⟨rfl, rfl⟩ := List.cons.inj htext
        simp only [run, hstep]
        exact ih.mpr ⟨_, _, rfl, hrest, hgap⟩

end CompileCommands.Record.Reader

namespace CompileCommands.Record

open Json

/-- A text is a record if the bytes after its opening brace complete one and
only spaces follow. -/
theorem decode_ok_iff {text : List UInt8} {d : Draft} :
    decode text = .ok d ↔
      ∃ body gap, text = 0x7B :: body ++ gap ∧ Reader.start.Closes body d ∧
        ∀ b ∈ gap, isSpace b = true := by
  unfold decode
  split
  · rw [Reader.run_ok_iff]
    simp
  · rename_i hbrace
    constructor
    · intro h
      cases h
    · rintro ⟨body, gap, rfl, -, -⟩
      exact absurd rfl (hbrace _)

/-- A record that ends in a brace, cut off anywhere, ends too early. -/
theorem decode_cut {front back : List UInt8} {d : Draft}
    (h : decode (front ++ (back ++ [0x7D])) = .ok d) (hfront : front ≠ []) :
    ∃ fault, decode front = .error fault ∧ fault.cause.isEnd = true := by
  obtain ⟨body, gap, htext, hbody, hgap⟩ := decode_ok_iff.mp h
  obtain rfl : gap = [] := by
    -- The last byte is the brace, and no space.
    rcases List.eq_nil_or_concat gap with hnil | ⟨most, b, rfl⟩
    · exact hnil
    · have hlast := congrArg List.getLast? htext
      simp only [← List.append_assoc, List.concat_eq_append, List.getLast?_append,
        List.getLast?_singleton, Option.some_or, Option.some.injEq] at hlast
      exact absurd (hgap b (by simp)) (by rw [← hlast]; decide)
  obtain ⟨b, front, rfl⟩ := List.exists_cons_of_ne_nil hfront
  rw [List.append_nil, List.cons_append, List.cons.injEq] at htext
  obtain ⟨rfl, rfl⟩ := htext
  obtain ⟨r, hfeed, hclose⟩ := hbody.split (by simp)
  exact ⟨_, Reader.run_of_feed_more hfeed, Reader.endCause_isEnd hclose.isLost⟩

end CompileCommands.Record
