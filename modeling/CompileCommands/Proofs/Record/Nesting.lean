-- A record within another one. An unknown key may have any value, so what is
-- read as a record on its own may also be skipped as a value. Reading and
-- skipping go side by side: after each byte the skipped object is in the
-- state that the record stands for, and both end at the same brace.
import CompileCommands.Proofs.Json.Skipping
import CompileCommands.Proofs.Record.Reading

namespace CompileCommands.Record

open Json

/-- The state in which a skipped object is whose bytes were read as a record. The brackets
around the object are `outer`. A text that is no record has none. -/
def Place.shadow (outer : List Frame) : Place → Option Skip
  | .firstKey => some ⟨.opened, .object :: outer⟩
  | .nextKey => some ⟨.key, .object :: outer⟩
  | .key t => some ⟨.text true t.place.shadow, .object :: outer⟩
  | .colon _ => some ⟨.colon, .object :: outer⟩
  | .value _ => some ⟨.value, .object :: outer⟩
  | .null _ left => some ⟨.word left, .object :: outer⟩
  | .text _ t => some ⟨.text false t.place.shadow, .object :: outer⟩
  | .firstItem => some ⟨.opened, .list :: .object :: outer⟩
  | .nextItem _ => some ⟨.value, .list :: .object :: outer⟩
  | .item _ t => some ⟨.text false t.place.shadow, .list :: .object :: outer⟩
  | .afterItem _ => some ⟨.after, .list :: .object :: outer⟩
  | .skipped s => some (s.within (.object :: outer))
  | .afterMember => some ⟨.after, .object :: outer⟩
  | .repeated _ | .wrongWord _ _ _ | .wrongNumber _ _ _ | .wrongText _ _ => none

/-- A place that a reader may reach. -/
def Place.IsSound : Place → Prop
  | .null _ left | .wrongWord _ left _ => 0x7B ∉ left
  | .skipped s => s.IsSound
  | _ => True

namespace Reader

theorem skipStep_more {r r' : Reader} {s : Skip} {b : UInt8} (h : r.skipStep s b = .more r') :
    (∃ s', s.step b = .more s' ∧ r' = { r with place := .skipped s' }) ∨
      (s.step b = .ended ∧ r' = { r with place := .afterMember }) ∨
      (s.step b = .endedBefore ∧ r.afterMemberStep b = .more r') := by
  unfold skipStep at h
  grind [goto]

theorem keyRead_more {r r' : Reader} {key : String} (h : r.keyRead key = .more r') :
    (∃ field, r'.place = .repeated field) ∨ ∃ field, r'.place = .colon field := by
  unfold keyRead at h
  split at h
  · cases h; exact .inr ⟨_, rfl⟩
  · split at h <;> cases h
    · exact .inl ⟨_, rfl⟩
    · exact .inr ⟨_, rfl⟩

theorem wrongStart_more {r r' : Reader} {wanted : Wanted} {b : UInt8}
    (h : r.wrongStart wanted b = .more r') :
    isLost r'.place = true ∧ r'.place.IsSound := by
  have hwords : 0x7B ∉ afterN ∧ 0x7B ∉ afterT ∧ 0x7B ∉ afterF := by decide
  unfold wrongStart at h
  grind [goto, isLost, Place.IsSound]

theorem valueStart_more {r r' : Reader} {field : Field} {b : UInt8}
    (h : r.valueStart field b = .more r') :
    (isLost r'.place = true ∧ r'.place.IsSound) ∨ (b = 0x6E ∧ r'.place = .null field afterN) ∨
      (b = 0x22 ∧ r'.place = .text field .start) ∨ (b = 0x5B ∧ r'.place = .firstItem) := by
  unfold valueStart at h
  have hwrong := @wrongStart_more r r'
  cases field <;> grind [goto]

theorem itemStart_more {r r' : Reader} {items : List String} {b : UInt8}
    (h : r.itemStart items b = .more r') :
    (isLost r'.place = true ∧ r'.place.IsSound) ∨ b = 0x22 ∧ r'.place = .item items .start := by
  unfold itemStart at h
  have hwrong := @wrongStart_more r r'
  grind [goto]

theorem memberEnd_more {r r' : Reader} {b : UInt8} (h : r.memberEnd b = .more r') :
    b = 0x2C ∧ r'.place = .nextKey := by
  unfold memberEnd at h
  grind [goto]

/-- The reader goes on with a record as one goes on with a skipped object, in
whatever brackets the object stands, as long as the text may be a record. -/
theorem step_shadow {r r' : Reader} {b : UInt8} {outer : List Frame} {s : Skip}
    (h : r.step b = .more r') (hs : r.place.shadow outer = some s) (hr : r.place.IsSound) :
    isLost r'.place = true ∨ (r'.place.shadow outer).map .more = some (s.step b) := by
  obtain ⟨place, draft⟩ := r
  cases place <;>
    simp only [step, isLoose, looseStep, tightStep, if_true, Bool.false_eq_true, if_false] at h <;>
    simp only [Place.shadow, Option.some.injEq, reduceCtorEq] at hs <;> subst hs
  case firstKey =>
    grind [goto, Place.shadow, Skip.step, Skip.inside, TextReader.start, TextPlace.shadow]
  case nextKey => grind [goto, Place.shadow, Skip.step, TextReader.start, TextPlace.shadow]
  case key t =>
    obtain ⟨t', ht, h⟩ | ⟨bytes, key, ht, h⟩ := textStep_more h
    · cases h
      exact .inr (by simp [Place.shadow, Skip.step, Skip.textStep_of_more ht])
    · obtain ⟨field, h⟩ | ⟨field, h⟩ := keyRead_more h
      · exact .inl (by rw [h]; rfl)
      · exact .inr (by simp [h, Place.shadow, Skip.step, Skip.textStep_of_closed ht])
  case colon field =>
    cases field with
    | none =>
      simp only [goto] at h
      split at h
      · cases h
        exact .inr (by simp [Place.shadow, Skip.step, *])
      · split at h <;> cases h
        exact .inr (by simp_all [Place.shadow, Skip.step, Skip.within])
    | some field => grind [goto, Place.shadow, Skip.step]
  case value field =>
    have hstart := @valueStart_more ⟨.value field, draft⟩ r' field b
    grind [Place.shadow, Skip.step, Skip.start, TextReader.start, TextPlace.shadow]
  case null field left =>
    obtain ⟨c, rest, hleft, h⟩ | ⟨hleft, h⟩ := wordStep_more h <;> cases h
    · exact .inr (by simp [Place.shadow, Skip.step, Skip.wordStep, hleft])
    · exact .inr (by simp [Place.shadow, Skip.step, Skip.wordStep, hleft, Skip.complete])
  case text field t =>
    obtain ⟨t', ht, h⟩ | ⟨bytes, key, ht, h⟩ := textStep_more h <;> cases h
    · exact .inr (by simp [Place.shadow, Skip.step, Skip.textStep_of_more ht])
    · exact .inr (by simp [Place.shadow, Skip.step, Skip.textStep_of_closed ht, Skip.complete])
  case firstItem =>
    have hstart := @itemStart_more ⟨.firstItem, draft⟩ r' [] b
    grind [Place.shadow, Skip.step, Skip.inside, Skip.start, Skip.complete, TextReader.start,
      TextPlace.shadow, close]
  case nextItem items =>
    have hstart := @itemStart_more ⟨.nextItem items, draft⟩ r' items b
    grind [Place.shadow, Skip.step, Skip.start, TextReader.start, TextPlace.shadow]
  case item items t =>
    obtain ⟨t', ht, h⟩ | ⟨bytes, key, ht, h⟩ := textStep_more h <;> cases h
    · exact .inr (by simp [Place.shadow, Skip.step, Skip.textStep_of_more ht])
    · exact .inr (by simp [Place.shadow, Skip.step, Skip.textStep_of_closed ht, Skip.complete])
  case afterItem items =>
    grind [Place.shadow, Skip.step, Skip.afterStep, Skip.behind, Skip.complete, goto, close]
  case skipped s =>
    have hwithin := Skip.step_within .object outer b s hr
    obtain ⟨s', hs, rfl⟩ | ⟨hs, rfl⟩ | ⟨hs, h⟩ := skipStep_more h
    · exact .inr (by simp [Place.shadow, hwithin, hs, SkipStep.within])
    · exact .inr (by simp [Place.shadow, hwithin, hs, SkipStep.within])
    · have hend := @memberEnd_more ⟨.skipped s, draft⟩ r' b
      rw [hwithin, hs]
      grind [Place.shadow, SkipStep.within, Skip.afterStep, Skip.behind, afterMemberStep, goto]
  case afterMember =>
    have hend := @memberEnd_more ⟨.afterMember, draft⟩ r' b
    grind [Place.shadow, Skip.step, Skip.afterStep, Skip.behind]

theorem step_isSound {r r' : Reader} {b : UInt8} (h : r.step b = .more r')
    (hr : r.place.IsSound) : r'.place.IsSound := by
  obtain ⟨place, draft⟩ := r
  cases place <;>
    simp only [step, isLoose, looseStep, tightStep, if_true, Bool.false_eq_true, if_false] at h
  case skipped s =>
    obtain ⟨s', hs, rfl⟩ | ⟨hs, rfl⟩ | ⟨hs, h⟩ := skipStep_more h
    · exact Skip.step_isSound hs hr
    · trivial
    · have hend := @memberEnd_more ⟨.skipped s, draft⟩ r' b
      grind [Place.IsSound, afterMemberStep, goto]
  case key t =>
    obtain ⟨t', -, h⟩ | ⟨bytes, key, -, h⟩ := textStep_more h
    · cases h; trivial
    · obtain ⟨field, h⟩ | ⟨field, h⟩ := keyRead_more h <;> rw [h] <;> trivial
  case colon field =>
    have hskipped : (⟨.value, []⟩ : Skip).IsSound := ⟨by rintro ⟨⟩, by rintro left ⟨⟩⟩
    cases field <;> grind [goto, Place.IsSound]
  case value field =>
    have hstart := @valueStart_more ⟨.value field, draft⟩ r' field b
    have hword : 0x7B ∉ afterN := by decide
    grind [Place.IsSound]
  case firstItem =>
    have hstart := @itemStart_more ⟨.firstItem, draft⟩ r' [] b
    grind [Place.IsSound, close]
  case nextItem items =>
    have hstart := @itemStart_more ⟨.nextItem items, draft⟩ r' items b
    grind [Place.IsSound]
  case afterMember =>
    have hend := @memberEnd_more ⟨.afterMember, draft⟩ r' b
    grind [Place.IsSound]
  case wrongNumber place read wanted => grind [Place.IsSound, goto, wrongNumberRead]
  case null | wrongWord =>
    obtain ⟨c, rest, hleft, h⟩ | ⟨hleft, h⟩ := wordStep_more h <;> cases h <;>
      grind [Place.IsSound]
  case text | item | wrongText =>
    obtain ⟨t', -, h⟩ | ⟨bytes, s, -, h⟩ := textStep_more h <;> cases h <;> trivial
  all_goals grind [Place.IsSound, goto, close]

/-- The closing brace of a record also closes the skipped object. -/
theorem step_done_shadow {r : Reader} {b : UInt8} {d : Draft} {outer : List Frame} {s : Skip}
    (h : r.step b = .done d) (hs : r.place.shadow outer = some s) (hr : r.place.IsSound) :
    s.step b = Skip.complete outer := by
  obtain ⟨rfl, hplace⟩ := step_done h
  obtain hplace | hplace | ⟨s', hplace, hended⟩ := hplace <;> rw [hplace] at hs hr <;> cases hs
  · rfl
  · rfl
  · rw [Skip.step_within .object outer 0x7D s' hr, hended]
    rfl

/-- A record that is skipped within some brackets does not end what is around it. -/
theorem Closes.feed_skipped {r : Reader} {body : List UInt8} {d : Draft} (h : r.Closes body d)
    {outer : List Frame} {s : Skip} (hs : r.place.shadow outer = some s) (hr : r.place.IsSound)
    {r₁ : Reader} (h₁ : r₁.place = .skipped s) (d₁ : Draft) : r₁.feed body ≠ .done d₁ := by
  induction h generalizing s r₁ with
  | @last r b d hstep =>
    have hs' := step_done_shadow hstep hs hr
    simp only [feed, step, h₁, isLoose, tightStep, skipStep, hs', Bool.false_eq_true, if_false]
    cases outer <;> simp [Skip.complete, goto]
  | @more r r' b rest d hstep hrest ih =>
    have hlost := hrest.isLost
    obtain hl | hmap := step_shadow hstep hs hr
    · simp [hlost] at hl
    · obtain ⟨s', hs', hmore⟩ := Option.map_eq_some_iff.mp hmap
      simp only [feed, step, h₁, isLoose, tightStep, skipStep, ← hmore, Bool.false_eq_true,
        if_false, goto]
      exact ih hs' (step_isSound hstep hr) rfl

end Reader

end CompileCommands.Record
