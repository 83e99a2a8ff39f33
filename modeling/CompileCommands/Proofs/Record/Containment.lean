-- A record object in the middle of something else. Whatever was read before
-- it, its opening brace is a byte of a string, or it opens a value that is
-- skipped, or nothing comes of the text at all. The string would be closed by
-- the quote of the first key, and the letter after that quote makes no sense
-- behind a string. The value is skipped as far as the object goes. So no
-- record that started earlier ends within an object.
import CompileCommands.Proofs.Json.Text
import CompileCommands.Proofs.Record.Nesting

namespace CompileCommands.Record

open Json

/-! ## The first key -/

/-- The first key of a record. -/
def firstKey? (text : List UInt8) : Option String :=
  match (text.drop 1).dropWhile isSpace with
  | 0x22 :: rest => TextReader.start.text? rest
  | _ => none

/-- A key that starts with a letter from `A` to `Z`, of either case. -/
def startsWithLetter (key : String) : Bool := key.toList.head?.any Char.isAlpha

/-- A byte that may stand neither before a token of a record nor after one. -/
def isInner (b : UInt8) : Bool :=
  !isSpace b && b != 0x2C && b != 0x3A && b != 0x5D && b != 0x7D

theorem isInner_of_isAlpha {b : UInt8} (h : (Char.ofNat b.toNat).isAlpha = true) :
    isInner b = true := by
  cases hb : isInner b with
  | true => rfl
  | false =>
    simp only [isInner, isSpace, Bool.and_eq_false_iff, Bool.not_eq_false', Bool.or_eq_true,
      beq_iff_eq, bne_eq_false_iff_eq] at hb
    rcases hb with (((hb | rfl) | rfl) | rfl) | rfl
    · rcases hb with ((rfl | rfl) | rfl) | rfl <;> exact absurd h (by decide)
    all_goals exact absurd h (by decide)

theorem toNat_lt_of_isAlpha {c : Char} (h : c.isAlpha = true) : c.toNat < 0x80 := by
  have hcases : (c.isUpper || c.isLower) = true := h
  rcases Bool.or_eq_true_iff.mp hcases with h | h
  · have hle : c.val ≤ 'Z'.val := (of_decide_eq_true h).2
    exact Nat.lt_of_le_of_lt (UInt32.le_iff_toNat_le.mp hle) (by decide)
  · have hle : c.val ≤ 'z'.val := of_decide_eq_true (Bool.and_eq_true_iff.mp h).2
    exact Nat.lt_of_le_of_lt (UInt32.le_iff_toNat_le.mp hle) (by decide)

/-- A string that starts with a letter has a letter or an escape after its
opening quote. -/
theorem text?_startsWithLetter {rest : List UInt8} {key : String}
    (h : TextReader.start.text? rest = some key) (hkey : startsWithLetter key = true) :
    ∃ b more, rest = b :: more ∧ isInner b = true := by
  cases rest with
  | nil => cases h
  | cons b more =>
    refine ⟨b, more, rfl, ?_⟩
    by_cases hquote : b = 0x22
    · subst hquote; rfl
    · by_cases hescape : b = 0x5C
      · subst hescape; rfl
      · by_cases hcontrol : b < 0x20
        · simp [TextReader.text?, TextReader.step, TextReader.start, hquote, hescape, hcontrol] at h
        · have hmore : TextReader.text? ⟨.plain, [b]⟩ more = some key := by
            simpa [TextReader.text?, TextReader.step, TextReader.start, TextReader.push, hquote,
              hescape, hcontrol] using h
          obtain ⟨bytes, hdecode, rest, rfl⟩ := TextReader.text?_bytes hmore
          unfold decodeText at hdecode
          split at hdecode
          · rename_i cs hstart
            cases hdecode
            cases cs with
            | nil => simp [startsWithLetter] at hkey
            | cons c cs =>
              have hc : c.isAlpha = true := by simpa [startsWithLetter] using hkey
              obtain ⟨-, rfl⟩ := Utf8.decodeStart_head hstart (toNat_lt_of_isAlpha hc)
              exact isInner_of_isAlpha hc
          · cases hdecode

/-! ## An object that starts in the middle of something -/

namespace Reader

/-- The place in the string in which the reader is, if it is in one. -/
def textPlace? : Place → Option SkippedText
  | .key t | .text _ t | .item _ t | .wrongText t _ => some t.place.shadow
  | .skipped ⟨.text _ t, _⟩ => some t
  | _ => none

/-- The reader has just left a string. -/
def afterText : Place → Bool
  | .colon _ | .repeated _ | .afterItem _ | .afterMember | .skipped ⟨.colon, _⟩
  | .skipped ⟨.after, _⟩ => true
  | _ => false

theorem skipped_step_of_textPlace? {r r' : Reader} {b : UInt8} {t : SkippedText} {isKey : Bool}
    {frames : List Frame} (h : r.skipStep ⟨.text isKey t, frames⟩ b = .more r') :
    (textPlace? r'.place).map (fun t' => .more ⟨.text true t', []⟩) =
        some (Skip.textStep [] true t b) ∨
      t = .plain ∧ b = 0x22 ∧ afterText r'.place = true := by
  unfold skipStep at h
  simp only [Skip.step] at h
  cases t with
  | plain =>
    by_cases hquote : b = 0x22
    · refine .inr ⟨rfl, hquote, ?_⟩
      cases isKey <;> cases frames <;>
        simp [Skip.textStep, hquote, Skip.complete, goto] at h <;> subst h <;> rfl
    · simp only [Skip.textStep, hquote, if_false] at h ⊢
      grind [goto, textPlace?]
  | escape =>
    simp only [Skip.textStep] at h ⊢
    cases hshort : TextReader.shortEscape? b <;> grind [goto, textPlace?]
  | digits read =>
    simp only [Skip.textStep] at h ⊢
    cases hhex : hexNumber? (b :: read).reverse <;> grind [goto, textPlace?]

/-- In a string, a byte does the same whatever the string is for. -/
theorem step_of_textPlace? {r r' : Reader} {b : UInt8} {t : SkippedText}
    (h : r.step b = .more r') (ht : textPlace? r.place = some t) :
    (textPlace? r'.place).map (fun t' => .more ⟨.text true t', []⟩) =
        some (Skip.textStep [] true t b) ∨
      t = .plain ∧ b = 0x22 ∧ afterText r'.place = true := by
  obtain ⟨place, draft⟩ := r
  cases place <;> try cases ht
  case key t =>
    obtain ⟨t', ht, h⟩ | ⟨bytes, s, ht, h⟩ := textStep_more h
    · cases h
      exact .inl (by simp [textPlace?, Skip.textStep_of_more ht])
    · obtain ⟨hplace, hquote, -⟩ := TextReader.step_closed ht
      refine .inr ⟨by rw [hplace]; rfl, hquote, ?_⟩
      obtain ⟨field, h⟩ | ⟨field, h⟩ := keyRead_more h <;> rw [h] <;> rfl
  case text | item | wrongText =>
    obtain ⟨t', ht, h⟩ | ⟨bytes, s, ht, h⟩ := textStep_more h <;> cases h
    · exact .inl (by simp [textPlace?, Skip.textStep_of_more ht])
    all_goals
      obtain ⟨hplace, rfl, -⟩ := TextReader.step_closed ht
      exact .inr ⟨by rw [hplace]; rfl, rfl, rfl⟩
  case skipped s =>
    obtain ⟨place, frames⟩ := s
    cases place <;> cases ht
    exact skipped_step_of_textPlace? h

/-- After a string, a byte that is no token and no space has no meaning. -/
theorem step_of_afterText {r r' : Reader} {b : UInt8} (hb : isInner b = true)
    (hr : afterText r.place = true) : r.step b ≠ .more r' := by
  simp only [isInner, Bool.and_eq_true, Bool.not_eq_true', bne_iff_ne] at hb
  obtain ⟨place, draft⟩ := r
  cases place <;> try cases hr
  case skipped s =>
    obtain ⟨place, frames⟩ := s
    cases place <;> try cases hr
    case colon => simp [step, isLoose, tightStep, skipStep, Skip.step, hb]
    case after =>
      cases frames with
      | nil => simp [step, isLoose, tightStep, skipStep, Skip.step, Skip.afterStep, hb,
          afterMemberStep, memberEnd]
      | cons frame frames => cases frame <;>
          simp [step, isLoose, tightStep, skipStep, Skip.step, Skip.afterStep, Skip.behind, hb]
  all_goals simp [step, isLoose, looseStep, hb, memberEnd]

/-- An opening brace is a byte of a string, or it opens a value that is
skipped. Else no record comes of the text. -/
theorem step_brace {r r' : Reader} (h : r.step 0x7B = .more r') (hr : r.place.IsSound) :
    (∃ t, textPlace? r.place = some t) ∨ r'.place = .afterMember ∨
      ∃ outer, r'.place = .skipped ⟨.opened, .object :: outer⟩ := by
  have hspace : isSpace 0x7B = false := by decide
  obtain ⟨place, draft⟩ := r
  cases place <;>
    simp only [step, isLoose, looseStep, tightStep, if_true, Bool.false_eq_true, if_false,
      hspace] at h
  case key | text | item | wrongText => exact .inl ⟨_, rfl⟩
  case null | wrongWord =>
    obtain ⟨c, rest, rfl, -⟩ | ⟨rfl, -⟩ := wordStep_more h <;>
      exact absurd hr (by simp [Place.IsSound])
  case wrongNumber place read wanted =>
    split at h
    · exact absurd ‹_› (NumberPlace.step_brace _ _)
    · cases h
    · unfold wrongNumberRead at h
      split at h <;> cases h
  case value field => cases field <;> simp [valueStart, wrongStart] at h
  case firstItem | nextItem => simp [itemStart, wrongStart] at h
  case afterMember => simp [memberEnd] at h
  case skipped s =>
    obtain ⟨s', hs, rfl⟩ | ⟨hs, rfl⟩ | ⟨hs, h⟩ := skipStep_more h
    · obtain ⟨isKey, t, ht⟩ | ⟨outer, rfl⟩ := Skip.step_brace hs hr
      · exact .inl ⟨t, by obtain ⟨place, frames⟩ := s; cases ht; rfl⟩
      · exact .inr (.inr ⟨outer, rfl⟩)
    · exact .inr (.inl rfl)
    · simp [afterMemberStep, hspace, memberEnd] at h
  all_goals simp at h

theorem textPlace?_of_step_done {r : Reader} {b : UInt8} {d : Draft} (h : r.step b = .done d) :
    textPlace? r.place = none := by
  obtain ⟨-, hr | hr | ⟨s, hr, hs⟩⟩ := step_done h <;> rw [hr]
  · rfl
  · rfl
  · obtain ⟨place, frames⟩ := s
    cases place <;> try rfl
    case text isKey t =>
      cases t <;> simp only [Skip.step, Skip.textStep, Skip.complete] at hs <;> grind

/-! ### Texts that end no record -/

/-- No reader that reaches the text ends a record in it. -/
def Quiet (text : List UInt8) : Prop :=
  ∀ r : Reader, r.place.IsSound → ∀ d, r.feed text ≠ .done d

theorem feed_isSound {r r' : Reader} {text : List UInt8} (h : r.feed text = .more r')
    (hr : r.place.IsSound) : r'.place.IsSound := by
  induction text generalizing r with
  | nil => cases h; exact hr
  | cons b text ih =>
    simp only [feed] at h
    split at h
    · exact ih h (step_isSound ‹_› hr)
    · cases h
    · cases h

theorem Quiet.append {xs ys : List UInt8} (hx : Quiet xs) (hy : Quiet ys) :
    Quiet (xs ++ ys) := by
  intro r hr d h
  rw [feed_append] at h
  split at h
  · exact hy _ (feed_isSound ‹_› hr) d h
  · exact hx r hr _ ‹_›
  · cases h

theorem quiet_of_not_mem {text : List UInt8} (h : 0x7D ∉ text) : Quiet text := by
  intro r _ d hdone
  obtain ⟨body, rest, rfl, hbody⟩ := closes_of_feed hdone
  obtain ⟨front, rfl⟩ := hbody.ends_in_brace
  simp at h

/-- An escape that has no number never ends. -/
theorem feed_ne_done_of_digits {r : Reader} {read : List UInt8}
    (hr : textPlace? r.place = some (.digits read)) (hread : 0x7B ∈ read) (text : List UInt8)
    (d : Draft) : r.feed text ≠ .done d := by
  induction text generalizing r read with
  | nil => simp [feed]
  | cons b text ih =>
    intro h
    simp only [feed] at h
    split at h
    · rename_i r' hstep
      obtain hmap | ⟨hplain, -⟩ := step_of_textPlace? hstep hr
      · simp only [Skip.textStep] at hmap
        split at hmap
        · obtain ⟨t, ht, hmore⟩ := Option.map_eq_some_iff.mp hmap
          cases hmore
          exact ih ht (List.mem_cons_of_mem b hread) h
        · rw [hexNumber?_eq_none (by simp [hread])] at hmap
          obtain ⟨t, -, hmore⟩ := Option.map_eq_some_iff.mp hmap
          cases hmore
      · cases hplain
    · simp [textPlace?_of_step_done ‹_›] at hr
    · cases h

/-- A string that goes on over spaces and a quote is closed by the quote, and a
letter that follows makes no sense there. -/
theorem feed_ne_done_of_plain {r : Reader} (hr : textPlace? r.place = some .plain)
    {gap rest : List UInt8} {b : UInt8} (hgap : ∀ g ∈ gap, isSpace g = true)
    (hb : isInner b = true) (d : Draft) : r.feed (gap ++ 0x22 :: b :: rest) ≠ .done d := by
  induction gap generalizing r with
  | nil =>
    intro h
    simp only [List.nil_append, feed] at h
    split at h
    · rename_i r' hstep
      obtain hmap | ⟨-, -, hafter⟩ := step_of_textPlace? hstep hr
      · obtain ⟨t, -, hmore⟩ := Option.map_eq_some_iff.mp hmap
        cases hmore
      · split at h
        · exact step_of_afterText hb hafter ‹_›
        · obtain ⟨rfl, -⟩ := step_done ‹_›
          cases hb
        · cases h
    · simp [textPlace?_of_step_done ‹_›] at hr
    · cases h
  | cons g gap ih =>
    intro h
    simp only [List.cons_append, feed] at h
    have hg : isSpace g = true := hgap g (by simp)
    split at h
    · rename_i r' hstep
      obtain hmap | ⟨-, rfl, -⟩ := step_of_textPlace? hstep hr
      · obtain ⟨t, ht, hmore⟩ := Option.map_eq_some_iff.mp hmap
        have hplain : t = .plain := by
          simp only [isSpace, Bool.or_eq_true, beq_iff_eq] at hg
          simp only [Skip.textStep] at hmore
          grind
        subst hplain
        exact ih ht (fun x hx => hgap x (by simp [hx])) h
      · cases hg
    · simp [textPlace?_of_step_done ‹_›] at hr
    · cases h

theorem feed_ne_done_of_afterMember {r : Reader} (hr : r.place = .afterMember)
    {gap rest : List UInt8} (hgap : ∀ g ∈ gap, isSpace g = true) (d : Draft) :
    r.feed (gap ++ 0x22 :: rest) ≠ .done d := by
  induction gap generalizing r with
  | nil => simp [feed, step, hr, isLoose, looseStep, memberEnd, show isSpace 0x22 = false from rfl]
  | cons g gap ih =>
    have hg : isSpace g = true := hgap g (by simp)
    simp only [List.cons_append, feed, step, hr, isLoose, hg, if_true]
    exact ih hr (fun x hx => hgap x (by simp [hx]))

end Reader

/-! ## Well-formed objects -/

/-- The text is one record, and its first key starts with a letter. -/
structure IsObject (text : List UInt8) (draft : Draft) : Prop where
  decodes : decode text = .ok draft
  letter : ∃ key, firstKey? text = some key ∧ startsWithLetter key = true

example : IsObject (Utf8.ofText "\x7b \"file\" : \"/a.c\" \x7d")
    { Draft.empty with file := some (some "/a.c") } :=
  ⟨by decide +kernel, "file", by decide +kernel, by decide⟩

theorem not_mem_of_isSpace {gap : List UInt8} {b : UInt8} (h : ∀ g ∈ gap, isSpace g = true)
    (hb : isSpace b = false) : b ∉ gap := fun hmem => by simp [h b hmem] at hb

/-- Where the first key of an object stands. -/
theorem IsObject.key {text : List UInt8} {d : Draft} (h : IsObject text d) :
    ∃ gap b rest, text.drop 1 = gap ++ 0x22 :: b :: rest ∧ (∀ g ∈ gap, isSpace g = true) ∧
      isInner b = true := by
  obtain ⟨key, hkey, hletter⟩ := h.letter
  unfold firstKey? at hkey
  split at hkey
  · rename_i rest hrest
    obtain ⟨b, more, rfl, hb⟩ := text?_startsWithLetter hkey hletter
    refine ⟨(text.drop 1).takeWhile isSpace, b, more, ?_, fun g => List.mem_takeWhile_imp, hb⟩
    rw [← hrest, List.takeWhile_append_dropWhile]
  · cases hkey

/-- In whatever state a reader comes upon an object, it does not end a record there. -/
theorem IsObject.quiet {text : List UInt8} {d : Draft} (h : IsObject text d) :
    Reader.Quiet text := by
  obtain ⟨body, tail, rfl, hbody, htail⟩ := decode_ok_iff.mp h.decodes
  obtain ⟨gap, b, rest, hkey, hgap, hb⟩ := h.key
  simp only [List.cons_append, List.drop_succ_cons, List.drop_zero] at hkey
  intro r hr d' hdone
  simp only [List.cons_append, Reader.feed] at hdone
  split at hdone
  · rename_i r' hstep
    have hr' := Reader.step_isSound hstep hr
    obtain ⟨t, ht⟩ | hafter | ⟨outer, hopened⟩ := Reader.step_brace hstep hr
    · -- The brace is a byte of a string, which goes on up to the quote of the key.
      obtain hmap | ⟨-, hquote, -⟩ := Reader.step_of_textPlace? hstep ht
      · cases t with
        | plain =>
          obtain ⟨t', ht', hmore⟩ := Option.map_eq_some_iff.mp hmap
          cases hmore
          rw [hkey] at hdone
          exact Reader.feed_ne_done_of_plain ht' hgap hb d' hdone
        | escape =>
          obtain ⟨t', -, hmore⟩ := Option.map_eq_some_iff.mp hmap
          cases hmore
        | digits read =>
          obtain ⟨t', ht', hmore⟩ := Option.map_eq_some_iff.mp hmap
          simp only [Skip.textStep, hexNumber?_eq_none (by simp : 0x7B ∈ (0x7B :: read).reverse)]
            at hmore
          split at hmore <;> cases hmore
          exact Reader.feed_ne_done_of_digits ht' (by simp) _ d' hdone
      · cases hquote
    · -- Right after a value, the quote of the key makes no sense.
      rw [hkey] at hdone
      exact Reader.feed_ne_done_of_afterMember hafter hgap d' hdone
    · -- The brace opens an object, which is skipped as far as the record goes.
      rw [Reader.feed_append] at hdone
      split at hdone
      · rename_i r'' hfeed
        exact Reader.quiet_of_not_mem (not_mem_of_isSpace htail rfl) r''
          (Reader.feed_isSound hfeed hr') d' hdone
      · have hshadow : Reader.start.place.shadow outer = some ⟨.opened, .object :: outer⟩ := rfl
        exact hbody.feed_skipped hshadow trivial hopened _ ‹_›
      · cases hdone
  · cases (Reader.step_done ‹_›).1
  · cases hdone

end CompileCommands.Record
