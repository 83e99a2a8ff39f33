-- What splitting does to any command, however badly it is quoted. No ordinary
-- character is lost, doubled or moved. A blank divides a command into two that can
-- be split apart just where no quote is open and no backslash waits for it.
import CompileCommands.Proofs.CommandLine.Quoting

namespace CompileCommands.CommandLine

/-! ## Ordinary characters -/

/-- Neither a blank, nor a quote, nor a backslash. -/
def isOrdinary (c : Char) : Bool := !Text.isBlank c && c != '\'' && c != '"' && c != '\\'

namespace Reading

/-- The ordinary characters of the argument under way, first one first. -/
def ordinary (r : Reading) : List Char := r.chars.reverse.filter isOrdinary

/-- The ordinary characters of an argument that is read to its end. -/
def ordinaryOf (word : Option (List Char)) : List Char :=
  (word.toList.map List.reverse).flatten.filter isOrdinary

theorem ordinaryOf_word (r : Reading) : ordinaryOf r.word = r.ordinary := by
  unfold ordinaryOf ordinary chars
  cases r.word <;> simp

theorem ordinary_push (mode : Mode) (r : Reading) (c : Char) :
    ordinary ⟨mode, r.push c⟩ = r.ordinary ++ [c].filter isOrdinary := by
  simp [ordinary, push, chars]

theorem ordinary_push_backslash (mode : Mode) (r : Reading) :
    ordinary ⟨mode, r.push '\\'⟩ = r.ordinary := by
  rw [ordinary_push]
  exact List.append_nil _

theorem ordinary_of_mark (r : Reading) {c : Char} (h : isOrdinary c = false) :
    r.ordinary = r.ordinary ++ [c].filter isOrdinary := by
  simp [h]

theorem plainStep_ordinary (r : Reading) (c : Char) :
    ordinaryOf (r.plainStep c).2 ++ (r.plainStep c).1.ordinary =
      r.ordinary ++ [c].filter isOrdinary := by
  unfold plainStep
  split
  · rename_i hblank
    rw [ordinaryOf_word]
    exact (List.append_nil _).trans (ordinary_of_mark r (by simp [isOrdinary, hblank]))
  split
  · exact ordinary_of_mark r (by simp [isOrdinary, *])
  split
  · exact ordinary_of_mark r (by simp [isOrdinary, *])
  split
  · exact ordinary_of_mark r (by simp [isOrdinary, *])
  · exact ordinary_push .plain r c

/-- A step neither loses an ordinary character nor makes one up. -/
theorem step_ordinary (r : Reading) (c : Char) :
    ordinaryOf (r.step c).2 ++ (r.step c).1.ordinary = r.ordinary ++ [c].filter isOrdinary := by
  unfold step
  cases r.mode with
  | plain => exact plainStep_ordinary r c
  | plainEscape =>
    dsimp only
    split
    · exact ordinary_push .plain r c
    · rw [plainStep_ordinary, ordinary_push_backslash]
  | single =>
    dsimp only
    split
    · exact ordinary_of_mark r (by simp [isOrdinary, *])
    · exact ordinary_push .single r c
  | double =>
    dsimp only
    split
    · exact ordinary_of_mark r (by simp [isOrdinary, *])
    split
    · exact ordinary_of_mark r (by simp [isOrdinary, *])
    · exact ordinary_push .double r c
  | doubleEscape =>
    dsimp only
    split
    · exact ordinary_push .double r c
    · have hpush := ordinary_push .double ⟨.double, r.push '\\'⟩ c
      rwa [ordinary_push_backslash] at hpush

theorem finish_ordinary (r : Reading) : ordinaryOf r.finish = r.ordinary := by
  unfold finish
  cases r.mode with
  | plainEscape | doubleEscape =>
    exact (ordinaryOf_word ⟨.plain, r.push '\\'⟩).trans (ordinary_push_backslash .plain r)
  | _ => exact ordinaryOf_word r

theorem words_ordinary (r : Reading) (cs : List Char) :
    (r.words cs).flatten.filter isOrdinary = r.ordinary ++ cs.filter isOrdinary := by
  induction cs generalizing r with
  | nil =>
    rw [List.filter_nil, List.append_nil]
    exact finish_ordinary r
  | cons c cs ih =>
    have hfirst : (c :: cs).filter isOrdinary = [c].filter isOrdinary ++ cs.filter isOrdinary :=
      List.filter_append [c] cs
    rw [words, List.flatten_append, List.filter_append, ih, hfirst, ← List.append_assoc,
      ← List.append_assoc, ← step_ordinary]
    rfl

end Reading

/-! ## Commands that are closed -/

/-- Text that can stand between two double quotes. A quote in it has a backslash
before it that is not itself escaped. -/
inductive IsInDouble : List Char → Prop
  | nil : IsInDouble []
  | char {c : Char} {rest : List Char} (quote : c ≠ '"') (backslash : c ≠ '\\')
      (closed : IsInDouble rest) : IsInDouble (c :: rest)
  | escape (c : Char) {rest : List Char} (closed : IsInDouble rest) :
      IsInDouble ('\\' :: c :: rest)

/-- A command that leaves no quote open and, outside quotes, does not end in a
backslash that is not itself escaped. A backslash takes the next character along,
whether or not that one has to be escaped. -/
inductive IsClosed : List Char → Prop
  | nil : IsClosed []
  | char {c : Char} {rest : List Char} (single : c ≠ '\'') (double : c ≠ '"')
      (backslash : c ≠ '\\') (closed : IsClosed rest) : IsClosed (c :: rest)
  | escape (c : Char) {rest : List Char} (closed : IsClosed rest) : IsClosed ('\\' :: c :: rest)
  | single {text rest : List Char} (inside : '\'' ∉ text) (closed : IsClosed rest) :
      IsClosed ('\'' :: (text ++ '\'' :: rest))
  | double {text rest : List Char} (inside : IsInDouble text) (closed : IsClosed rest) :
      IsClosed ('"' :: (text ++ '"' :: rest))

/-- What follows an open double quote: text, the quote that closes it, and a closed
command. -/
def ClosesDouble (cs : List Char) : Prop :=
  ∃ text rest, IsInDouble text ∧ IsClosed rest ∧ cs = text ++ '"' :: rest

/-- The rest of a command closes what is open in a mode. -/
def Mode.IsClosedBy : Mode → List Char → Prop
  | .plain, cs => IsClosed cs
  | .plainEscape, cs => ∃ c rest, IsClosed rest ∧ cs = c :: rest
  | .single, cs => ∃ text rest, '\'' ∉ text ∧ IsClosed rest ∧ cs = text ++ '\'' :: rest
  | .double, cs => ClosesDouble cs
  | .doubleEscape, cs => ∃ c rest, ClosesDouble rest ∧ cs = c :: rest

section Closed

variable {c : Char} {cs : List Char}

theorem isClosed_char_iff (single : c ≠ '\'') (double : c ≠ '"') (backslash : c ≠ '\\') :
    IsClosed (c :: cs) ↔ IsClosed cs := by
  refine ⟨fun h => ?_, .char single double backslash⟩
  cases h with
  | char _ _ _ closed => exact closed
  | escape => exact absurd rfl backslash
  | single => exact absurd rfl single
  | double => exact absurd rfl double

theorem isClosed_escape_iff : IsClosed ('\\' :: cs) ↔ Mode.plainEscape.IsClosedBy cs := by
  constructor
  · intro h
    cases h with
    | char _ _ backslash => exact absurd rfl backslash
    | escape c closed => exact ⟨c, _, closed, rfl⟩
  · rintro ⟨c, rest, closed, rfl⟩
    exact .escape c closed

theorem isClosed_single_iff : IsClosed ('\'' :: cs) ↔ Mode.single.IsClosedBy cs := by
  constructor
  · intro h
    cases h with
    | char single => exact absurd rfl single
    | single inside closed => exact ⟨_, _, inside, closed, rfl⟩
  · rintro ⟨text, rest, inside, closed, rfl⟩
    exact .single inside closed

theorem isClosed_double_iff : IsClosed ('"' :: cs) ↔ Mode.double.IsClosedBy cs := by
  constructor
  · intro h
    cases h with
    | char _ double => exact absurd rfl double
    | double inside closed => exact ⟨_, _, inside, closed, rfl⟩
  · rintro ⟨text, rest, inside, closed, rfl⟩
    exact .double inside closed

theorem single_isClosedBy_iff : Mode.single.IsClosedBy (c :: cs) ↔
    if c = '\'' then IsClosed cs else Mode.single.IsClosedBy cs := by
  split
  · rename_i hc
    subst hc
    constructor
    · rintro ⟨text, rest, inside, closed, hcs⟩
      cases text with
      | nil => exact (List.cons.inj hcs).2 ▸ closed
      | cons d text => exact absurd ((List.cons.inj hcs).1 ▸ List.mem_cons_self) inside
    · exact fun closed => ⟨[], cs, List.not_mem_nil, closed, rfl⟩
  · rename_i hc
    constructor
    · rintro ⟨text, rest, inside, closed, hcs⟩
      cases text with
      | nil => exact absurd (List.cons.inj hcs).1 hc
      | cons d text =>
        obtain ⟨-, hrest⟩ := List.cons.inj hcs
        exact ⟨text, rest, fun h => inside (List.mem_cons_of_mem d h), closed, hrest⟩
    · rintro ⟨text, rest, inside, closed, rfl⟩
      exact ⟨c :: text, rest, by simp [Ne.symm hc, inside], closed, rfl⟩

theorem double_isClosedBy_iff : Mode.double.IsClosedBy (c :: cs) ↔
    if c = '"' then IsClosed cs
    else if c = '\\' then Mode.doubleEscape.IsClosedBy cs else Mode.double.IsClosedBy cs := by
  constructor
  · rintro ⟨text, rest, inside, closed, hcs⟩
    cases inside with
    | nil =>
      obtain ⟨rfl, rfl⟩ := List.cons.inj hcs
      exact closed
    | char quote backslash inside =>
      obtain ⟨rfl, rfl⟩ := List.cons.inj hcs
      rw [if_neg quote, if_neg backslash]
      exact ⟨_, rest, inside, closed, rfl⟩
    | escape d inside =>
      obtain ⟨rfl, rfl⟩ := List.cons.inj hcs
      exact ⟨d, _, ⟨_, rest, inside, closed, rfl⟩, rfl⟩
  · split
    · rename_i hc
      subst hc
      exact fun closed => ⟨[], cs, .nil, closed, rfl⟩
    split
    · rename_i hc
      subst hc
      rintro ⟨d, -, ⟨text, rest, inside, closed, rfl⟩, rfl⟩
      exact ⟨'\\' :: d :: text, rest, .escape d inside, closed, rfl⟩
    · rename_i hquote hbackslash
      rintro ⟨text, rest, inside, closed, rfl⟩
      exact ⟨c :: text, rest, .char hquote hbackslash inside, closed, rfl⟩

theorem isClosedBy_nil_iff (mode : Mode) : mode.IsClosedBy [] ↔ mode = .plain := by
  cases mode with
  | plain => exact iff_of_true .nil rfl
  | _ => simp [Mode.IsClosedBy, ClosesDouble]

end Closed

/-! ## The reading of a closed command -/

namespace Reading

theorem plainStep_isClosedBy (r : Reading) (c : Char) (cs : List Char) :
    (r.plainStep c).1.mode.IsClosedBy cs ↔ IsClosed (c :: cs) := by
  unfold plainStep
  split
  · rename_i hblank
    have hplain : ∀ mark : Char, Text.isBlank mark = false → c ≠ mark := by
      rintro mark hmark rfl
      rw [hmark] at hblank
      cases hblank
    exact (isClosed_char_iff (hplain _ (by decide)) (hplain _ (by decide))
      (hplain _ (by decide))).symm
  split
  · rename_i hc
    subst hc
    exact isClosed_single_iff.symm
  split
  · rename_i hc
    subst hc
    exact isClosed_double_iff.symm
  split
  · rename_i hc
    subst hc
    exact isClosed_escape_iff.symm
  · exact (isClosed_char_iff ‹_› ‹_› ‹_›).symm

/-- A step leaves as much open as its character does. -/
theorem step_isClosedBy (r : Reading) (c : Char) (cs : List Char) :
    (r.step c).1.mode.IsClosedBy cs ↔ r.mode.IsClosedBy (c :: cs) := by
  unfold step
  cases r.mode with
  | plain => exact plainStep_isClosedBy r c cs
  | plainEscape =>
    have hrest : Mode.plainEscape.IsClosedBy (c :: cs) ↔ IsClosed cs := by
      simp [Mode.IsClosedBy]
    rw [hrest]
    dsimp only
    split
    · rfl
    · rename_i hmarks
      obtain ⟨hdouble, hsingle, hbackslash, -⟩ : c ≠ '"' ∧ c ≠ '\'' ∧ c ≠ '\\' ∧ c ≠ ' ' := by
        simpa using hmarks
      rw [plainStep_isClosedBy, isClosed_char_iff hsingle hdouble hbackslash]
  | single =>
    rw [single_isClosedBy_iff]
    dsimp only
    split <;> rfl
  | double =>
    rw [double_isClosedBy_iff]
    dsimp only
    split
    · rfl
    split <;> rfl
  | doubleEscape =>
    have hrest : Mode.doubleEscape.IsClosedBy (c :: cs) ↔ Mode.double.IsClosedBy cs := by
      simp [Mode.IsClosedBy]
    rw [hrest]
    dsimp only
    split <;> rfl

/-- The reading behind some characters. -/
def after (r : Reading) (cs : List Char) : Reading := cs.foldl (fun r c => (r.step c).1) r

theorem after_mode_iff (r : Reading) (cs : List Char) :
    (r.after cs).mode = .plain ↔ r.mode.IsClosedBy cs := by
  induction cs generalizing r with
  | nil => exact (isClosedBy_nil_iff r.mode).symm
  | cons c cs ih => exact (ih (r.step c).1).trans (step_isClosedBy r c cs)

/-! ## Two commands in a row -/

/-- The arguments that some characters complete. -/
def completed (r : Reading) : List Char → List (List Char)
  | [] => []
  | c :: cs => (r.step c).2.toList.map List.reverse ++ (r.step c).1.completed cs

theorem words_append (r : Reading) (cs ds : List Char) :
    r.words (cs ++ ds) = r.completed cs ++ (r.after cs).words ds := by
  induction cs generalizing r with
  | nil => rfl
  | cons c cs ih =>
    have hstep : r.words (c :: (cs ++ ds)) =
        (r.step c).2.toList.map List.reverse ++ (r.step c).1.words (cs ++ ds) := rfl
    rw [List.cons_append, hstep, ih, completed, List.append_assoc]
    rfl

theorem words_of_plain {r : Reading} {blank : Char} (h : r.mode = .plain)
    (hblank : Text.isBlank blank = true) (cs : List Char) :
    r.words (blank :: cs) = r.words [] ++ start.words cs := by
  obtain ⟨mode, word⟩ := r
  obtain rfl : mode = .plain := h
  exact words_blank hblank word cs

/-- A space goes into an argument that is open, or it takes a backslash back. -/
theorem words_space_ne {r : Reading} (h : r.mode ≠ .plain) : r.words [' '] ≠ r.words [] := by
  obtain ⟨mode, word⟩ := r
  cases mode with
  | plain => exact absurd rfl h
  | plainEscape | single | double | doubleEscape =>
    cases word <;> simp [words, step, finish, push, chars]

end Reading

/-! ## Splitting -/

theorem join_split_ordinary (command : String) :
    (String.join (split command)).toList.filter isOrdinary =
      command.toList.filter isOrdinary := by
  have hjoin : (String.join (split command)).toList = (splitChars command.toList).flatten := by
    rw [String.toList_join, split, List.flatMap_map]
    simp [List.flatMap_id']
  rw [hjoin]
  exact Reading.words_ordinary .start command.toList

section Front

variable {front : String}

theorem isClosed_iff_after :
    IsClosed front.toList ↔ (Reading.start.after front.toList).mode = .plain :=
  (Reading.after_mode_iff .start front.toList).symm

theorem splitChars_append (front back : List Char) :
    splitChars (front ++ back) =
      Reading.start.completed front ++ (Reading.start.after front).words back :=
  Reading.words_append .start front back

theorem splitChars_front (front : List Char) :
    splitChars front = Reading.start.completed front ++ (Reading.start.after front).words [] := by
  rw [← splitChars_append, List.append_nil]

theorem split_of_isClosed {blank : Char} (h : IsClosed front.toList)
    (hblank : Text.isBlank blank = true) (back : String) :
    split (front.push blank ++ back) = split front ++ split back := by
  have hchars : (front.push blank ++ back).toList = front.toList ++ blank :: back.toList := by
    simp
  have hwords := Reading.words_of_plain (isClosed_iff_after.mp h) hblank back.toList
  unfold split
  rw [hchars, splitChars_append, hwords, ← List.append_assoc, ← splitChars_front, List.map_append]
  rfl

/-- A space behind a command that is not closed is not the end of an argument. -/
theorem isClosed_of_split (h : split (front.push ' ') = split front) : IsClosed front.toList := by
  rw [isClosed_iff_after]
  refine Decidable.byContradiction fun hopen => Reading.words_space_ne hopen ?_
  have hchars : (front.push ' ').toList = front.toList ++ [' '] := by simp
  unfold split at h
  have hwords := (List.map_inj_right fun _ _ => String.ofList_inj.mp).mp h
  rw [hchars, splitChars_append, splitChars_front] at hwords
  exact List.append_cancel_left hwords

end Front

/-- Of every command, the ordinary characters stand in its arguments, in their order.
A command can be split apart from what follows behind a blank, whatever that is, just
if it is closed. -/
theorem split_conserves :
    (∀ command, (String.join (split command)).toList.filter isOrdinary =
      command.toList.filter isOrdinary) ∧
    ∀ front : String, IsClosed front.toList ↔
      ∀ (blank : Char) (back : String), Text.isBlank blank = true →
        split (front.push blank ++ back) = split front ++ split back := by
  refine ⟨join_split_ordinary, fun front => ?_⟩
  constructor
  · exact fun hclosed blank back hblank => split_of_isClosed hclosed hblank back
  · intro hsplit
    have hnone : split "" = [] := by decide
    have hspace := hsplit ' ' "" (by decide)
    rw [hnone, List.append_nil, String.append_empty] at hspace
    exact isClosed_of_split hspace

/-- A closed command, though it has a quote between quotes and a backslash before a
tab. What follows it leaves a quote open and ends in a backslash. -/
theorem split_conserves_badlyQuoted :
    IsClosed "a\\ '\"b'\\\tc".toList ∧ Text.isBlank '\n' = true ∧
      split ("a\\ '\"b'\\\tc".push '\n' ++ "d\"e f\\") =
        split "a\\ '\"b'\\\tc" ++ split "d\"e f\\" ∧
      split "a\\ '\"b'\\\tc" = ["a \"b\\", "c"] ∧ split "d\"e f\\" = ["de f\\"] := by
  have hclosed : IsClosed "a\\ '\"b'\\\tc".toList := by
    refine .char (by decide) (by decide) (by decide) (.escape ' ' ?_)
    refine @IsClosed.single ['"', 'b'] _ (by decide) (.escape '\t' ?_)
    exact .char (by decide) (by decide) (by decide) .nil
  have hblank : Text.isBlank '\n' = true := by decide
  have hsplit := (split_conserves.2 "a\\ '\"b'\\\tc").mp hclosed '\n' "d\"e f\\" hblank
  exact ⟨hclosed, hblank, hsplit, by decide +kernel, by decide +kernel⟩

end CompileCommands.CommandLine
