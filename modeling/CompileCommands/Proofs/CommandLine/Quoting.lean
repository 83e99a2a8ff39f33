-- Commands as they are written. An argument is written in segments, each of
-- them between quotes of either kind or outside quotes, and blanks stand
-- between the arguments. Splitting such a command gives its arguments back.
import CompileCommands.CommandLine

namespace CompileCommands.CommandLine

/-! ## Written commands -/

/-- A character, behind a backslash if it is one of the marked ones. -/
def escape (marked : List Char) (c : Char) : List Char :=
  if c ∈ marked then ['\\', c] else [c]

/-- What has to be escaped between double quotes. -/
def markedInDouble : List Char := ['"', '\\']

/-- What has to be escaped outside quotes. -/
def markedInPlain : List Char := ['"', '\'', '\\', ' ']

/-- A stretch of text within an argument, and the manner in which it is
written. Between single quotes nothing can be escaped, and outside quotes the
space is the only blank that can. -/
inductive Segment
  | double (text : List Char)
  | single (text : List Char) (unquoted : '\'' ∉ text)
  | plain (text : List Char) (nonempty : text ≠ [])
      (unbroken : ∀ c ∈ text, Text.isBlank c = true → c = ' ')

namespace Segment

def text : Segment → List Char
  | double text | single text _ | plain text _ _ => text

def written : Segment → List Char
  | double text => '"' :: text.flatMap (escape markedInDouble) ++ ['"']
  | single text _ => '\'' :: text ++ ['\'']
  | plain text _ _ => text.flatMap (escape markedInPlain)

end Segment

/-- An argument as it is written: at least one segment, and nothing between
two of them. -/
structure Argument where
  segments : List Segment
  nonempty : segments ≠ []

namespace Argument

def text (a : Argument) : List Char := a.segments.flatMap Segment.text

def written (a : Argument) : List Char := a.segments.flatMap Segment.written

end Argument

/-- A command as it is written: blanks in front, and arguments with the blanks
that follow them. Only the last argument need not be followed by any. -/
structure Line where
  front : List Char
  arguments : List (Argument × List Char)
  front_blank : ∀ c ∈ front, Text.isBlank c = true
  gaps_blank : ∀ a ∈ arguments, ∀ c ∈ a.2, Text.isBlank c = true
  separated : ∀ a ∈ arguments.dropLast, a.2 ≠ []

namespace Line

/-- The text of the command. -/
def written (l : Line) : String :=
  String.ofList (l.front ++ l.arguments.flatMap fun a => a.1.written ++ a.2)

/-- The arguments that the command stands for. -/
def texts (l : Line) : List String := l.arguments.map fun a => String.ofList a.1.text

end Line

theorem exists_texts_eq (texts : List String) : ∃ l : Line, l.texts = texts := by
  refine ⟨⟨[], texts.map fun text => (⟨[.double text.toList], by simp⟩, [' ']), nofun, ?_, ?_⟩, ?_⟩
  · intro a ha c hc
    obtain ⟨text, -, rfl⟩ := List.mem_map.mp ha
    rw [List.mem_singleton.mp hc]
    decide
  · intro a ha
    obtain ⟨text, -, rfl⟩ := List.mem_map.mp (List.dropLast_subset _ ha)
    exact List.cons_ne_nil _ _
  · simp [Line.texts, Argument.text, Segment.text, Function.comp_def]

/-! ## Reading one segment -/

namespace Reading

/-- The command goes on behind a character that completes no argument. -/
theorem words_cons {r next : Reading} {c : Char} (h : r.step c = (next, none)) (rest : List Char) :
    r.words (c :: rest) = next.words rest := by
  rw [words, h]
  rfl

theorem words_double (text word rest : List Char) :
    words ⟨.double, some word⟩ (text.flatMap (escape markedInDouble) ++ '"' :: rest) =
      words ⟨.plain, some (text.reverse ++ word)⟩ rest := by
  induction text generalizing word with
  | nil => exact words_cons rfl rest
  | cons c text ih =>
    rw [List.flatMap_cons, List.append_assoc, escape, List.reverse_cons, List.append_assoc]
    split
    · rename_i hmarked
      have hc : c = '"' ∨ c = '\\' := by simpa [markedInDouble] using hmarked
      have hstep : step ⟨.doubleEscape, some word⟩ c = (⟨.double, some (c :: word)⟩, none) :=
        if_pos hc
      rw [List.cons_append, words_cons rfl]
      exact (words_cons hstep _).trans (ih _)
    · rename_i hplain
      have hc : c ≠ '"' ∧ c ≠ '\\' := by simpa [markedInDouble] using hplain
      have hstep : step ⟨.double, some word⟩ c = (⟨.double, some (c :: word)⟩, none) := by
        simp [step, hc.1, hc.2, push, chars]
      exact (words_cons hstep _).trans (ih _)

theorem words_single {text : List Char} (htext : '\'' ∉ text) (word rest : List Char) :
    words ⟨.single, some word⟩ (text ++ '\'' :: rest) =
      words ⟨.plain, some (text.reverse ++ word)⟩ rest := by
  induction text generalizing word with
  | nil => exact words_cons rfl rest
  | cons c text ih =>
    obtain ⟨hc, htext⟩ := not_or.mp (fun h => htext (List.mem_cons.mpr h))
    have hstep : step ⟨.single, some word⟩ c = (⟨.single, some (c :: word)⟩, none) :=
      if_neg (Ne.symm hc)
    rw [List.reverse_cons, List.append_assoc]
    exact (words_cons hstep _).trans (ih htext _)

/-- A character outside quotes begins an argument, or goes on with one. -/
theorem words_plain_char {c : Char} (hc : Text.isBlank c = true → c = ' ')
    (word : Option (List Char)) (rest : List Char) :
    words ⟨.plain, word⟩ (escape markedInPlain c ++ rest) =
      words ⟨.plain, some (c :: word.getD [])⟩ rest := by
  rw [escape]
  split
  · rename_i hmarked
    have hc : c = '"' ∨ c = '\'' ∨ c = '\\' ∨ c = ' ' := by
      simpa [markedInPlain] using hmarked
    have hstep : step ⟨.plainEscape, some (word.getD [])⟩ c =
        (⟨.plain, some (c :: word.getD [])⟩, none) := if_pos hc
    rw [List.cons_append, words_cons rfl]
    exact words_cons hstep rest
  · rename_i hplain
    have hc' : c ≠ '"' ∧ c ≠ '\'' ∧ c ≠ '\\' ∧ c ≠ ' ' := by
      simpa [markedInPlain] using hplain
    obtain ⟨hdouble, hsingle, hbackslash, hspace⟩ := hc'
    have hblank : ¬Text.isBlank c = true := fun h => hspace (hc h)
    have hstep : step ⟨.plain, word⟩ c = (⟨.plain, some (c :: word.getD [])⟩, none) := by
      simp [step, plainStep, hblank, hsingle, hdouble, hbackslash, push, chars]
    exact words_cons hstep rest

theorem words_plain {text : List Char} (htext : ∀ c ∈ text, Text.isBlank c = true → c = ' ')
    (word rest : List Char) :
    words ⟨.plain, some word⟩ (text.flatMap (escape markedInPlain) ++ rest) =
      words ⟨.plain, some (text.reverse ++ word)⟩ rest := by
  induction text generalizing word with
  | nil => rfl
  | cons c text ih =>
    obtain ⟨hc, htext⟩ := List.forall_mem_cons.mp htext
    rw [List.flatMap_cons, List.append_assoc, words_plain_char hc, ih htext, List.reverse_cons,
      List.append_assoc]
    rfl

/-- A segment adds its text to the argument under way, and begins one even if
its text is empty. -/
theorem words_segment (s : Segment) (word : Option (List Char)) (rest : List Char) :
    words ⟨.plain, word⟩ (s.written ++ rest) =
      words ⟨.plain, some (s.text.reverse ++ word.getD [])⟩ rest := by
  cases s with
  | double text =>
    rw [Segment.written, List.cons_append, List.cons_append, List.append_assoc, words_cons rfl]
    exact words_double text _ rest
  | single text htext =>
    rw [Segment.written, List.cons_append, List.cons_append, List.append_assoc, words_cons rfl]
    exact words_single htext _ rest
  | plain text hne htext =>
    obtain ⟨c, text, rfl⟩ := List.exists_cons_of_ne_nil hne
    obtain ⟨hc, htext⟩ := List.forall_mem_cons.mp htext
    rw [Segment.written, Segment.text, List.flatMap_cons, List.append_assoc, words_plain_char hc,
      words_plain htext, List.reverse_cons, List.append_assoc]
    rfl

/-! ## Reading a command -/

theorem words_segments (segments : List Segment) (word rest : List Char) :
    words ⟨.plain, some word⟩ (segments.flatMap Segment.written ++ rest) =
      words ⟨.plain, some ((segments.flatMap Segment.text).reverse ++ word)⟩ rest := by
  induction segments generalizing word with
  | nil => rfl
  | cons s segments ih =>
    rw [List.flatMap_cons, List.append_assoc, words_segment, ih, List.flatMap_cons,
      List.reverse_append, List.append_assoc]
    rfl

theorem words_argument (a : Argument) (rest : List Char) :
    words ⟨.plain, none⟩ (a.written ++ rest) = words ⟨.plain, some a.text.reverse⟩ rest := by
  obtain ⟨segments, hne⟩ := a
  obtain ⟨s, segments, rfl⟩ := List.exists_cons_of_ne_nil hne
  rw [Argument.written, Argument.text, List.flatMap_cons, List.append_assoc, words_segment,
    words_segments, List.flatMap_cons, List.reverse_append]
  simp

/-- A blank ends the argument under way. -/
theorem words_blank {c : Char} (hc : Text.isBlank c = true) (word : Option (List Char))
    (rest : List Char) : words ⟨.plain, word⟩ (c :: rest) =
      word.toList.map List.reverse ++ words ⟨.plain, none⟩ rest := by
  have hstep : step ⟨.plain, word⟩ c = (⟨.plain, none⟩, word) := if_pos hc
  rw [words, hstep]

theorem words_blanks {gap : List Char} (hgap : ∀ c ∈ gap, Text.isBlank c = true)
    (rest : List Char) : words ⟨.plain, none⟩ (gap ++ rest) = words ⟨.plain, none⟩ rest := by
  induction gap with
  | nil => rfl
  | cons c gap ih =>
    obtain ⟨hc, hgap⟩ := List.forall_mem_cons.mp hgap
    exact (words_blank hc none _).trans (ih hgap)

/-- An argument ends at a gap, or with the command. -/
theorem words_gap {gap rest : List Char} (hgap : ∀ c ∈ gap, Text.isBlank c = true)
    (hend : gap = [] → rest = []) (word : List Char) :
    words ⟨.plain, some word⟩ (gap ++ rest) = word.reverse :: words ⟨.plain, none⟩ rest := by
  cases gap with
  | nil =>
    rw [hend rfl]
    rfl
  | cons c gap =>
    obtain ⟨hc, hgap⟩ := List.forall_mem_cons.mp hgap
    rw [List.cons_append, words_blank hc, words_blanks hgap]
    rfl

theorem words_arguments {arguments : List (Argument × List Char)}
    (hgaps : ∀ a ∈ arguments, ∀ c ∈ a.2, Text.isBlank c = true)
    (hseparated : ∀ a ∈ arguments.dropLast, a.2 ≠ []) :
    words ⟨.plain, none⟩ (arguments.flatMap fun a => a.1.written ++ a.2) =
      arguments.map fun a => a.1.text := by
  induction arguments with
  | nil => rfl
  | cons a arguments ih =>
    obtain ⟨hgap, hgaps⟩ := List.forall_mem_cons.mp hgaps
    -- Without blanks after it, this argument is the last one.
    have hend : a.2 = [] → (arguments.flatMap fun a => a.1.written ++ a.2) = [] := by
      intro hnone
      cases arguments with
      | nil => rfl
      | cons b arguments => exact absurd hnone (hseparated a List.mem_cons_self)
    have hseparated' : ∀ b ∈ arguments.dropLast, b.2 ≠ [] := by
      intro b hb
      cases arguments with
      | nil => cases hb
      | cons c arguments => exact hseparated b (List.mem_cons_of_mem a hb)
    rw [List.flatMap_cons, List.append_assoc, words_argument, words_gap hgap hend,
      ih hgaps hseparated', List.reverse_reverse, List.map_cons]

end Reading

/-- Every list of arguments can be written, and splitting a written command
gives the arguments that it stands for. -/
theorem split_written : (∀ texts, ∃ l : Line, l.texts = texts) ∧
    ∀ l : Line, split l.written = l.texts := by
  refine ⟨exists_texts_eq, fun l => ?_⟩
  unfold split splitChars Line.written Line.texts Reading.start
  rw [String.toList_ofList, Reading.words_blanks l.front_blank,
    Reading.words_arguments l.gaps_blank l.separated, List.map_map]
  rfl

example : split " a\\ \"b\\\"\"'\\'c\t\"\"" = ["a b\"\\c", ""] := by decide

end CompileCommands.CommandLine
