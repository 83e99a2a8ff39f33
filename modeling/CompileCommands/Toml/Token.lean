-- The tokens of a TOML text. A text is cut into tokens one character at a
-- time; what a token means is decided where it stands.

namespace CompileCommands.Toml

/-! ## Tokens -/

/-- A piece of a text. -/
inductive Token
  | space
  | tab
  | newline
  /-- A comment, without the newline behind it. -/
  | comment
  /-- Letters, digits, and the signs that stand in dates and numbers. -/
  | word (chars : List Char)
  | dot
  | equals
  | comma
  | openBracket
  | closeBracket
  | openBrace
  | closeBrace
  /-- A text in quotes. Only a text on one line may be a key. -/
  | text (s : String) (oneLine : Bool)
  deriving DecidableEq, Repr

/-! ## Classes of characters -/

/-- A character that stands in keys without quotes. -/
def isKeyChar (c : Char) : Bool := c.isAlphanum || c == '-' || c == '_'

/-- A character that stands in a word. -/
def isWordChar (c : Char) : Bool := isKeyChar c || c == '+' || c == ':'

/-- A character that may stand in a comment, or in a text on one line. -/
def isPrintable (c : Char) : Bool :=
  c == '\t' || (0x20 ≤ c.toNat && c.toNat ≤ 0x7E) || 0x80 ≤ c.toNat

/-- The value of a hexadecimal digit. -/
def hexValue? (c : Char) : Option Nat :=
  if c.isDigit then some (c.toNat - '0'.toNat)
  else if 'a' ≤ c ∧ c ≤ 'f' then some (c.toNat - 'a'.toNat + 10)
  else if 'A' ≤ c ∧ c ≤ 'F' then some (c.toNat - 'A'.toNat + 10)
  else none

/-- The character with a number, if there is one. -/
def charOf? (n : Nat) : Option Char := if n.isValidChar then some (Char.ofNat n) else none

/-- The character that a letter after a backslash stands for. -/
def escaped? : Char → Option Char
  | 'b' => some '\x08'
  | 'f' => some '\x0c'
  | 'n' => some '\n'
  | 'r' => some '\r'
  | 't' => some '\t'
  | '\\' => some '\\'
  | '"' => some '"'
  | _ => none

/-! ## Reading -/

/-- A text in quotes that is read in part, last character first. -/
structure Quotation where
  mark : Char
  oneLine : Bool
  chars : List Char
  deriving DecidableEq, Repr

namespace Quotation

/-- One character more. -/
def push (q : Quotation) (c : Char) : Quotation := { q with chars := c :: q.chars }

/-- Some quotation marks more. -/
def pushMarks (q : Quotation) (count : Nat) : Quotation :=
  { q with chars := List.replicate count q.mark ++ q.chars }

/-- The token of a text that is read to its end. -/
def token (q : Quotation) : Token := .text (String.ofList q.chars.reverse) q.oneLine

end Quotation

/-- Where reading stands. -/
inductive Lexing
  | plain
  | comment
  /-- In a word, last character first. -/
  | word (chars : List Char)
  /-- After one or two quotation marks. -/
  | opened (mark : Char) (two : Bool)
  /-- After three quotation marks. -/
  | firstLine (mark : Char)
  | quotation (q : Quotation)
  /-- After some quotation marks in a text of many lines. -/
  | closing (q : Quotation) (count : Nat)
  | escape (q : Quotation)
  /-- So many hexadecimal digits are still to come. -/
  | number (q : Quotation) (left value : Nat)
  /-- After a backslash and blanks, before the end of the line. -/
  | lineEnd (q : Quotation)
  /-- After a backslash and the end of its line. -/
  | skipping (q : Quotation)
  deriving DecidableEq, Repr

namespace Lexing

/-- Where reading stands, and the tokens that are complete. -/
abbrev Step := Option (Lexing × List Token)

/-- A character outside comments, words and quotes. -/
def plainStep (c : Char) : Step :=
  match c with
  | ' ' => some (.plain, [.space])
  | '\t' => some (.plain, [.tab])
  | '\n' => some (.plain, [.newline])
  | '#' => some (.comment, [.comment])
  | '.' => some (.plain, [.dot])
  | '=' => some (.plain, [.equals])
  | ',' => some (.plain, [.comma])
  | '[' => some (.plain, [.openBracket])
  | ']' => some (.plain, [.closeBracket])
  | '\x7b' => some (.plain, [.openBrace])
  | '\x7d' => some (.plain, [.closeBrace])
  | '"' => some (.opened '"' false, [])
  | '\'' => some (.opened '\'' false, [])
  | c => if isWordChar c then some (.word [c], []) else none

/-- A character after a token that ends before it. -/
def after (token : Token) (c : Char) : Step :=
  (plainStep c).map (fun (next, tokens) => (next, token :: tokens))

/-- A character in a text. A backslash counts only between double quotes, and
a newline is only in a text of many lines. -/
def quotationStep (q : Quotation) (c : Char) : Step :=
  if c = q.mark then
    if q.oneLine then some (.plain, [q.token]) else some (.closing q 1, [])
  else if c = '\\' ∧ q.mark = '"' then some (.escape q, [])
  else if c = '\n' then if q.oneLine then none else some (.quotation (q.push c), [])
  else if isPrintable c then some (.quotation (q.push c), [])
  else none

/-- A character after some quotation marks in a text of many lines. Three of
them end the text, and up to two may stand before those. -/
def closingStep (q : Quotation) (count : Nat) (c : Char) : Step :=
  if c = q.mark then if count < 5 then some (.closing q (count + 1), []) else none
  else if count < 3 then quotationStep (q.pushMarks count) c
  else after (q.pushMarks (count - 3)).token c

/-- A character after a backslash. -/
def escapeStep (q : Quotation) (c : Char) : Step :=
  if c = 'u' then some (.number q 4 0, [])
  else if c = 'U' then some (.number q 8 0, [])
  else if !q.oneLine && c == '\n' then some (.skipping q, [])
  else if !q.oneLine && (c == ' ' || c == '\t') then some (.lineEnd q, [])
  else (escaped? c).map (fun c => (.quotation (q.push c), []))

/-- A digit of the number of a character. -/
def numberStep (q : Quotation) (left value : Nat) (c : Char) : Step := do
  let digit ← hexValue? c
  let value := value * 16 + digit
  if left ≤ 1 then return (.quotation (q.push (← charOf? value)), [])
  else return (.number q (left - 1) value, [])

/-- One character more. -/
def step (state : Lexing) (c : Char) : Step :=
  match state with
  | .plain => plainStep c
  | .comment =>
    if c = '\n' then plainStep c else if isPrintable c then some (.comment, []) else none
  | .word chars =>
    if isWordChar c then some (.word (c :: chars), []) else after (.word chars.reverse) c
  | .opened mark false =>
    if c = mark then some (.opened mark true, []) else quotationStep ⟨mark, true, []⟩ c
  | .opened mark true =>
    if c = mark then some (.firstLine mark, []) else after (.text "" true) c
  | .firstLine mark =>
    if c = '\n' then some (.quotation ⟨mark, false, []⟩, [])
    else quotationStep ⟨mark, false, []⟩ c
  | .quotation q => quotationStep q c
  | .closing q count => closingStep q count c
  | .escape q => escapeStep q c
  | .number q left value => numberStep q left value c
  | .lineEnd q =>
    if c = '\n' then some (.skipping q, [])
    else if c = ' ' ∨ c = '\t' then some (.lineEnd q, [])
    else none
  | .skipping q =>
    if c = ' ' ∨ c = '\t' ∨ c = '\n' then some (.skipping q, []) else quotationStep q c

/-- The tokens that the end of the text completes. -/
def finish : Lexing → Option (List Token)
  | .plain | .comment => some []
  | .word chars => some [.word chars.reverse]
  | .opened _ true => some [.text "" true]
  | .closing q count => if 3 ≤ count then some [(q.pushMarks (count - 3)).token] else none
  | _ => none

/-- The tokens of the characters that are left. -/
def tokens (state : Lexing) : List Char → Option (List Token)
  | [] => state.finish
  | c :: rest => do
    let (next, done) ← state.step c
    return done ++ (← next.tokens rest)

end Lexing

/-! ## Whole texts -/

/-- The characters with each line end made a newline. A carriage return stands
nowhere else. -/
def withNewlines : List Char → Option (List Char)
  | [] => some []
  | '\r' :: '\n' :: rest => (withNewlines rest).map ('\n' :: ·)
  | '\r' :: _ => none
  | c :: rest => (withNewlines rest).map (c :: ·)

/-- The characters without the mark that may start a file. -/
def withoutMark : List Char → List Char
  | '\ufeff' :: rest => rest
  | chars => chars

/-- The tokens of a text, if all of it is made of tokens. -/
def tokens? (text : String) : Option (List Token) := do
  Lexing.plain.tokens (← withNewlines (withoutMark text.toList))

end CompileCommands.Toml
