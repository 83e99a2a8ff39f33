-- Strings of JSON, read byte by byte after the opening quote. The escapes
-- are replaced by what they stand for.
import CompileCommands.Json.Fault
import CompileCommands.Utf8

namespace CompileCommands.Json

/-! ## Hexadecimal digits -/

/-- The value of a hexadecimal digit. -/
def hexDigit? (b : UInt8) : Option Nat :=
  if 0x30 ≤ b && b ≤ 0x39 then some (b.toNat - 0x30)
  else if 0x41 ≤ b && b ≤ 0x46 then some (b.toNat - 0x41 + 10)
  else if 0x61 ≤ b && b ≤ 0x66 then some (b.toNat - 0x61 + 10)
  else none

/-- The number that hexadecimal digits write. -/
def hexNumber? (digits : List UInt8) : Option Nat :=
  digits.foldl (fun n b => do return (← n) * 16 + (← hexDigit? b)) (some 0)

/-- The first half of a surrogate pair. -/
def isHighSurrogate (n : Nat) : Bool := 0xD800 ≤ n && n < 0xDC00

/-- The second half of a surrogate pair. -/
def isLowSurrogate (n : Nat) : Bool := 0xDC00 ≤ n && n < 0xE000

/-- The code point of a surrogate pair. -/
def pairNumber (high low : Nat) : Nat := (high - 0xD800) * 0x400 + (low - 0xDC00) + 0x10000

/-! ## The reader -/

/-- Where in a string the reader stands. -/
inductive TextPlace
  | plain
  /-- After a backslash. -/
  | escape
  /-- Within the four digits of an escape, with those read so far, last one
  first, and the first half of a pair if one was read. -/
  | digits (high : Option Nat) (read : List UInt8)
  /-- After the first half of a pair. A backslash must follow. -/
  | pair (high : Nat)
  /-- After the first half of a pair and a backslash. -/
  | pairEscape (high : Nat)
  deriving DecidableEq, Repr

/-- A string that is read in part, its bytes last one first. -/
structure TextReader where
  place : TextPlace
  bytes : List UInt8
  deriving DecidableEq, Repr

/-- What one byte does to a string. -/
inductive TextStep
  | more (t : TextReader)
  /-- The closing quote. -/
  | closed (bytes : List UInt8)
  | fail (cause : Cause)
  deriving DecidableEq, Repr

namespace TextReader

/-- The reader after the opening quote. -/
def start : TextReader := ⟨.plain, []⟩

/-- The string with one byte more. -/
def push (t : TextReader) (b : UInt8) : TextReader := ⟨.plain, b :: t.bytes⟩

/-- The string with one character more. -/
def pushChar (t : TextReader) (number : Nat) : TextReader :=
  ⟨.plain, (String.utf8EncodeChar (Char.ofNat number)).reverse ++ t.bytes⟩

/-- The byte that a short escape stands for. -/
def shortEscape? (b : UInt8) : Option UInt8 :=
  if b = 0x22 ∨ b = 0x5C ∨ b = 0x2F then some b
  else if b = 0x62 then some 0x08
  else if b = 0x66 then some 0x0C
  else if b = 0x6E then some 0x0A
  else if b = 0x72 then some 0x0D
  else if b = 0x74 then some 0x09
  else none

/-- A number escape is complete. -/
def number (t : TextReader) (high : Option Nat) (n : Nat) : TextStep :=
  match high with
  | some h =>
    if isLowSurrogate n then .more (t.pushChar (pairNumber h n)) else .fail .loneSurrogate
  | none =>
    if isLowSurrogate n then .fail .loneSurrogate
    else if isHighSurrogate n then .more { t with place := .pair n }
    else .more (t.pushChar n)

/-- One byte more of a string. -/
def step (t : TextReader) (b : UInt8) : TextStep :=
  match t.place with
  | .plain =>
    if b = 0x22 then .closed t.bytes.reverse
    else if b = 0x5C then .more { t with place := .escape }
    else if b < 0x20 then .fail .controlCharacter
    else .more (t.push b)
  | .escape =>
    if b = 0x75 then .more { t with place := .digits none [] }
    else match shortEscape? b with
      | some c => .more (t.push c)
      | none => .fail .invalidEscape
  | .digits high read =>
    if read.length < 3 then .more { t with place := .digits high (b :: read) }
    else match hexNumber? (b :: read).reverse with
      | some n => t.number high n
      | none => .fail .invalidEscape
  | .pair high =>
    if b = 0x5C then .more { t with place := .pairEscape high } else .fail .unfinishedPair
  | .pairEscape high =>
    if b = 0x75 then .more { t with place := .digits (some high) [] } else .fail .unfinishedPair

end TextReader

/-- The text of the bytes of a string. If they do not decode, the number of
bytes from the first that does not is given. -/
def decodeText (bytes : List UInt8) : Except Nat String :=
  match Utf8.decodeStart bytes with
  | (cs, []) => .ok (String.ofList cs)
  | (_, left) => .error left.length

end CompileCommands.Json
