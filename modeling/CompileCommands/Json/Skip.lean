-- Values of JSON that nobody asked for. Their form is checked and their
-- content is not: a skipped string may hold any bytes, and a skipped number
-- may have any size. Brackets may be nested to any depth.
import CompileCommands.Json.Number
import CompileCommands.Json.TextReader

namespace CompileCommands.Json

/-- A byte between two tokens. -/
def isSpace (b : UInt8) : Bool := b == 0x20 || b == 0x0A || b == 0x09 || b == 0x0D

/-- What stands after the first letter of `null`. -/
def afterN : List UInt8 := [0x75, 0x6C, 0x6C]

/-- What stands after the first letter of `true`. -/
def afterT : List UInt8 := [0x72, 0x75, 0x65]

/-- What stands after the first letter of `false`. -/
def afterF : List UInt8 := [0x61, 0x6C, 0x73, 0x65]

/-- An open bracket. -/
inductive Frame
  | list
  | object
  deriving DecidableEq, Repr

/-- Where in a skipped string the reader stands. -/
inductive SkippedText
  | plain
  | escape
  /-- Within the four digits of an escape, with those read so far, last one
  first. -/
  | digits (read : List UInt8)
  deriving DecidableEq, Repr

/-- Where in a skipped value the reader stands. -/
inductive SkipPlace
  /-- Before a value. -/
  | value
  /-- After an opening bracket. -/
  | opened
  /-- After a value in a bracket. -/
  | after
  /-- Before a key, after a comma. -/
  | key
  /-- After a key. -/
  | colon
  | text (isKey : Bool) (t : SkippedText)
  /-- Within a word, of which these bytes are left. -/
  | word (left : List UInt8)
  | number (place : NumberPlace)
  deriving DecidableEq, Repr

/-- A value that is skipped in part, and the brackets that are open, the
innermost first. -/
structure Skip where
  place : SkipPlace
  frames : List Frame
  deriving DecidableEq, Repr

/-- What one byte does to a skipped value. -/
inductive SkipStep
  | more (s : Skip)
  /-- The value ends with this byte. -/
  | ended
  /-- The value ended before this byte. -/
  | endedBefore
  /-- The value is no value. The fault is told of the place this many bytes
  back. -/
  | fail (cause : Cause) (back : Nat)
  deriving DecidableEq, Repr

namespace Skip

/-- A value is complete. -/
def complete : List Frame → SkipStep
  | [] => .ended
  | frames => .more ⟨.after, frames⟩

/-- The first byte of a value. -/
def start (frames : List Frame) (b : UInt8) : SkipStep :=
  if b = 0x6E then .more ⟨.word afterN, frames⟩
  else if b = 0x74 then .more ⟨.word afterT, frames⟩
  else if b = 0x66 then .more ⟨.word afterF, frames⟩
  else if b = 0x22 then .more ⟨.text false .plain, frames⟩
  else if b = 0x5B then .more ⟨.opened, .list :: frames⟩
  else if b = 0x7B then .more ⟨.opened, .object :: frames⟩
  else match NumberPlace.ofFirst? b with
    | some place => .more ⟨.number place, frames⟩
    | none => .fail .expectedValue 0

/-- The first byte in a bracket that is not a space. -/
def inside (frames : List Frame) (b : UInt8) : SkipStep :=
  match frames with
  | [] => .ended
  | .list :: outer => if b = 0x5D then complete outer else start frames b
  | .object :: outer =>
    if b = 0x7D then complete outer
    else if b = 0x22 then .more ⟨.text true .plain, frames⟩
    else .fail .keyNotText 0

/-- The first byte after a value in a bracket that is not a space. -/
def behind (frames : List Frame) (b : UInt8) : SkipStep :=
  match frames with
  | [] => .endedBefore
  | .list :: outer =>
    if b = 0x2C then .more ⟨.value, frames⟩
    else if b = 0x5D then complete outer
    else .fail .expectedListEnd 0
  | .object :: outer =>
    if b = 0x2C then .more ⟨.key, frames⟩
    else if b = 0x7D then complete outer
    else .fail .expectedObjectEnd 0

/-- One byte after a value, within a bracket or not. -/
def afterStep (frames : List Frame) (b : UInt8) : SkipStep :=
  match frames with
  | [] => .endedBefore
  | frames => if isSpace b then .more ⟨.after, frames⟩ else behind frames b

/-- One byte of a skipped string. A control character is told of the place
before it. -/
def textStep (frames : List Frame) (isKey : Bool) (t : SkippedText) (b : UInt8) : SkipStep :=
  match t with
  | .plain =>
    if b = 0x22 then (if isKey then .more ⟨.colon, frames⟩ else complete frames)
    else if b = 0x5C then .more ⟨.text isKey .escape, frames⟩
    else if b < 0x20 then .fail .controlCharacter 1
    else .more ⟨.text isKey .plain, frames⟩
  | .escape =>
    if b = 0x75 then .more ⟨.text isKey (.digits []), frames⟩
    else match TextReader.shortEscape? b with
      | some _ => .more ⟨.text isKey .plain, frames⟩
      | none => .fail .invalidEscape 0
  | .digits read =>
    if read.length < 3 then .more ⟨.text isKey (.digits (b :: read)), frames⟩
    else match hexNumber? (b :: read).reverse with
      | some _ => .more ⟨.text isKey .plain, frames⟩
      | none => .fail .invalidEscape 0

/-- One byte of a word. -/
def wordStep (frames : List Frame) (left : List UInt8) (b : UInt8) : SkipStep :=
  match left with
  | [] => .fail .expectedWord 0
  | c :: left =>
    if b ≠ c then .fail .expectedWord 0
    else if left.isEmpty then complete frames
    else .more ⟨.word left, frames⟩

/-- One byte of a number, or the first byte after it. -/
def numberStep (frames : List Frame) (place : NumberPlace) (b : UInt8) : SkipStep :=
  match place.step b with
  | .more place => .more ⟨.number place, frames⟩
  | .invalid => .fail .invalidNumber 0
  | .ended => afterStep frames b

/-- One byte more of a skipped value. -/
def step (s : Skip) (b : UInt8) : SkipStep :=
  match s.place with
  | .value => if isSpace b then .more s else start s.frames b
  | .opened => if isSpace b then .more s else inside s.frames b
  | .after => afterStep s.frames b
  | .key =>
    if isSpace b then .more s
    else if b = 0x22 then .more ⟨.text true .plain, s.frames⟩
    else .fail .keyNotText 0
  | .colon =>
    if isSpace b then .more s
    else if b = 0x3A then .more ⟨.value, s.frames⟩
    else .fail .expectedColon 0
  | .text isKey t => textStep s.frames isKey t b
  | .word left => wordStep s.frames left b
  | .number place => numberStep s.frames place b

/-- The fault of a text that ends in the innermost bracket. -/
def endOfFrame : List Frame → Cause
  | [] => .endOfValue
  | .list :: _ => .endOfList
  | .object :: _ => .endOfObject

/-- The fault of a text that ends here. -/
def endCause (s : Skip) : Cause :=
  match s.place with
  | .value | .word _ | .number _ => .endOfValue
  | .opened | .after => endOfFrame s.frames
  | .key | .colon => .endOfObject
  | .text _ _ => .endOfText

end Skip

end CompileCommands.Json
