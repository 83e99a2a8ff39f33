-- One record, read byte by byte. The reader is a machine that takes one byte
-- at a time, so a record that breaks off leaves it in a state, and a longer
-- text goes on from that state.
import CompileCommands.Record.Draft
import CompileCommands.Json.Skip

namespace CompileCommands.Record

open Json

/-! ## The states of the reader -/

/-- Where in a record the reader stands. -/
inductive Place
  /-- After the opening brace. -/
  | firstKey
  /-- After a comma between two members. -/
  | nextKey
  | key (t : TextReader)
  /-- After a key. Unknown keys have no field. -/
  | colon (field : Option Field)
  /-- After a key that was there before. -/
  | repeated (field : Field)
  /-- Before the value of a field. -/
  | value (field : Field)
  /-- Within a `null`, of which these bytes are left. -/
  | null (field : Field) (left : List UInt8)
  | text (field : Field) (t : TextReader)
  /-- After the opening bracket of the arguments. -/
  | firstItem
  /-- After a comma between two arguments. The items read so far stand last
  one first, here and in what follows. -/
  | nextItem (items : List String)
  | item (items : List String) (t : TextReader)
  | afterItem (items : List String)
  /-- Within a word, a number or a string where another type is wanted. -/
  | wrongWord (found : Found) (left : List UInt8) (wanted : Wanted)
  | wrongNumber (place : NumberPlace) (read : List UInt8) (wanted : Wanted)
  | wrongText (t : TextReader) (wanted : Wanted)
  /-- Within the value of an unknown key. -/
  | skipped (s : Skip)
  | afterMember
  deriving DecidableEq, Repr

/-- A record that is read in part. -/
structure Reader where
  place : Place
  draft : Draft
  deriving DecidableEq, Repr

/-- What one byte does to a record. -/
inductive Step
  | more (r : Reader)
  /-- The closing brace of the record. -/
  | done (draft : Draft)
  /-- The text is no record. The fault is told of the place this many bytes
  back. -/
  | fail (cause : Cause) (back : Nat)
  deriving DecidableEq, Repr

namespace Reader

/-- The reader after the opening brace. -/
def start : Reader := ⟨.firstKey, .empty⟩

/-! ## The steps of the reader -/

/-- The same draft at another place. -/
def goto (r : Reader) (place : Place) : Step := .more { r with place := place }

/-- The member is complete. -/
def close (draft : Draft) : Step := .more ⟨.afterMember, draft⟩

/-- A byte of a string: how the string goes on, or what to do with it once it
is closed. -/
def textStep (t : TextReader) (b : UInt8) (more : TextReader → Step) (closed : String → Step) :
    Step :=
  match t.step b with
  | .more t => more t
  | .fail cause => .fail cause 0
  | .closed bytes =>
    match decodeText bytes with
    | .ok s => closed s
    | .error left => .fail .invalidCodePoint left

/-- The first byte of a value of another type than the wanted one. -/
def wrongStart (r : Reader) (wanted : Wanted) (b : UInt8) : Step :=
  if b = 0x6E then r.goto (.wrongWord .null afterN wanted)
  else if b = 0x74 then r.goto (.wrongWord (.boolean true) afterT wanted)
  else if b = 0x66 then r.goto (.wrongWord (.boolean false) afterF wanted)
  else if b = 0x22 then r.goto (.wrongText .start wanted)
  else if b = 0x5B then .fail (.wrongType .list wanted) 1
  else if b = 0x7B then .fail (.wrongType .object wanted) 1
  else match NumberPlace.ofFirst? b with
    | some place => r.goto (.wrongNumber place [b] wanted)
    | none => .fail .expectedValue 0

/-- A key is complete. -/
def keyRead (r : Reader) (key : String) : Step :=
  match Field.ofKey? key with
  | none => r.goto (.colon none)
  | some field =>
    if r.draft.has field then r.goto (.repeated field) else r.goto (.colon (some field))

/-- The first byte of the value of a field. -/
def valueStart (r : Reader) (field : Field) (b : UInt8) : Step :=
  if b = 0x6E then r.goto (.null field afterN)
  else match field with
    | .arguments => if b = 0x5B then r.goto .firstItem else r.wrongStart .list b
    | field => if b = 0x22 then r.goto (.text field .start) else r.wrongStart .text b

/-- The first byte of an argument. -/
def itemStart (r : Reader) (items : List String) (b : UInt8) : Step :=
  if b = 0x22 then r.goto (.item items .start) else r.wrongStart .text b

/-- A byte of a word. -/
def wordStep (left : List UInt8) (b : UInt8) (more : List UInt8 → Step) (complete : Step) : Step :=
  match left with
  | [] => .fail .expectedWord 0
  | c :: left =>
    if b ≠ c then .fail .expectedWord 0 else if left.isEmpty then complete else more left

/-- A number of the wrong type is complete. -/
def wrongNumberRead (read : List UInt8) (wanted : Wanted) : Step :=
  match numberValue read.reverse with
  | .found found => .fail (.wrongType found wanted) 1
  | .tooLarge left => .fail .numberOutOfRange (left + 1)

/-- The first byte after a member that is not a space. -/
def memberEnd (r : Reader) (b : UInt8) : Step :=
  if b = 0x2C then r.goto .nextKey
  else if b = 0x7D then .done r.draft
  else .fail .expectedObjectEnd 0

/-- One byte after a member. -/
def afterMemberStep (r : Reader) (b : UInt8) : Step :=
  if isSpace b then r.goto .afterMember else r.memberEnd b

/-- One byte of a skipped value, or the first byte after it. -/
def skipStep (r : Reader) (s : Skip) (b : UInt8) : Step :=
  match s.step b with
  | .more s => r.goto (.skipped s)
  | .ended => r.goto .afterMember
  | .endedBefore => r.afterMemberStep b
  | .fail cause back => .fail cause back

/-- One byte of a place where spaces count. -/
def tightStep (r : Reader) (b : UInt8) : Step :=
  match r.place with
  | .key t => textStep t b (fun t => r.goto (.key t)) r.keyRead
  | .null field left =>
    wordStep left b (fun left => r.goto (.null field left)) (close (r.draft.setNull field))
  | .text field t =>
    textStep t b (fun t => r.goto (.text field t)) (fun s => close (r.draft.setText s field))
  | .item items t =>
    textStep t b (fun t => r.goto (.item items t)) (fun s => r.goto (.afterItem (s :: items)))
  | .wrongWord found left wanted =>
    wordStep left b (fun left => r.goto (.wrongWord found left wanted))
      (.fail (.wrongType found wanted) 0)
  | .wrongNumber place read wanted =>
    match place.step b with
    | .more place => r.goto (.wrongNumber place (b :: read) wanted)
    | .invalid => .fail .invalidNumber 0
    | .ended => wrongNumberRead read wanted
  | .wrongText t wanted =>
    textStep t b (fun t => r.goto (.wrongText t wanted))
      (fun s => .fail (.wrongType (.text s) wanted) 0)
  | .skipped s => r.skipStep s b
  | _ => .more r

/-- One byte, not a space, of a place where spaces do not count. -/
def looseStep (r : Reader) (b : UInt8) : Step :=
  match r.place with
  | .firstKey =>
    if b = 0x22 then r.goto (.key .start)
    else if b = 0x7D then .done r.draft
    else .fail .keyNotText 0
  | .nextKey =>
    if b = 0x22 then r.goto (.key .start)
    else if b = 0x7D then .fail .trailingComma 0
    else .fail .keyNotText 0
  | .colon field =>
    if b ≠ 0x3A then .fail .expectedColon 0
    else match field with
      | some field => r.goto (.value field)
      | none => r.goto (.skipped ⟨.value, []⟩)
  | .repeated field => .fail (.repeatedKey field.key) (if b = 0x7D then 0 else 1)
  | .value field => r.valueStart field b
  | .firstItem => if b = 0x5D then close (r.draft.setArguments []) else r.itemStart [] b
  | .nextItem items => if b = 0x5D then .fail .trailingComma 0 else r.itemStart items b
  | .afterItem items =>
    if b = 0x2C then r.goto (.nextItem items)
    else if b = 0x5D then close (r.draft.setArguments items.reverse)
    else .fail .expectedListEnd 0
  | .afterMember => r.memberEnd b
  | _ => .more r

/-- Spaces count for nothing here. -/
def isLoose : Place → Bool
  | .firstKey | .nextKey | .colon _ | .repeated _ | .value _ | .firstItem | .nextItem _
  | .afterItem _ | .afterMember => true
  | _ => false

/-- One byte more of a record. -/
def step (r : Reader) (b : UInt8) : Step :=
  if isLoose r.place then
    if isSpace b then .more r else r.looseStep b
  else r.tightStep b

/-- The fault of a text that ends here. -/
def endCause (r : Reader) : Cause :=
  match r.place with
  | .firstKey | .colon _ | .afterMember => .endOfObject
  | .nextKey | .value _ | .nextItem _ | .null _ _ | .wrongWord _ _ _ | .wrongNumber _ _ _ =>
    .endOfValue
  | .key _ | .text _ _ | .item _ _ | .wrongText _ _ => .endOfText
  | .repeated field => .repeatedKey field.key
  | .firstItem | .afterItem _ => .endOfList
  | .skipped s => s.endCause

/-! ## Reading a whole text -/

/-- The rest of a text after a complete record. Only spaces may follow. -/
def finish (draft : Draft) (offset : Nat) (rest : List UInt8) : Except Fault Draft :=
  match rest.dropWhile isSpace with
  | [] => .ok draft
  | _ :: _ => .error ⟨.trailingText, offset + (rest.takeWhile isSpace).length + 1⟩

/-- The record that the rest of a text completes, of which `offset` bytes were
read before. -/
def run (r : Reader) (offset : Nat) : List UInt8 → Except Fault Draft
  | [] => .error ⟨r.endCause, offset⟩
  | b :: rest =>
    match r.step b with
    | .more r => r.run (offset + 1) rest
    | .done draft => finish draft (offset + 1) rest
    | .fail cause back => .error ⟨cause, offset + 1 - back⟩

end Reader

/-- The record that a text is, from its opening brace on. -/
def decode (text : List UInt8) : Except Fault Draft :=
  match text with
  | 0x7B :: rest => Reader.start.run 1 rest
  | _ => .error ⟨.expectedValue, 1⟩

end CompileCommands.Record
