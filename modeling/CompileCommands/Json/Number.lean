-- Numbers of JSON: where one ends, and what it is worth. No number is of any
-- use in a record, but a message says which number was found.
import CompileCommands.Json.Fault
import CompileCommands.Decimal.Shortest

namespace CompileCommands.Json

/-! ## Where a number ends -/

/-- Where in a number the reader stands. -/
inductive NumberPlace
  | sign
  | zero
  | whole
  | point
  | fraction
  | exponent
  | exponentSign
  | exponentDigits
  deriving DecidableEq, Repr

/-- What one byte does to a number. -/
inductive NumberStep
  | more (place : NumberPlace)
  /-- The byte is not of the number, which is complete before it. -/
  | ended
  | invalid
  deriving DecidableEq, Repr

/-- A decimal digit. -/
def isDigit (b : UInt8) : Bool := 0x30 ≤ b && b ≤ 0x39

/-- The byte that starts an exponent. -/
def isExponentMark (b : UInt8) : Bool := b == 0x65 || b == 0x45

namespace NumberPlace

/-- The place after the first byte of a number, if it is one. -/
def ofFirst? (b : UInt8) : Option NumberPlace :=
  if b = 0x2D then some .sign
  else if b = 0x30 then some .zero
  else if isDigit b then some .whole
  else none

/-- One byte more of a number. A zero at the start stands alone, and a point
and an exponent need a digit. -/
def step (p : NumberPlace) (b : UInt8) : NumberStep :=
  match p with
  | .sign =>
    if b = 0x30 then .more .zero else if isDigit b then .more .whole else .invalid
  | .zero =>
    if isDigit b then .invalid
    else if b = 0x2E then .more .point
    else if isExponentMark b then .more .exponent
    else .ended
  | .whole =>
    if isDigit b then .more .whole
    else if b = 0x2E then .more .point
    else if isExponentMark b then .more .exponent
    else .ended
  | .point => if isDigit b then .more .fraction else .invalid
  | .fraction =>
    if isDigit b then .more .fraction
    else if isExponentMark b then .more .exponent
    else .ended
  | .exponent =>
    if b = 0x2B ∨ b = 0x2D then .more .exponentSign
    else if isDigit b then .more .exponentDigits
    else .invalid
  | .exponentSign => if isDigit b then .more .exponentDigits else .invalid
  | .exponentDigits => if isDigit b then .more .exponentDigits else .ended

end NumberPlace

/-! ## What a number is worth -/

/-- The value of the text of a number. -/
inductive NumberValue
  | found (found : Found)
  /-- The number is too large. That is known before this many of its bytes
  are left. -/
  | tooLarge (left : Nat)
  deriving DecidableEq, Repr

/-- The parts of the text of a number, as digits. -/
structure NumberText where
  negative : Bool
  whole : List Nat
  fraction : List Nat
  exponentNegative : Bool
  exponent : List Nat
  /-- There is a point or an exponent. -/
  isDecimal : Bool

/-- The values of the digits at the start of some bytes. -/
def leadingDigits (bytes : List UInt8) : List Nat :=
  (bytes.takeWhile isDigit).map (fun b => b.toNat - 0x30)

/-- The parts of the text of a complete number. -/
def NumberText.of (bytes : List UInt8) : NumberText :=
  let negative := bytes.head? == some 0x2D
  let body := if negative then bytes.drop 1 else bytes
  let rest := body.dropWhile isDigit
  let hasPoint := rest.head? == some 0x2E
  let afterPoint := if hasPoint then rest.drop 1 else []
  let tail := if hasPoint then afterPoint.dropWhile isDigit else rest
  let mark := tail.drop 1
  let signed := mark.head? == some 0x2B || mark.head? == some 0x2D
  ⟨negative, leadingDigits body, leadingDigits afterPoint, mark.head? == some 0x2D,
    leadingDigits (if signed then mark.drop 1 else mark), hasPoint || !tail.isEmpty⟩

/-- The largest whole number that is kept exactly. -/
def maxWhole : Nat := Nat.pow 2 64 - 1

/-- Takes digits into a whole number while it is kept exactly, and gives the
digits that were not taken. -/
def takeDigits (n : Nat) : List Nat → Nat × List Nat
  | [] => (n, [])
  | d :: ds => if maxWhole < n * 10 + d then (n, d :: ds) else takeDigits (n * 10 + d) ds

/-- The power of ten as the nearest floating-point number. -/
def powerOfTen (n : Nat) : Float := Float.ofScientific 1 false n

/-- `x * 10 ^ e`, by at most 308 places at a time, or nothing if it is too
large. -/
def scale? (x : Float) (e : Int) : Option Float :=
  if e.natAbs ≤ 308 then
    if 0 ≤ e then
      let y := x * powerOfTen e.natAbs
      if y.isInf then none else some y
    else some (x / powerOfTen e.natAbs)
  else if x == 0 then some x
  else if 0 ≤ e then none
  else scale? (x / powerOfTen 308) (e + 308)
termination_by e.natAbs

/-- The largest exponent that is read to its end. -/
def maxExponent : Nat := Nat.pow 2 31 - 1

/-- Reads an exponent, or says how many of its digits are left when it is
known to be too large. -/
def readExponent (n : Nat) : List Nat → Except Nat Nat
  | [] => .ok n
  | d :: ds => if maxExponent < n * 10 + d then .error ds.length else readExponent (n * 10 + d) ds

/-- A decimal with a sign, as it is shown. -/
def decimalFound (negative : Bool) (x : Float) : Found :=
  .decimal (Decimal.shortest (if negative then -x else x)).text

/-- The value of a number that is not kept as a whole number. -/
def decimalValue (t : NumberText) (whole : Nat) (left : List Nat) : NumberValue :=
  let (mantissa, dropped) := takeDigits whole t.fraction
  let places : Int := (left.length : Int) - ((t.fraction.length - dropped.length : Nat) : Int)
  match readExponent 0 t.exponent with
  | .error rest =>
    if mantissa != 0 && !t.exponentNegative then .tooLarge rest
    else .found (decimalFound t.negative 0)
  | .ok e =>
    let exponent := if t.exponentNegative then places - e else places + e
    match scale? mantissa.toUInt64.toFloat exponent with
    | some x => .found (decimalFound t.negative x)
    | none => .tooLarge 0

/-- The value of the text of a complete number. A whole number is kept if it
fits in 64 bits, with a sign if it has one, and is a decimal else. -/
def numberValue (bytes : List UInt8) : NumberValue :=
  let t := NumberText.of bytes
  let (whole, left) := takeDigits 0 t.whole
  if t.isDecimal || !left.isEmpty then decimalValue t whole left
  else if !t.negative then .found (.integer whole)
  else if 0 < whole && whole ≤ Nat.pow 2 63 then .found (.integer (-whole))
  else .found (decimalFound true whole.toUInt64.toFloat)

end CompileCommands.Json
