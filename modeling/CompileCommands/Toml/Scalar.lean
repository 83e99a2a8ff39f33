-- Values without quotes: truth values, numbers and dates. Nothing in a
-- configuration is a number or a date, so it only counts whether they are
-- written and sized as they should be.
import CompileCommands.Toml.Token

namespace CompileCommands.Toml

/-- A value without quotes. -/
inductive Scalar
  | boolean (b : Bool)
  | number
  | moment
  deriving DecidableEq, Repr

namespace Scalar

/-! ## Whole numbers -/

/-- The characters after a sign, and whether the sign is a minus. -/
def unsigned : List Char → Bool × List Char
  | '-' :: rest => (true, rest)
  | '+' :: rest => (false, rest)
  | rest => (false, rest)

/-- Digits, with underscores only between two of them. -/
def isGrouped (isDigit : Char → Bool) : List Char → Bool
  | [] => false
  | [c] => isDigit c
  | c :: '_' :: rest => isDigit c && isGrouped isDigit rest
  | c :: rest => isDigit c && isGrouped isDigit rest

/-- The number that digits stand for. -/
def valueOf (base : Nat) (chars : List Char) : Nat :=
  (chars.filterMap hexValue?).foldl (fun n d => n * base + d) 0

/-- Decimal digits that do not start with a zero, unless it is the only one. -/
def isDecimal (chars : List Char) : Bool :=
  isGrouped Char.isDigit chars && (chars.head? != some '0' || chars.length == 1)

/-- The number of whole numbers that are not negative. -/
def wholeLimit : Nat := Nat.pow 2 63

/-- A whole number with a decimal sign that is not too large. -/
def isDecimalWhole (chars : List Char) : Bool :=
  let (negative, digits) := unsigned chars
  isDecimal digits && valueOf 10 digits < wholeLimit + (if negative then 1 else 0)

/-- Whole digits of a base that are not too large. -/
def isWholeOf (base : Nat) (isDigit : Char → Bool) (digits : List Char) : Bool :=
  isGrouped isDigit digits && valueOf base digits < wholeLimit

/-- A whole number. -/
def isWhole : List Char → Bool
  | '0' :: 'x' :: digits => isWholeOf 16 (fun c => (hexValue? c).isSome) digits
  | '0' :: 'o' :: digits => isWholeOf 8 (fun c => '0' ≤ c && c ≤ '7') digits
  | '0' :: 'b' :: digits => isWholeOf 2 (fun c => c == '0' || c == '1') digits
  | chars => isDecimalWhole chars

/-! ## Decimals -/

/-- The parts of a decimal: the digits of the whole and of the fraction, and
the exponent. -/
structure DecimalParts where
  negative : Bool
  digits : List Char
  places : Nat
  exponent : Int
  deriving Repr

/-- A character of grouped digits. -/
def isGroupChar (c : Char) : Bool := c.isDigit || c == '_'

/-- An exponent, from its mark on. -/
def exponent? : List Char → Option Int
  | mark :: rest =>
    let (negative, digits) := unsigned rest
    if (mark = 'e' ∨ mark = 'E') ∧ isGrouped Char.isDigit digits then
      let n : Int := valueOf 10 digits
      some (if negative then -n else n)
    else none
  | [] => none

/-- The parts of a decimal that is written with a point or an exponent. -/
def decimalParts? (chars : List Char) : Option DecimalParts :=
  let (negative, body) := unsigned chars
  let whole := body.takeWhile isGroupChar
  if !isDecimal whole then none
  else match body.dropWhile isGroupChar with
    | '.' :: rest =>
      let fraction := rest.takeWhile isGroupChar
      let tail := rest.dropWhile isGroupChar
      if !isGrouped Char.isDigit fraction then none
      else
        let parts (e : Int) : DecimalParts :=
          ⟨negative, whole ++ fraction, (fraction.filter Char.isDigit).length, e⟩
        if tail.isEmpty then some (parts 0) else (exponent? tail).map parts
    | tail => (exponent? tail).map (fun e => ⟨negative, whole, 0, e⟩)

/-- The least number that is too large for a decimal of 64 bits. -/
def decimalLimit : Nat := Nat.pow 2 1024 - Nat.pow 2 970

/-- A decimal rounds to a number. Only those above zero are checked. -/
def DecimalParts.isFinite (p : DecimalParts) : Bool :=
  let mantissa := valueOf 10 p.digits
  let shift := p.exponent - p.places
  let order := (Nat.toDigits 10 mantissa).length + shift
  if p.negative || mantissa == 0 || order < 300 then true
  else if 320 < order then false
  else if 0 ≤ shift then mantissa * Nat.pow 10 shift.toNat < decimalLimit
  else mantissa < decimalLimit * Nat.pow 10 (-shift).toNat

/-- A decimal, or one of the names of those that are no numbers. -/
def isDecimalNumber (chars : List Char) : Bool :=
  (decimalParts? chars).any DecimalParts.isFinite ||
    ["inf".toList, "nan".toList].contains (unsigned chars).2

/-! ## Dates and times -/

/-- Two digits in a range, and what follows them. -/
def twoDigits? (least most : Nat) : List Char → Option (Nat × List Char)
  | a :: b :: rest =>
    let n := valueOf 10 [a, b]
    if a.isDigit && b.isDigit && least ≤ n && n ≤ most then some (n, rest) else none
  | _ => none

/-- A character, and what follows it. -/
def expect? (mark : Char) : List Char → Option (List Char)
  | c :: rest => if c = mark then some rest else none
  | [] => none

/-- The number of days of a month. -/
def daysOf (year month : Nat) : Nat :=
  if month = 2 then
    if year % 4 = 0 ∧ (year % 100 ≠ 0 ∨ year % 400 = 0) then 29 else 28
  else if month ∈ [4, 6, 9, 11] then 30
  else 31

/-- What follows a date. -/
def afterDate? (chars : List Char) : Option (List Char) := do
  let (century, rest) ← twoDigits? 0 99 chars
  let (year, rest) ← twoDigits? 0 99 rest
  let (month, rest) ← twoDigits? 1 12 (← expect? '-' rest)
  let (_, rest) ← twoDigits? 1 (daysOf (century * 100 + year) month) (← expect? '-' rest)
  return rest

/-- What follows a fraction of a second, which need not be there. -/
def afterFraction : List Char → List Char
  | '.' :: rest =>
    if (rest.takeWhile Char.isDigit).isEmpty then '.' :: rest else rest.dropWhile Char.isDigit
  | rest => rest

/-- What follows the minutes after an hour. -/
def afterMinutes? (chars : List Char) : Option (List Char) := do
  let (_, rest) ← twoDigits? 0 23 chars
  let (_, rest) ← twoDigits? 0 59 (← expect? ':' rest)
  return rest

/-- What follows a time. A minute may have a leap second. -/
def afterTime? (chars : List Char) : Option (List Char) := do
  let rest ← afterMinutes? chars
  let (_, rest) ← twoDigits? 0 60 (← expect? ':' rest)
  return afterFraction rest

/-- A distance from universal time. -/
def isOffset : List Char → Bool
  | ['Z'] | ['z'] => true
  | '+' :: rest | '-' :: rest => afterMinutes? rest == some []
  | _ => false

/-- A time after a date, with or without a distance. -/
def isTimeOfDay (chars : List Char) : Bool :=
  match afterTime? chars with
  | some rest => rest.isEmpty || isOffset rest
  | none => false

/-- A date without a time. -/
def isDate (chars : List Char) : Bool := afterDate? chars == some []

/-- A date, a time, or both with a `T` or a space between them. -/
def isMoment (chars : List Char) : Bool :=
  match afterDate? chars with
  | some [] => true
  | some (mark :: rest) => (mark == 'T' || mark == 't' || mark == ' ') && isTimeOfDay rest
  | none => afterTime? chars == some []

/-! ## All values without quotes -/

/-- The value that the characters stand for. -/
def of? (chars : List Char) : Option Scalar :=
  if chars = "true".toList then some (.boolean true)
  else if chars = "false".toList then some (.boolean false)
  else if isMoment chars then some .moment
  else if isWhole chars || isDecimalNumber chars then some .number
  else none

end Scalar

end CompileCommands.Toml
