-- The shortest decimal that reads back as a given binary number. All of it
-- is exact arithmetic on natural numbers.

namespace CompileCommands.Decimal

/-- A finite number: its sign, its decimal digits without zeros at the end,
and the exponent of ten of the first digit. Zero has no digits. -/
structure Digits where
  negative : Bool
  digits : List Nat
  exponent : Int
  deriving DecidableEq, Repr

/-! ## The numbers that round to a binary number -/

/-- The fraction `value / unit`, and the ends of the interval of numbers that
round to it, over the same denominator. -/
structure Interval where
  value : Nat
  low : Nat
  high : Nat
  unit : Nat
  /-- The ends themselves round to the value. -/
  closed : Bool

/-- The interval of the number `m * 2 ^ q`. Below a power of two the grid is
twice as fine. -/
def Interval.of (m : Nat) (q : Int) (belowFine : Bool) : Interval :=
  let low := if belowFine then 4 * m - 1 else 4 * m - 2
  let up := Nat.pow 2 (q - 2).toNat
  let down := Nat.pow 2 (2 - q).toNat
  ⟨4 * m * up, low * up, (4 * m + 2) * up, down, m % 2 == 0⟩

/-- `c * 10 ^ g` lies in the interval. -/
def Interval.holds (i : Interval) (c : Nat) (g : Int) : Bool :=
  let x := c * Nat.pow 10 g.toNat * i.unit
  let d := Nat.pow 10 (-g).toNat
  if i.closed then i.low * d ≤ x && x ≤ i.high * d else i.low * d < x && x < i.high * d

/-! ## The search -/

/-- The exponent of ten of the first digit of a positive fraction. -/
def leadingExponent (value unit : Nat) : Int :=
  let guess : Int := (Nat.toDigits 10 value).length - (Nat.toDigits 10 unit).length
  let scaled := value * Nat.pow 10 (-guess).toNat
  if unit * Nat.pow 10 guess.toNat ≤ scaled then guess else guess - 1

/-- The multiple of `10 ^ g` next to the value, of those in the interval. A
tie goes to the even one. -/
def nearest? (i : Interval) (g : Int) : Option Nat :=
  let num := i.value * Nat.pow 10 (-g).toNat
  let den := i.unit * Nat.pow 10 g.toNat
  let below := num / den
  let rest := 2 * (num % den)
  match i.holds below g, i.holds (below + 1) g with
  | true, true =>
    if rest < den || (rest == den && below % 2 == 0) then some below else some (below + 1)
  | true, false => some below
  | false, true => some (below + 1)
  | false, false => none

/-- The digits of a number, without the zeros at its end. -/
def significant (c : Nat) : List Nat :=
  let digits := (Nat.toDigits 10 c).map (fun ch => ch.toNat - '0'.toNat)
  (digits.reverse.dropWhile (· == 0)).reverse

/-- The first grid of at most `more` further digits that holds a number of
the interval: its digits, and the exponent of the first of them. -/
def search (i : Interval) (lead : Int) : (more taken : Nat) → List Nat × Int
  | 0, _ => ([], 0)
  | more + 1, taken =>
    let g := lead - taken
    match nearest? i g with
    | some c => (significant c, g + ((Nat.toDigits 10 c).length : Int) - 1)
    | none => search i lead more (taken + 1)

/-- The shortest digits of a finite floating-point number. Seventeen digits
always suffice. -/
def shortest (x : Float) : Digits :=
  let bits : Nat := x.toBits.toNat
  let negative := bits / Nat.pow 2 63 == 1
  let biased : Nat := bits / Nat.pow 2 52 % Nat.pow 2 11
  let fraction : Nat := bits % Nat.pow 2 52
  if biased == 0 && fraction == 0 then ⟨negative, [], 0⟩
  else
    let m : Nat := if biased == 0 then fraction else fraction + Nat.pow 2 52
    let q : Int := if biased == 0 then -1074 else (biased : Int) - 1075
    let i := Interval.of m q (fraction == 0 && 1 < biased)
    let (digits, exponent) := search i (leadingExponent i.value i.unit) 17 0
    ⟨negative, digits, exponent⟩

/-! ## The text of digits -/

/-- The text of digits side by side. -/
def digitText (digits : List Nat) : String := String.join (digits.map toString)

/-- The text of some zeros. -/
def zeros (n : Nat) : String := String.ofList (List.replicate n '0')

/-- The exponent, with its sign. -/
def exponentText (e : Int) : String := (if e < 0 then "e-" else "e+") ++ toString e.natAbs

/-- The text of a number: with all places if its first digit stands at most
five places behind the point and at most sixteen before it, with an exponent
else. -/
def Digits.text (d : Digits) : String :=
  let n : Int := d.digits.length
  let body :=
    if d.digits.isEmpty then "0.0"
    else if -5 ≤ d.exponent && d.exponent < 0 then
      "0." ++ zeros (-d.exponent - 1).toNat ++ digitText d.digits
    else if 0 ≤ d.exponent && d.exponent ≤ 15 then
      if n ≤ d.exponent + 1 then
        digitText d.digits ++ zeros (d.exponent + 1 - n).toNat ++ ".0"
      else
        digitText (d.digits.take (d.exponent + 1).toNat) ++ "." ++
          digitText (d.digits.drop (d.exponent + 1).toNat)
    else
      let rest := d.digits.drop 1
      digitText (d.digits.take 1) ++ (if rest.isEmpty then "" else "." ++ digitText rest) ++
        exponentText d.exponent
  (if d.negative then "-" else "") ++ body

end CompileCommands.Decimal
