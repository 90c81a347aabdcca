/-
# Montage.Number.Shortest -- the fewest digits that read back as the same double

A decimal reads back as a double when it lies in the interval of rationals that
round to it.  With `n` digits the only candidates worth testing are the two
neighbours of the double on the grid of `n`-digit decimals; the first `n` with a
candidate in the interval wins, and of two candidates the nearer one.  Seventeen
digits always suffice.

The exact halfway case is the only freedom, so it is a parameter (`Tie`).  The
layout of the digits is another matter: `positional` never writes an exponent,
`jsonNumber` writes one outside the range from `1e-5` to `1e16`.
-/
import Montage.Number.Exact

namespace Montage

set_option autoImplicit false

/-- The decimal `coefficient · 10 ^ exponent`. -/
structure Decimal where
  coefficient : Nat
  exponent : Int
  deriving DecidableEq, Repr

/-- Which of two equally near decimals is written. -/
inductive Tie where
  /-- The larger one. -/
  | up
  /-- The one with an even last digit. -/
  | even
  deriving DecidableEq, Repr

/-- How many decimal digits a positive number has. -/
def digitCount (n : Nat) : Nat := (Nat.toDigits 10 n).length

namespace Decimal

/-- The rational a decimal stands for. -/
def value (d : Decimal) : Rat := (d.coefficient : Rat) * (10 : Rat) ^ d.exponent

/-- Strip the zeros at the end of the coefficient; at most `fuel` of them. -/
def trimmed : Nat → Decimal → Decimal
  | 0, d => d
  | fuel + 1, d =>
      if d.coefficient % 10 = 0 ∧ d.coefficient ≠ 0 then
        trimmed fuel ⟨d.coefficient / 10, d.exponent + 1⟩
      else d

end Decimal

/-- The rationals that round to the double `m · 2 ^ e`, scaled by a common
denominator: `low / scale` to `high / scale`, ends included iff `closed`. -/
structure Interval where
  low : Nat
  middle : Nat
  high : Nat
  scale : Nat
  closed : Bool

namespace Interval

/-- The interval of `m · 2 ^ e`.  Below a power of two the neighbouring doubles
are twice as dense, except at the bottom of the range. -/
def around (m : Nat) (e : Int) : Interval :=
  let up := if 2 ≤ e then Nat.pow 2 (e - 2).toNat else 1
  let down := if 2 ≤ e then 1 else Nat.pow 2 (2 - e).toNat
  let narrow := m = Nat.pow 2 52 ∧ -1074 < e
  { low := (if narrow then 4 * m - 1 else 4 * m - 2) * up
    middle := 4 * m * up
    high := (4 * m + 2) * up
    scale := down
    closed := m % 2 = 0 }

/-- Whether `n / d` lies in the interval. -/
def holds (i : Interval) (n d : Nat) : Bool :=
  if i.closed then i.low * d ≤ n * i.scale ∧ n * i.scale ≤ i.high * d
  else i.low * d < n * i.scale ∧ n * i.scale < i.high * d

/-- The exponent of the leading decimal digit of the middle. -/
def leading (i : Interval) : Int :=
  if i.scale ≤ i.middle then (digitCount (i.middle / i.scale) : Int) - 1
  else -(digitCount ((i.scale + i.middle - 1) / i.middle - 1) : Int)

/-- The decimal of at most `n` digits that reads back, if there is one. -/
def pick (i : Interval) (tie : Tie) (n : Nat) : Option Decimal :=
  let unit : Int := i.leading - (n : Int) + 1
  let up := Nat.pow 10 unit.toNat
  let down := Nat.pow 10 (-unit).toNat
  -- The middle in units of `10 ^ unit`, as a quotient of naturals.
  let top := i.middle * down
  let bottom := i.scale * up
  let below := top / bottom
  let rest := top % bottom
  let belowHolds := 0 < below ∧ i.holds (below * up) down
  let aboveHolds := i.holds ((below + 1) * up) down
  if belowHolds ∧ aboveHolds then
    if 2 * rest < bottom then some ⟨below, unit⟩
    else if bottom < 2 * rest then some ⟨below + 1, unit⟩
    else match tie with
      | .up => some ⟨below + 1, unit⟩
      | .even => if below % 2 = 0 then some ⟨below, unit⟩ else some ⟨below + 1, unit⟩
  else if belowHolds then some ⟨below, unit⟩
  else if aboveHolds then some ⟨below + 1, unit⟩
  else none

end Interval

/-- The shortest decimal for the double `m · 2 ^ e`, without zeros at its end. -/
def shortest (tie : Tie) (m : Nat) (e : Int) : Decimal :=
  let i := Interval.around m e
  let found := (List.range 17).findSome? (fun n => i.pick tie (n + 1))
  (found.getD ⟨0, 0⟩).trimmed 20

/-- A count of zeros. -/
def zeros (n : Nat) : String := String.ofList (List.replicate n '0')

namespace Decimal

/-- Every digit in its place: no exponent, and no point in an integer. -/
def positional (d : Decimal) : String :=
  let digits := toString d.coefficient
  let length : Int := digits.length
  if 0 ≤ d.exponent then digits ++ zeros d.exponent.toNat
  else if length + d.exponent ≤ 0 then
    "0." ++ zeros (-(length + d.exponent)).toNat ++ digits
  else
    let cut := (length + d.exponent).toNat
    String.ofList (digits.toList.take cut) ++ "." ++ String.ofList (digits.toList.drop cut)

/-- One digit, a point and the others, then the exponent of the first digit. -/
def scientific (d : Decimal) : String :=
  let digits := toString d.coefficient
  let power : Int := digits.length + d.exponent - 1
  let tail := digits.toList.drop 1
  String.ofList (digits.toList.take 1) ++ (if tail.isEmpty then "" else "." ++ String.ofList tail)
    ++ "e" ++ toString power

/-- The layout of a data file: a number that looks like an integer keeps `.0`,
and very large or very small ones take an exponent. -/
def dataLayout (d : Decimal) : String :=
  let reach : Int := (toString d.coefficient).length + d.exponent
  if -5 < reach ∧ reach ≤ 16 then
    if 0 ≤ d.exponent then d.positional ++ ".0" else d.positional
  else d.scientific

end Decimal

/-- The text of a double in messages: shortest digits, all of them in place. -/
def plainText (x : Float) : String :=
  match x.toModel.unpack with
  | .notANumber => "NaN"
  | .infinity .positive => "inf"
  | .infinity .negative => "-inf"
  | .zero .positive => "0"
  | .zero .negative => "-0"
  | .finite .positive m e _ => (shortest .up m e).positional
  | .finite .negative m e _ => "-" ++ (shortest .up m e).positional

/-- The text of a double in a data file; a double without a value is `null`. -/
def dataText (x : Float) : String :=
  match x.toModel.unpack with
  | .notANumber => "null"
  | .infinity _ => "null"
  | .zero .positive => "0.0"
  | .zero .negative => "-0.0"
  | .finite .positive m e _ => (shortest .even m e).dataLayout
  | .finite .negative m e _ => "-" ++ (shortest .even m e).dataLayout

end Montage
