/-
# Montage.Number.Numeral -- the numbers that filters are written with

Filters are written with plain decimals of at most six places.  A `Numeral` is
what such a decimal says, a whole count of millionths, or `none` where a number
without a value (an infinity, a NaN) had to be written anyway; that one is
spelled `0`.

The text has no exponent, no minus on zero, no superfluous zero in front and
none behind the point, so two numerals with one text have one value.  It is what is
left of the six places that every double can be written with once the zeros at
the end are gone (`Numeral.trimmed`).
-/
import Montage.Number.Exact

namespace Montage

set_option autoImplicit false

/-- A number as filters spell it, in millionths. -/
structure Numeral where
  millionths : Option Int
  deriving DecidableEq, Repr

namespace Numeral

/-- The numeral nearest to a rational, a half going to the even neighbour. -/
def ofRat (q : Rat) : Numeral := ⟨some (roundEven (q * 1000000))⟩

/-- The numeral of a double. -/
def ofFloat (x : Float) : Numeral :=
  match exact x with
  | some q => ofRat q
  | none => ⟨none⟩

/-- What a reader of the text takes it for. -/
def value (n : Numeral) : Rat := (n.millionths.getD 0 : Rat) / 1000000

/-- Six digits for a count below a million. -/
def sixDigits (n : Nat) : List Char :=
  [n / 100000, n / 10000, n / 1000, n / 100, n / 10, n].map (fun k => Nat.digitChar (k % 10))

/-- Drop the zeros at the end. -/
def dropZeros (digits : List Char) : List Char :=
  (digits.reverse.dropWhile (· = '0')).reverse

/-- The digits of a count of millionths: the whole part, then a point and up to
six places if any of them is not zero. -/
def magnitudeText (n : Nat) : String :=
  let places := dropZeros (sixDigits (n % 1000000))
  toString (n / 1000000) ++ (if places.isEmpty then "" else "." ++ String.ofList places)

/-- The spelling of a numeral. -/
def text (n : Numeral) : String :=
  match n.millionths with
  | none => "0"
  | some k => (if k < 0 then "-" else "") ++ magnitudeText k.natAbs

/-- A double with the given value, written with six places, a half going to the even
neighbour.  The minus sign stays, even where nothing but zeros is left behind it. -/
def sixPlaces (x : Float) (q : Rat) : List Char :=
  let count := (roundEven ((if hasMinus x then -q else q) * 1000000)).natAbs
  (if hasMinus x then ['-'] else [])
    ++ (Nat.toDigits 10 (count / 1000000) ++ '.' :: sixDigits (count % 1000000))

/-- Drop a point at the end. -/
def dropPoint (cs : List Char) : List Char :=
  if cs.getLast? = some '.' then cs.dropLast else cs

/-- A double as it is written step by step: with six places, then without the zeros at
the end and the point if it comes to stand there, then without a minus on zero. -/
def trimmed (x : Float) : String :=
  match exact x with
  | none => "0"
  | some q =>
      let fixed := sixPlaces x q
      let short := if '.' ∈ fixed then dropPoint (dropZeros fixed) else fixed
      if short = ['-', '0'] then "0" else String.ofList short

end Numeral

end Montage
