/-
# Montage.Number.Literal -- decimal numbers read from text

Two grammars share one value.  A data file writes numbers strictly (`Strict`):
no plus sign, no superfluous zero, digits on both sides of a point.  People and
measuring tools write them freely (`freeNumber`): a sign of either kind, a point
at either end, `inf`, `infinity` and `nan` in any case.

Either way the value is the double nearest to the decimal.
-/
import Montage.Text.Blank

namespace Montage

set_option autoImplicit false

/-- The number a list of decimal digits spells. -/
def digitsValue (ds : List Char) : Nat :=
  ds.foldl (fun n d => 10 * n + (d.toNat - '0'.toNat)) 0

/-- The parts of a decimal literal. -/
structure Literal where
  negative : Bool
  /-- The digits before the point. -/
  whole : List Char
  /-- The digits after the point; `none` without a point. -/
  places : Option (List Char)
  /-- The power of ten; `none` when it is not written. -/
  power : Option Int

namespace Literal

/-- The double nearest to the decimal. -/
def toFloat (l : Literal) : Float :=
  let places := l.places.getD []
  let coefficient := digitsValue (l.whole ++ places)
  let power := l.power.getD 0 - places.length
  let magnitude :=
    if 0 ≤ power then Float.ofScientific coefficient false power.toNat
    else Float.ofScientific coefficient true (-power).toNat
  if l.negative then -magnitude else magnitude

/-- Digits, and an optional sign before them, with nothing after. -/
def signedDigits : List Char → Option Int
  | '+' :: ds => if ds ≠ [] ∧ ds.all Char.isDigit then some (digitsValue ds) else none
  | '-' :: ds => if ds ≠ [] ∧ ds.all Char.isDigit then some (-(digitsValue ds : Int)) else none
  | ds => if ds ≠ [] ∧ ds.all Char.isDigit then some (digitsValue ds) else none

/-- What may follow the digits before the point: a point with digits, a power of
ten, both or nothing. -/
def readTail (negative : Bool) (whole rest : List Char) : Option Literal :=
  match rest with
  | '.' :: rest =>
      let places := rest.takeWhile Char.isDigit
      match rest.dropWhile Char.isDigit with
      | [] => some ⟨negative, whole, some places, none⟩
      | e :: power =>
          if e = 'e' ∨ e = 'E' then
            (signedDigits power).map (fun p => ⟨negative, whole, some places, some p⟩)
          else none
  | [] => some ⟨negative, whole, none, none⟩
  | e :: power =>
      if e = 'e' ∨ e = 'E' then
        (signedDigits power).map (fun p => ⟨negative, whole, none, some p⟩)
      else none

/-- An unsigned literal, read without regard to how its digits are placed. -/
def readUnsigned (negative : Bool) (cs : List Char) : Option Literal :=
  readTail negative (cs.takeWhile Char.isDigit) (cs.dropWhile Char.isDigit)

/-- The strict rule: an integer part without superfluous zeros, and at least one
digit after a point. -/
def IsStrict (l : Literal) : Bool :=
  l.whole ≠ [] ∧ (l.whole.length = 1 ∨ l.whole.head? ≠ some '0') ∧ l.places ≠ some []

/-- Read a number as data files write it. -/
def readStrict (cs : List Char) : Option Literal :=
  let read := match cs with
    | '-' :: cs => readUnsigned true cs
    | cs => readUnsigned false cs
  read.filter IsStrict

end Literal

/-- The words for numbers without a finite value. -/
def namedNumber (negative : Bool) (cs : List Char) : Option Float :=
  let word := foldCase (String.ofList cs)
  let infinity : Float := 1.0 / 0.0
  if word = "inf" ∨ word = "infinity" then some (if negative then -infinity else infinity)
  else if word = "nan" then some (0.0 / 0.0)
  else none

/-- Read a number as people write it. -/
def freeNumber (s : String) : Option Float :=
  let unsigned (negative : Bool) (cs : List Char) : Option Float :=
    match Literal.readUnsigned negative cs with
    | some l =>
        if l.whole = [] ∧ l.places.getD [] = [] then none else some l.toFloat
    | none => namedNumber negative cs
  match s.toList with
  | '+' :: cs => unsigned false cs
  | '-' :: cs => unsigned true cs
  | cs => unsigned false cs

/-- Read a count as people write it: digits, a sign allowed, at most `most`.  Of
the counts with a minus sign only zero is one. -/
def freeCount (most : Nat) (s : String) : Option Nat :=
  (Literal.signedDigits s.toList).bind (fun n =>
    if 0 ≤ n ∧ n.toNat ≤ most then some n.toNat else none)

end Montage
