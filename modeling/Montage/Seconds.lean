/-
# Montage.Seconds -- the numbers that time is counted in

A timeline adds, halves and compares lengths of time.  It does so over any type
that offers these operations, because two are of interest: doubles, which is
what jobs are computed in, and rationals, in which the arithmetic is exact.

`Seconds.exact` ties the two together.  It is the rational a length stands for,
and everything that leaves the arithmetic goes through it: the numeral that a
filter is written with, and the whole frames that a length covers.
-/
import Montage.Number.Numeral

namespace Montage

set_option autoImplicit false

/-- What is asked of a type of lengths of time, in seconds. -/
class Seconds (τ : Type) extends Add τ, Sub τ, Mul τ, Div τ, OfScientific τ, BEq τ, LT τ, LE τ where
  decLT : DecidableLT τ
  decLE : DecidableLE τ
  /-- A whole number of seconds. -/
  ofNat : Nat → τ
  /-- The rational a length stands for, if it has a value. -/
  exact : τ → Option Rat
  /-- The sum of no lengths. -/
  noTime : τ

attribute [reducible, instance] Seconds.decLT Seconds.decLE

/-- Lengths as jobs compute them.  A sum of no doubles is negative zero, which
leaves every other sum alone. -/
instance : Seconds Float where
  decLT := inferInstance
  decLE := inferInstance
  ofNat := Float.ofNat
  exact := exact
  noTime := -0.0

/-- Lengths in exact arithmetic. -/
instance : Seconds Rat where
  decLT := inferInstance
  decLE := inferInstance
  ofNat n := (n : Rat)
  exact := some
  noTime := 0

namespace Seconds

variable {τ : Type} [Seconds τ]

/-- Whether a length has a value. -/
def isFinite (t : τ) : Bool := (Seconds.exact t).isSome

/-- Whether a length can be used as one: it has a value, and it is positive. -/
def isUsable (t : τ) : Bool := isFinite t && decide ((0.0 : τ) < t)

/-- The length, if it can be used as one. -/
def usable? (t : Option τ) : Option τ := t.filter isUsable

/-- The length, if it has a value. -/
def finite? (t : Option τ) : Option τ := t.filter isFinite

/-- The sum of some lengths, added from the first to the last. -/
def total (ts : List τ) : τ := ts.foldl (· + ·) noTime

/-- The smaller of two lengths. -/
def least (a b : τ) : τ := if b < a then b else a

/-- The larger of two lengths. -/
def greatest (a b : τ) : τ := if a < b then b else a

/-- A length moved to the nearer end of an interval that it lies outside of. -/
def clamp (low high t : τ) : τ :=
  if t < low then low else if high < t then high else t

/-- The numeral of a length. -/
def numeral (t : τ) : Numeral :=
  match Seconds.exact t with
  | some q => Numeral.ofRat q
  | none => ⟨none⟩

/-- The whole frames that a length covers at a rate: at least one, and as many as
a 64-bit count holds if there are more. -/
def wholeFrames (rate : Nat) (t : τ) : Nat :=
  if isUsable t then
    match Seconds.exact (t * Seconds.ofNat rate) with
    | some q => min maxLong (max 1 q.floor.toNat)
    | none => maxLong
  else 1

end Seconds

end Montage
