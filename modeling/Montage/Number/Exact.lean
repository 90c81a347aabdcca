/-
# Montage.Number.Exact -- the rational number behind a double

A finite double is a rational number, and every question this library asks of
one is a question about that rational: how many whole frames it holds, which
even size is nearest, which six decimals, which shortest digits.  `exact` names
the rational, and an infinity or a NaN has none.

The roundings below are rules on rationals: `roundEven` sends a half to the even
neighbour, `roundUp` sends it upwards, and both leave an integer alone.
-/
namespace Montage

set_option autoImplicit false

/-- The rational `m · 2 ^ e` with the given sign. -/
def signedBinary (s : Float.Model.UnpackedFloat.Sign) (m : Nat) (e : Int) : Rat :=
  match s with
  | .positive => (m : Rat) * (2 : Rat) ^ e
  | .negative => -((m : Rat) * (2 : Rat) ^ e)

/-- The rational a finite double stands for; `none` for an infinity or a NaN. -/
def exact (x : Float) : Option Rat :=
  match x.toModel.unpack with
  | .zero _ => some 0
  | .finite s m e _ => some (signedBinary s m e)
  | .infinity _ => none
  | .notANumber => none

/-- Whether a double carries the minus sign; zero may, a NaN does not. -/
def hasMinus (x : Float) : Bool :=
  match x.toModel.unpack with
  | .zero .negative => true
  | .finite .negative _ _ _ => true
  | .infinity .negative => true
  | _ => false

/-- The nearest integer, a half going to the even neighbour. -/
def roundEven (q : Rat) : Int :=
  let below := q.floor
  let rest := q - below
  if rest < 1 / 2 then below
  else if 1 / 2 < rest then below + 1
  else if below % 2 = 0 then below else below + 1

/-- The nearest integer, a half going up. -/
def roundUp (q : Rat) : Int :=
  (q + 1 / 2).floor

/-- The largest count a 32-bit field holds. -/
def maxWord : Nat := 4294967295

/-- The largest count a 64-bit field holds. -/
def maxLong : Nat := 18446744073709551615

end Montage
