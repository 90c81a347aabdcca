/-
# Montage.Filter.Expr -- the formulas inside filters

Filters compute sizes, offsets and zooms from formulas over the frame number,
the time and the sizes of the frame.  An `Expr` is such a formula as it is
written: every pair of parentheses in the text is a `group` in the tree, and
nothing else puts one there.  `Expr.Grouped` says that this is enough, that each
operand binds at least as tightly as its place demands.

`Expr.eval` is what a formula means over the rationals.  The sine is a
parameter, since all that is ever used of it is its range.
-/
import Montage.Number.Numeral

namespace Montage

set_option autoImplicit false

/-- The names that formulas may use. -/
inductive Var where
  /-- The width of the frame that comes in. -/
  | iw
  | ih
  /-- The width of the frame that goes out. -/
  | ow
  | oh
  /-- The width of the frame that comes in, as a crop calls it. -/
  | inW
  | inH
  /-- The current zoom. -/
  | zoom
  /-- The number of the frame that goes out. -/
  | on
  /-- The time of the frame that comes in, in seconds. -/
  | t
  | pi
  deriving DecidableEq, Repr

/-- The spelling of a name. -/
def Var.name : Var → String
  | iw => "iw"
  | ih => "ih"
  | ow => "ow"
  | oh => "oh"
  | inW => "in_w"
  | inH => "in_h"
  | zoom => "zoom"
  | on => "on"
  | t => "t"
  | pi => "PI"

/-- A formula. -/
inductive Expr where
  /-- A computed number, rounded to what filters are written with. -/
  | num (n : Numeral)
  /-- A count. -/
  | nat (n : Nat)
  | var (v : Var)
  | add (a b : Expr)
  | sub (a b : Expr)
  | mul (a b : Expr)
  | div (a b : Expr)
  /-- A formula in parentheses. -/
  | group (a : Expr)
  | least (a b : Expr)
  | sine (a : Expr)
  /-- The whole part. -/
  | whole (a : Expr)
  deriving DecidableEq, Repr

namespace Expr

/-- The text of a formula. -/
def text : Expr → String
  | num n => n.text
  | nat n => toString n
  | var v => v.name
  | add a b => a.text ++ "+" ++ b.text
  | sub a b => a.text ++ "-" ++ b.text
  | mul a b => a.text ++ "*" ++ b.text
  | div a b => a.text ++ "/" ++ b.text
  | group a => "(" ++ a.text ++ ")"
  | least a b => "min(" ++ a.text ++ "," ++ b.text ++ ")"
  | sine a => "sin(" ++ a.text ++ ")"
  | whole a => "trunc(" ++ a.text ++ ")"

/-- How tightly a formula binds: sums least, then products, then the rest. -/
def binding : Expr → Nat
  | add _ _ | sub _ _ => 0
  | mul _ _ | div _ _ => 1
  | _ => 2

/-- Whether the parentheses of a formula suffice for its text to be read as the
formula: an operand on the right binds more tightly than its operator, one on
the left at least as tightly.  (A numeral is an operand like any other, its
minus sign included.) -/
def Grouped : Expr → Prop
  | num _ | nat _ | var _ => True
  | add a b | sub a b => a.Grouped ∧ b.Grouped ∧ 1 ≤ b.binding
  | mul a b | div a b => a.Grouped ∧ b.Grouped ∧ 1 ≤ a.binding ∧ 2 ≤ b.binding
  | least a b => a.Grouped ∧ b.Grouped
  | group a | sine a | whole a => a.Grouped

/-- What a formula means, given its names and the sine. -/
def eval (env : Var → Rat) (sin : Rat → Rat) : Expr → Rat
  | num n => n.value
  | nat n => n
  | var v => env v
  | add a b => a.eval env sin + b.eval env sin
  | sub a b => a.eval env sin - b.eval env sin
  | mul a b => a.eval env sin * b.eval env sin
  | div a b => a.eval env sin / b.eval env sin
  | group a => a.eval env sin
  | least a b => min (a.eval env sin) (b.eval env sin)
  | sine a => sin (a.eval env sin)
  | whole a => let q := a.eval env sin; if q < 0 then q.ceil else q.floor

/-- The numbers a formula divides by, where they are written out. -/
def divisors : Expr → List Expr
  | num _ | nat _ | var _ => []
  | add a b | sub a b | mul a b | least a b => a.divisors ++ b.divisors
  | div a b => a.divisors ++ b :: b.divisors
  | group a | sine a | whole a => a.divisors

/-- The computed numbers in a formula. -/
def numerals : Expr → List Numeral
  | num n => [n]
  | nat _ | var _ => []
  | add a b | sub a b | mul a b | div a b | least a b => a.numerals ++ b.numerals
  | group a | sine a | whole a => a.numerals

end Expr

end Montage
