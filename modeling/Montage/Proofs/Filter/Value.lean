/-
# Montage.Proofs.Filter.Value -- values of formulas

A formula has a value (`Expr.value?`) only if its text is read as it is meant and nothing in
it is divided by zero.  A sum or a product has one as soon as its operands do and bind
tightly enough where they stand.
-/
import Mathlib
import Montage.Filter.Expr

namespace Montage

set_option autoImplicit false

namespace Expr

instance decidableGrouped : (e : Expr) → Decidable e.Grouped
  | num _ | nat _ | var _ => inferInstanceAs (Decidable True)
  | add a b | sub a b =>
      have := decidableGrouped a
      have := decidableGrouped b
      inferInstanceAs (Decidable (a.Grouped ∧ b.Grouped ∧ 1 ≤ b.binding))
  | mul a b | div a b =>
      have := decidableGrouped a
      have := decidableGrouped b
      inferInstanceAs (Decidable (a.Grouped ∧ b.Grouped ∧ 1 ≤ a.binding ∧ 2 ≤ b.binding))
  | least a b =>
      have := decidableGrouped a
      have := decidableGrouped b
      inferInstanceAs (Decidable (a.Grouped ∧ b.Grouped))
  | group a | sine a | whole a => decidableGrouped a

section

variable (names : Var → Rat) (sin : Rat → Rat) (a b : Expr)

@[simp] theorem eval_num (n : Numeral) : (num n).eval names sin = n.value := rfl

@[simp] theorem eval_nat (n : Nat) : (nat n).eval names sin = n := rfl

@[simp] theorem eval_var (v : Var) : (var v).eval names sin = names v := rfl

@[simp] theorem eval_add : (add a b).eval names sin = a.eval names sin + b.eval names sin := rfl

@[simp] theorem eval_sub : (sub a b).eval names sin = a.eval names sin - b.eval names sin := rfl

@[simp] theorem eval_mul : (mul a b).eval names sin = a.eval names sin * b.eval names sin := rfl

@[simp] theorem eval_div : (div a b).eval names sin = a.eval names sin / b.eval names sin := rfl

@[simp] theorem eval_group : (group a).eval names sin = a.eval names sin := rfl

@[simp] theorem eval_least :
    (least a b).eval names sin = min (a.eval names sin) (b.eval names sin) := rfl

@[simp] theorem eval_sine : (sine a).eval names sin = sin (a.eval names sin) := rfl

end

/-- The value of a formula, if its text is read as the formula and it divides by nothing that
is zero. -/
def value? (names : Var → Rat) (sin : Rat → Rat) (e : Expr) : Option Rat :=
  if e.Grouped ∧ ∀ d ∈ e.divisors, d.eval names sin ≠ 0 then some (e.eval names sin) else none

variable {names : Var → Rat} {sin : Rat → Rat} {e : Expr} {q : Rat}

theorem value?_eq_some_iff :
    e.value? names sin = some q
      ↔ e.Grouped ∧ (∀ d ∈ e.divisors, d.eval names sin ≠ 0) ∧ e.eval names sin = q := by
  unfold value?
  split <;> simp_all

theorem value?_of_eval (grouped : e.Grouped) (divides : ∀ d ∈ e.divisors, d.eval names sin ≠ 0)
    (same : e.eval names sin = q) : e.value? names sin = some q :=
  value?_eq_some_iff.mpr ⟨grouped, divides, same⟩

section

variable {a b : Expr} {r : Rat}

theorem value?_group (ha : a.value? names sin = some q) : (group a).value? names sin = some q :=
  ha

theorem value?_add (ha : a.value? names sin = some q) (hb : b.value? names sin = some r)
    (right : 1 ≤ b.binding) : (add a b).value? names sin = some (q + r) := by
  rw [value?_eq_some_iff] at *
  refine ⟨⟨ha.1, hb.1, right⟩, ?_, by rw [eval_add, ha.2.2, hb.2.2]⟩
  rw [divisors, List.forall_mem_append]
  exact ⟨ha.2.1, hb.2.1⟩

theorem value?_sub (ha : a.value? names sin = some q) (hb : b.value? names sin = some r)
    (right : 1 ≤ b.binding) : (sub a b).value? names sin = some (q - r) := by
  rw [value?_eq_some_iff] at *
  refine ⟨⟨ha.1, hb.1, right⟩, ?_, by rw [eval_sub, ha.2.2, hb.2.2]⟩
  rw [divisors, List.forall_mem_append]
  exact ⟨ha.2.1, hb.2.1⟩

theorem value?_mul (ha : a.value? names sin = some q) (hb : b.value? names sin = some r)
    (left : 1 ≤ a.binding) (right : 2 ≤ b.binding) :
    (mul a b).value? names sin = some (q * r) := by
  rw [value?_eq_some_iff] at *
  refine ⟨⟨ha.1, hb.1, left, right⟩, ?_, by rw [eval_mul, ha.2.2, hb.2.2]⟩
  rw [divisors, List.forall_mem_append]
  exact ⟨ha.2.1, hb.2.1⟩

end

/-- Where something is divided by zero there is no value. -/
theorem value?_of_zero {d : Expr} (divides : d ∈ e.divisors) (zero : d.eval names sin = 0) :
    e.value? names sin = none :=
  if_neg fun ⟨_, nonzero⟩ => nonzero d divides zero

end Expr

end Montage
