/-
# Montage.Proofs.Text.Digits -- what digits in a row come to

Digits are read from the left, so what is read of two rows in a row is the first one moved up
by the length of the second, and the second.  Zeros at the end only move up what stands before
them, and zeros in front are lost.

The digits that a count is printed with are read back as the count, and only zero is printed
with a zero in front.
-/
import Mathlib.Tactic
import Montage.Number.Literal

namespace Montage

set_option autoImplicit false

/-- Digits and nothing else. -/
def AllDigits (cs : List Char) : Prop := ∀ c ∈ cs, c.isDigit = true

theorem allDigits_nil : AllDigits [] := fun _ member => absurd member (List.not_mem_nil)

theorem AllDigits.append {as bs : List Char} (first : AllDigits as) (second : AllDigits bs) :
    AllDigits (as ++ bs) :=
  fun c member => (List.mem_append.mp member).elim (first c) (second c)

theorem allDigits_replicate_zero (n : Nat) : AllDigits (List.replicate n '0') := by
  intro c member
  rw [List.eq_of_mem_replicate member]
  decide

theorem allDigits_toDigits (n : Nat) : AllDigits (Nat.toDigits 10 n) :=
  fun _ member => Nat.isDigit_of_mem_toDigits (by decide) (by decide) member

theorem AllDigits.sublist {as bs : List Char} (digits : AllDigits bs) (part : as.Sublist bs) :
    AllDigits as :=
  fun c member => digits c (part.subset member)

/-! ## Values -/

theorem digitsValue_eq (ds : List Char) : digitsValue ds = Nat.ofDigitChars 10 ds 0 := rfl

theorem digitsValue_append (as bs : List Char) :
    digitsValue (as ++ bs) = digitsValue as * 10 ^ bs.length + digitsValue bs := by
  rw [digitsValue_eq, digitsValue_eq, digitsValue_eq, Nat.ofDigitChars_append,
    Nat.ofDigitChars_eq_ofDigitChars_zero, Nat.mul_comm]

theorem digitsValue_zeros (n : Nat) : digitsValue (List.replicate n '0') = 0 := by
  rw [digitsValue_eq, Nat.ofDigitChars_replicate_zero, Nat.mul_zero]

theorem digitsValue_toDigits (n : Nat) : digitsValue (Nat.toDigits 10 n) = n :=
  Nat.ofDigitChars_ten_toDigits

/-- Zeros at the end move up what stands before them. -/
theorem digitsValue_append_zeros (ds : List Char) (n : Nat) :
    digitsValue (ds ++ List.replicate n '0') = digitsValue ds * 10 ^ n := by
  rw [digitsValue_append, digitsValue_zeros, List.length_replicate, Nat.add_zero]

/-- Zeros in front are lost. -/
theorem digitsValue_zeros_append (ds : List Char) (n : Nat) :
    digitsValue (List.replicate n '0' ++ ds) = digitsValue ds := by
  rw [digitsValue_append, digitsValue_zeros, Nat.zero_mul, Nat.zero_add]

/-! ## Printed counts -/

theorem digitChar_eq_zero_iff {d : Nat} (short : d < 10) : d.digitChar = '0' ↔ d = 0 := by
  have each : ∀ d < 10, (Nat.digitChar d = '0' ↔ d = 0) := by decide
  exact each d short

/-- Only zero is printed with a zero in front. -/
theorem head?_toDigits {n : Nat} (positive : 0 < n) : (Nat.toDigits 10 n).head? ≠ some '0' := by
  induction n using Nat.strong_induction_on with
  | _ n ih =>
      rw [Nat.toDigits_eq_if (by decide)]
      split
      · rename_i short
        rw [List.head?_cons, ne_eq, Option.some.injEq, digitChar_eq_zero_iff short]
        exact positive.ne'
      · rw [List.head?_append_of_ne_nil _ Nat.toDigits_ne_nil]
        exact ih (n / 10) (by omega) (by omega)

end Montage
