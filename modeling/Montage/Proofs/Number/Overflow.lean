/-
# Montage.Proofs.Number.Overflow -- which quotients have no value

A quotient of doubles is infinite from `2 ^ 1024` on, and it has a value up to the largest
double.  Nothing is said here of what lies between these two, where the rounding decides: for
the two quotients that filters are made of, nothing does.  Doubles are sparse enough that
doubling one, or dividing fifty by one, never comes out there.
-/
import Montage.Proofs.Number.Rounded

namespace Montage

set_option autoImplicit false

open Float.Model
open Float.Model.UnpackedFloat
open Point (rational)

/-! ## Neighbours -/

theorem binary_two_pow (k : Nat) (e : Int) : binary (2 ^ k) e = (2 : Rat) ^ ((k : Int) + e) := by
  rw [binary, zpow_add₀ two_ne_zero, zpow_natCast]
  push_cast
  rfl

/-- A canonical pair is at most the largest one of any exponent that is no lower. -/
theorem Canonical.le_longest {m : Nat} {e f : Int} (canonical : Canonical m e) (le : e ≤ f) :
    binary m e ≤ binary (2 ^ 53 - 1) f := by
  rw [binary_of_le _ le, binary_le_iff]
  calc m ≤ 2 ^ 53 - 1 := Nat.le_pred_of_lt canonical.short
    _ ≤ (2 ^ 53 - 1) * 2 ^ (f - e).toNat := Nat.le_mul_of_pos_right _ (Nat.two_pow_pos _)

/-- The largest double. -/
def largest : Rat := binary (2 ^ 53 - 1) maxExponent

theorem isDouble_largest : IsDouble largest :=
  ⟨_, _, ⟨by decide, by decide, .inl (by decide)⟩, le_rfl, rfl⟩

theorem isDouble_of_exact {x : Float} {q : Rat} (known : exact x = some q) (nonneg : 0 ≤ q) :
    IsDouble q := by
  have valued := valued_of_exact known nonneg
  generalize x.toModel.unpack = u at valued
  cases valued with
  | zero s => exact isDouble_zero
  | finite m e positive canonical fits => exact ⟨m, e, canonical, fits, rfl⟩

namespace IsDouble

variable {q : Rat}

/-- A double above a canonical pair is at least one unit above it. -/
theorem succ_le {n : Nat} {f : Int} (double : IsDouble q) (canonical : Canonical n f)
    (above : binary n f < q) : binary (n + 1) f ≤ q := by
  obtain ⟨m, e, other, -, rfl⟩ := double
  rcases lt_or_ge e f with finer | coarser
  · exact absurd above (not_lt.mpr (other.lt_of_exponent_lt canonical finer).le)
  · rw [binary_of_le m coarser] at above ⊢
    exact (binary_le_iff f).mpr ((binary_lt_iff f).mp above)

/-- A double below the first pair of an exponent is at most the last one of the exponent
before. -/
theorem le_longest {f : Int} (double : IsDouble q) (normal : -1074 ≤ f)
    (below : q < binary (2 ^ 52) (f + 1)) : q ≤ binary (2 ^ 53 - 1) f := by
  obtain ⟨m, e, canonical, -, rfl⟩ := double
  have lower : e ≤ f := by
    by_contra higher
    have first : Canonical (2 ^ 52) (f + 1) := ⟨by decide, by omega, .inl le_rfl⟩
    rcases (by omega : f + 1 < e ∨ e = f + 1) with later | rfl
    · exact absurd below (not_lt.mpr (first.lt_of_exponent_lt canonical later).le)
    · have full := canonical.full
      have short := (binary_lt_iff (f + 1)).mp below
      omega
  exact canonical.le_longest lower

end IsDouble

/-! ## Quotients -/

/-- Where the exact result is too large for any double, the rounded one is infinite. -/
theorem Faithful.capped_top {q : Rat} {m : Nat} {e : Int} (faithful : Faithful q (binary m e))
    (canonical : Canonical m e) (large : (2 : Rat) ^ 1024 ≤ q) : cappedPoint m e = ⊤ := by
  have limit : binary (2 ^ 52) 972 = (2 : Rat) ^ 1024 :=
    (binary_two_pow 52 972).trans (zpow_natCast 2 1024)
  have above := (faithful (2 ^ 52) 972 ⟨by decide, by decide, .inl le_rfl⟩).1 (limit ▸ large)
  unfold cappedPoint
  rw [if_pos]
  by_contra fits
  have most := canonical.le_longest (not_lt.mp fits)
  have less : binary (2 ^ 53 - 1) maxExponent < binary (2 ^ 52) (maxExponent + (1 : Nat)) := by
    rw [← binary_shift, binary_lt_iff]
    decide
  exact absurd above (not_le.mpr (most.trans_lt less))

theorem exact_div_of_large {x y : Float} {p q : Rat} (hx : exact x = some p) (hy : exact y = some q)
    (pq : 0 < q) (large : (2 : Rat) ^ 1024 ≤ p / q) : exact (x / y) = none := by
  have quotient : point (x / y)
      = packedPoint (UnpackedFloat.div .binary64 x.toModel.unpack y.toModel.unpack) := rfl
  have np : 0 < p := by
    have := (div_pos_iff_of_pos_right pq).mp (lt_of_lt_of_le (by positivity) large)
    exact this
  have vx := valued_of_exact hx np.le
  have vy := valued_of_exact hy pq.le
  generalize x.toModel.unpack = u at vx quotient
  generalize y.toModel.unpack = v at vy quotient
  cases vx with
  | zero s => exact absurd np (lt_irrefl 0)
  | finite m e hm cm fits =>
      cases vy with
      | zero t => exact absurd pq (lt_irrefl 0)
      | finite n f hn cn fits' =>
          obtain ⟨k, g, canonical, faithful, same⟩ := div_finite .positive (e := e) (f := f) hm hn
          rw [same, packedPoint_signed canonical, faithful.capped_top canonical large] at quotient
          by_contra value
          obtain ⟨r, known⟩ := Option.ne_none_iff_exists'.mp value
          have stands := quotient.symm.trans (exact_eq_some_iff.mp known)
          exact (Point.rational_lt_top r).ne' (Option.some.inj stands)

/-- Where no quotient lies between the largest double and the limit, it has no value exactly
from the limit on. -/
theorem exact_div_eq_none_iff {x y : Float} {p q : Rat} (hx : exact x = some p)
    (hy : exact y = some q) (np : 0 ≤ p) (pq : 0 < q)
    (sparse : p / q < 2 ^ 1024 → p / q ≤ largest) :
    exact (x / y) = none ↔ (2 : Rat) ^ 1024 ≤ p / q := by
  refine ⟨fun none => ?_, exact_div_of_large hx hy pq⟩
  by_contra small
  have below := sparse (not_le.mp small)
  obtain ⟨r, known, -⟩ := (Rounded.div hx hy np pq).between isDouble_zero isDouble_largest
    (div_nonneg np pq.le) below
  rw [none] at known
  cases known

/-- A double divided by one half. -/
theorem exact_div_half_eq_none_iff {x half : Float} {p : Rat} (hx : exact x = some p)
    (hy : exact half = some (1 / 2)) (np : 0 ≤ p) :
    exact (x / half) = none ↔ (2 : Rat) ^ 1023 ≤ p := by
  have limit : binary (2 ^ 52) (970 + 1) = (2 : Rat) ^ 1023 :=
    (binary_two_pow 52 971).trans (zpow_natCast 2 1023)
  have last : binary (2 ^ 53 - 1) 970 * 2 = largest := by
    have shift := binary_shift (2 ^ 53 - 1) 1 970
    rw [binary, Nat.cast_mul, mul_right_comm] at shift
    exact shift
  have twice : p / (1 / 2) = p * 2 := by ring
  have next : (2 : Rat) ^ 1024 = 2 ^ 1023 * 2 := pow_succ 2 1023
  rw [exact_div_eq_none_iff hx hy np (by norm_num), twice, next]
  · exact mul_le_mul_iff_left₀ two_pos
  · rw [twice, next, ← limit, ← last, mul_lt_mul_iff_left₀ two_pos, mul_le_mul_iff_left₀ two_pos]
    exact (isDouble_of_exact hx np).le_longest (f := 970) (by decide)

/-- Fifty divided by a double. -/
theorem exact_fifty_div_eq_none_iff {fifty y : Float} {q : Rat} (hx : exact fifty = some 50)
    (hy : exact y = some q) (pq : 0 < q) :
    exact (fifty / y) = none ↔ q ≤ 50 / 2 ^ 1024 := by
  have limit : binary (25 * 2 ^ 48) (-1071) = (50 : Rat) / 2 ^ 1024 := by
    have half : (2 : Rat) ^ 1024 = 2 ^ 1023 * 2 := pow_succ 2 1023
    rw [binary_shift 25 48 (-1071), half]
    show (25 : Rat) * 2 ^ (-((1023 : Nat) : Int)) = 50 / (2 ^ 1023 * 2)
    rw [zpow_neg, zpow_natCast]
    generalize (2 : Rat) ^ 1023 = top
    ring
  have canonical : Canonical (25 * 2 ^ 48) (-1071) := ⟨by decide, by decide, .inl (by decide)⟩
  rw [exact_div_eq_none_iff hx hy (by norm_num) pq, le_div_iff₀ pq, le_div_iff₀ (by positivity),
    mul_comm]
  intro below
  rw [div_lt_iff₀ pq, mul_comm, ← div_lt_iff₀ (by positivity), ← limit] at below
  have above := (isDouble_of_exact hy pq.le).succ_le canonical below
  rw [div_le_iff₀ pq]
  calc (50 : Rat) ≤ largest * binary (25 * 2 ^ 48 + 1) (-1071) := by
        have product : largest * binary (25 * 2 ^ 48 + 1) (-1071)
            = binary ((2 ^ 53 - 1) * (25 * 2 ^ 48 + 1)) (-100) := binary_mul_binary ..
        have whole : (50 : Rat) = binary (50 * 2 ^ 100) (-100) := by
          rw [binary_shift 50 100 (-100), binary]
          norm_num
        rw [product, whole, binary_le_iff]
        decide
    _ ≤ largest * q := mul_le_mul_of_nonneg_left above (binary_nonneg _ _)

end Montage
