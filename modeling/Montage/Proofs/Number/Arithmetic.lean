/-
# Montage.Proofs.Number.Arithmetic -- sums, differences, products and quotients of doubles

The four operations, on numbers that are positive: what they come to is the exact
result, rounded, and rounding passes no double.

Three facts follow about doubles that are not negative, an infinity among them: a sum
is at least each of its terms, a difference is not negative if what is taken away is
no larger, and a half is at most the whole.
-/
import Montage.Proofs.Number.Rounding

namespace Montage

set_option autoImplicit false

open Float.Model
open Float.Model.UnpackedFloat
open Point (rational)

/-! ## Doubles that are not negative -/

/-- A number that is not below zero. -/
inductive Nonneg : UnpackedFloat → Prop
  | zero (s : Sign) : Nonneg (.zero s)
  | finite (m : Nat) (e : Int) (positive : 0 < m) : Nonneg (.finite .positive m e positive)
  | infinity : Nonneg (.infinity .positive)

theorem point_zero : point 0.0 = some (rational 0) := rfl

theorem nonneg_of_point {u : UnpackedFloat} {p : Point} (stands : pointOf u = some p)
    (above : rational 0 ≤ p) : Nonneg u := by
  rcases u with (_ | _) | _ | s | ⟨_ | _, m, e, positive⟩
  · obtain rfl : ⊥ = p := Option.some.inj stands
    exact absurd above (not_le.mpr (Point.bot_lt_rational 0))
  · exact .infinity
  · exact absurd stands (by simp [pointOf])
  · exact .zero s
  · obtain rfl : rational (-binary m e) = p := Option.some.inj stands
    have := binary_pos positive e
    have := Point.rational_le.mp above
    linarith
  · exact .finite m e positive

theorem nonneg_of_le {x : Float} (le : (0.0 : Float) ≤ x) : Nonneg x.toModel.unpack := by
  obtain ⟨p, atZero, q, stands, above⟩ := le_iff_point.mp le
  obtain rfl : rational 0 = p := Option.some.inj (point_zero.symm.trans atZero)
  exact nonneg_of_point stands above

/-- Between zero and a rational there is no infinity. -/
theorem exact_of_le {x y : Float} (nonneg : (0.0 : Float) ≤ x) (le : x ≤ y)
    (finite : (exact y).isSome = true) : (exact x).isSome = true := by
  obtain ⟨t, known⟩ := Option.isSome_iff_exists.mp finite
  obtain ⟨p, hp, q, hq, below⟩ := le_iff_point.mp le
  obtain rfl : rational t = q := Option.some.inj ((exact_eq_some_iff.mp known).symm.trans hq)
  have form := nonneg_of_le nonneg
  unfold point at hp
  unfold exact
  generalize x.toModel.unpack = u at form hp
  cases form with
  | zero s => rfl
  | finite m e positive => rfl
  | infinity =>
      obtain rfl : ⊤ = p := Option.some.inj hp
      exact absurd (Point.rational_lt_top t) (not_lt.mpr below)

theorem Nonneg.point {u : UnpackedFloat} (nonneg : Nonneg u) : ∃ p ∈ pointOf u, rational 0 ≤ p := by
  cases nonneg with
  | zero s => exact ⟨rational 0, rfl, le_rfl⟩
  | finite m e positive =>
      exact ⟨rational (binary m e), rfl, Point.rational_le.mpr (binary_nonneg m e)⟩
  | infinity => exact ⟨⊤, rfl, le_top⟩

/-! ## Two mantissas at one exponent -/

/-- Nothing is lost where an exponent is decreased. -/
theorem decreaseExponent_spec (m : Nat) {e f : Int} (le : f ≤ e) :
    binary (decreaseExponent m e f).1 f = binary m e := by
  show binary (m <<< (e - f).toNat) f = _
  rw [Nat.shiftLeft_eq, ← binary_of_le m le]

theorem decreaseExponent_pos {m : Nat} (positive : 0 < m) (e f : Int) :
    0 < (decreaseExponent m e f).1 := by
  show 0 < m <<< _
  rw [Nat.shiftLeft_eq]
  exact Nat.mul_pos positive (Nat.two_pow_pos _)

theorem normalize_positive {m : Nat} (positive : 0 < m) (e : Int) (s : Sign) :
    UnpackedFloat.normalize .binary64 m e s = UnpackedFloat.round .binary64 .positive m e := by
  unfold UnpackedFloat.normalize
  rw [compare_gt_iff_gt.mpr (show (m : Int) > 0 by omega)]
  rfl

theorem packedPoint_zero (s : Sign) : packedPoint (.zero s) = some (rational 0) :=
  packedPoint_lodged (u := .zero s) trivial

theorem packedPoint_infinity : packedPoint (.infinity .positive) = some ⊤ :=
  packedPoint_lodged (u := .infinity .positive) trivial

/-! ## Sums -/

/-- Two zeros add up to one. -/
theorem add_zero_zero (s t : Sign) :
    ∃ r, UnpackedFloat.add .binary64 (.zero s) (.zero t) = .zero r := by
  cases s <;> cases t <;> exact ⟨_, rfl⟩

/-- The sum of two positive numbers passes no double. -/
theorem add_finite {m n : Nat} {e f : Int} (hm : 0 < m) (hn : 0 < n) :
    ∃ k g, Canonical k g ∧ Faithful (binary m e + binary n f) (binary k g)
      ∧ UnpackedFloat.add .binary64 (.finite .positive m e hm) (.finite .positive n f hn)
          = signed .positive k g := by
  rw [← decreaseExponent_spec m (min_le_left e f), ← decreaseExponent_spec n (min_le_right e f)]
  have positive := decreaseExponent_pos hm e (min e f)
  have sum : UnpackedFloat.add .binary64 (.finite .positive m e hm) (.finite .positive n f hn)
      = UnpackedFloat.normalize .binary64
          ((decreaseExponent m e (min e f)).1 + (decreaseExponent n f (min e f)).1 : Nat)
          (min e f) .positive := rfl
  rw [sum, normalize_positive (by omega), ← binary_add]
  exact round_spec .positive (by omega) _

/-- What something is added to stays at least where it was. -/
theorem le_add_unpacked {u v : UnpackedFloat} (hu : Nonneg u) (hv : Nonneg v) (lu : Lodged u)
    (lv : Lodged v) :
    ∃ p ∈ pointOf v, ∃ q ∈ packedPoint (UnpackedFloat.add .binary64 u v), p ≤ q := by
  obtain ⟨p, stands, above⟩ := hv.point
  refine ⟨p, stands, ?_⟩
  cases hu with
  | infinity =>
      refine ⟨⊤, ?_, le_top⟩
      cases hv <;> exact packedPoint_infinity
  | zero s =>
      cases hv with
      | zero t =>
          obtain rfl : rational 0 = p := Option.some.inj stands
          obtain ⟨r, sum⟩ := add_zero_zero s t
          exact ⟨rational 0, sum ▸ packedPoint_zero r, le_rfl⟩
      | finite n f positive => exact ⟨p, (packedPoint_lodged lv).trans stands, le_rfl⟩
      | infinity => exact ⟨p, (packedPoint_lodged lv).trans stands, le_rfl⟩
  | finite m e hm =>
      cases hv with
      | zero t =>
          obtain rfl : rational 0 = p := Option.some.inj stands
          obtain ⟨q, stays, nonneg⟩ := (Nonneg.finite m e hm).point
          exact ⟨q, (packedPoint_lodged lu).trans stays, nonneg⟩
      | finite n f hn =>
          obtain rfl : rational (binary n f) = p := Option.some.inj stands
          obtain ⟨k, g, canonical, faithful, sum⟩ := add_finite (e := e) (f := f) hm hn
          refine ⟨cappedPoint k g, sum ▸ packedPoint_signed canonical, ?_⟩
          refine (faithful.capped canonical lv.1 lv.2).1 ?_
          have := binary_nonneg m e
          linarith
      | infinity => exact ⟨p, (packedPoint_lodged lv).trans stands, le_rfl⟩

/-- **A sum is at least what is added to**, if nothing is negative. -/
theorem le_add_of_nonneg_left {x y : Float} (hx : (0.0 : Float) ≤ x) (hy : (0.0 : Float) ≤ y) :
    y ≤ x + y :=
  le_iff_point.mpr
    (le_add_unpacked (nonneg_of_le hx) (nonneg_of_le hy) (lodged_toModel x) (lodged_toModel y))

/-! ## Differences -/

theorem sub_zero_zero (s t : Sign) :
    ∃ r, UnpackedFloat.sub .binary64 (.zero s) (.zero t) = .zero r := by
  cases s <;> cases t <;> exact ⟨_, rfl⟩

/-- The difference of two positive numbers keeps its sign and passes no double. -/
theorem sub_finite {m n : Nat} {e f : Int} (hm : 0 < m) (hn : 0 < n)
    (le : binary n f ≤ binary m e) :
    ∃ k g, Canonical k g ∧ Faithful (binary m e - binary n f) (binary k g)
      ∧ UnpackedFloat.sub .binary64 (.finite .positive m e hm) (.finite .positive n f hn)
          = signed .positive k g := by
  rw [← decreaseExponent_spec m (min_le_left e f), ← decreaseExponent_spec n (min_le_right e f),
    binary_le_iff] at le
  have difference : UnpackedFloat.sub .binary64 (.finite .positive m e hm) (.finite .positive n f hn)
      = UnpackedFloat.normalize .binary64
          ((decreaseExponent m e (min e f)).1 - (decreaseExponent n f (min e f)).1 : Nat)
          (min e f) .positive := by
    rw [Int.ofNat_sub le]
    rfl
  rw [difference, ← decreaseExponent_spec m (min_le_left e f),
    ← decreaseExponent_spec n (min_le_right e f), ← binary_sub le]
  generalize (decreaseExponent m e (min e f)).1 - (decreaseExponent n f (min e f)).1 = rest
  rcases Nat.eq_zero_or_pos rest with rfl | positive
  · have zero (e : Int) : binary 0 e = 0 := by simp [binary]
    refine ⟨0, -1074, ⟨by decide, by decide, .inr rfl⟩, fun _ _ _ => ?_, rfl⟩
    rw [zero, zero]
    exact ⟨id, id⟩
  · rw [normalize_positive positive]
    exact round_spec .positive positive (min e f)

/-- Taking away no more than there is leaves nothing negative. -/
theorem sub_nonneg_unpacked {u v : UnpackedFloat} (hu : Nonneg u) (hv : Nonneg v) (lodged : Lodged u)
    (finite : pointOf v ≠ some ⊤) (le : ∃ p ∈ pointOf v, ∃ q ∈ pointOf u, p ≤ q) :
    ∃ q ∈ packedPoint (UnpackedFloat.sub .binary64 u v), rational 0 ≤ q := by
  obtain ⟨p, hp, q, hq, le⟩ := le
  cases hv with
  | infinity => exact absurd rfl finite
  | zero t =>
      cases hu with
      | zero s =>
          obtain ⟨r, difference⟩ := sub_zero_zero s t
          exact ⟨rational 0, difference ▸ packedPoint_zero r, le_rfl⟩
      | finite m e hm =>
          obtain ⟨q, stays, nonneg⟩ := (Nonneg.finite m e hm).point
          exact ⟨q, (packedPoint_lodged lodged).trans stays, nonneg⟩
      | infinity => exact ⟨⊤, packedPoint_infinity, le_top⟩
  | finite n f hn =>
      obtain rfl : rational (binary n f) = p := Option.some.inj hp
      cases hu with
      | zero s =>
          obtain rfl : rational 0 = q := Option.some.inj hq
          exact absurd (Point.rational_le.mp le) (not_le.mpr (binary_pos hn f))
      | finite m e hm =>
          obtain rfl : rational (binary m e) = q := Option.some.inj hq
          obtain ⟨k, g, canonical, -, difference⟩ := sub_finite hm hn (Point.rational_le.mp le)
          exact ⟨cappedPoint k g, difference ▸ packedPoint_signed canonical, cappedPoint_nonneg k g⟩
      | infinity => exact ⟨⊤, packedPoint_infinity, le_top⟩

/-- **A difference is not negative** if what is taken away is no larger, has a value
and is not negative itself. -/
theorem sub_nonneg_of_le {x y : Float} (hy : (0.0 : Float) ≤ y) (finite : (exact y).isSome)
    (le : y ≤ x) : (0.0 : Float) ≤ x - y := by
  obtain ⟨value, known⟩ := Option.isSome_iff_exists.mp finite
  have hv := nonneg_of_le hy
  have order := le_iff_point.mp le
  have hu : Nonneg x.toModel.unpack := by
    obtain ⟨p, hp, q, hq, below⟩ := order
    obtain ⟨p', hp', above⟩ := hv.point
    obtain rfl : p = p' := Option.some.inj (hp.symm.trans hp')
    exact nonneg_of_point hq (above.trans below)
  have notTop : pointOf y.toModel.unpack ≠ some ⊤ := by
    rw [show pointOf y.toModel.unpack = _ from exact_eq_some_iff.mp known]
    simpa using (Point.rational_lt_top value).ne
  exact le_iff_point.mpr
    ⟨rational 0, point_zero, sub_nonneg_unpacked hu hv (lodged_toModel x) notTop order⟩

/-! ## Products -/

theorem binary_mul_binary (m n : Nat) (e f : Int) :
    binary m e * binary n f = binary (m * n) (e + f) := by
  rw [binary, binary, binary, zpow_add₀ two_ne_zero, Nat.cast_mul]
  ring

/-- A product of doubles has bits enough: one full mantissa gives them, and without one the
exponent is low. -/
theorem product_fits {m n : Nat} {e f : Int} (cm : Canonical m e) (cn : Canonical n f) (hm : 0 < m)
    (hn : 0 < n) : 52 ≤ (m * n).log2 ∨ e + f ≤ -1074 := by
  have bits {b : Nat} (large : 2 ^ 52 ≤ b) : 52 ≤ b.log2 :=
    (Nat.le_log2 ((Nat.two_pow_pos 52).trans_le large).ne').mpr large
  rcases cm.full with full | low
  · exact .inl (bits (full.trans (Nat.le_mul_of_pos_right m hn)))
  · rcases cn.full with full | low'
    · exact .inl (bits (full.trans (Nat.le_mul_of_pos_left n hm)))
    · exact .inr (by omega)

/-- The product of two positive doubles passes no double. -/
theorem mul_finite {m n : Nat} {e f : Int} (cm : Canonical m e) (cn : Canonical n f) (hm : 0 < m)
    (hn : 0 < n) :
    ∃ k g, Canonical k g ∧ Faithful (binary m e * binary n f) (binary k g)
      ∧ UnpackedFloat.mul .binary64 (.finite .positive m e hm) (.finite .positive n f hn)
          = signed .positive k g := by
  rw [binary_mul_binary]
  exact roundWithAccuracy_spec .positive (Caught.exact _ _) (product_fits cm cn hm hn)

/-! ## Quotients -/

/-- A quotient of mantissas catches the quotient of the numbers. -/
theorem caught_quotient (m : Nat) {n : Nat} (positive : 0 < n) (e : Int) :
    Caught (binary m e / n) (.ofMantissaAndAccuracy (m / n) (accuracyOfFraction (m % n) n)) e := by
  have divisor : (0 : Rat) < n := by exact_mod_cast positive
  have parts := Nat.div_add_mod' m n
  have rest := Nat.mod_lt m positive
  constructor
  · rw [mantissa_ofAccuracy, le_div_iff₀ divisor, ← binary_mul, binary_le_iff]
    omega
  · rw [mantissa_ofAccuracy, div_lt_iff₀ divisor, ← binary_mul, binary_lt_iff, Nat.add_mul]
    omega
  · intro set
    have more : m % n ≠ 0 := by
      intro none
      rw [accuracyOfFraction, if_pos none] at set
      simp [ExtendedMantissa.ofMantissaAndAccuracy] at set
    rw [mantissa_ofAccuracy, lt_div_iff₀ divisor, ← binary_mul, binary_lt_iff]
    omega

/-- The exponent of a quotient of mantissas: low enough for the bits of a double. -/
def quotientExponent (m n : Nat) (e f : Int) : Int :=
  min (e - f) (max ((m.log2 + 1 + e) - (n.log2 + 1 + f) - 53) (-1074))

/-- A quotient is a quotient of mantissas, rounded, and there are bits enough of it. -/
theorem div_eq_round (s : Sign) {m n : Nat} {e f : Int} (hm : 0 < m) (hn : 0 < n) :
    ∃ k g, UnpackedFloat.div .binary64 (.finite s m e hm) (.finite .positive n f hn)
        = roundWithAccuracy .binary64 s (m * 2 ^ k / n) g (accuracyOfFraction (m * 2 ^ k % n) n)
      ∧ binary m e / binary n f = binary (m * 2 ^ k) g / n
      ∧ (52 ≤ (m * 2 ^ k / n).log2 ∨ g ≤ -1074) := by
  refine ⟨(e - f - quotientExponent m n e f).toNat, quotientExponent m n e f, ?_, ?_⟩
  · rw [← Nat.shiftLeft_eq]
    cases s <;> rfl
  generalize target : quotientExponent m n e f = g
  unfold quotientExponent at target
  generalize amount : (e - f - g).toNat = k
  constructor
  · have whole : g + k = e - f := by omega
    rw [binary_shift, whole, binary, binary, binary, zpow_sub₀ (by norm_num)]
    field_simp
  · by_cases lowest : g ≤ -1074
    · exact .inr lowest
    · have long : 2 ^ (53 + n.log2) ≤ m * 2 ^ k := by
        rw [← Nat.le_log2 (Nat.mul_pos hm (Nat.two_pow_pos k)).ne']
        exact le_log2_shift hm (by omega)
      have quotient : 2 ^ 52 ≤ m * 2 ^ k / n := by
        rw [Nat.le_div_iff_mul_le hn]
        calc 2 ^ 52 * n ≤ 2 ^ 52 * 2 ^ (n.log2 + 1) := Nat.mul_le_mul_left _ Nat.lt_log2_self.le
          _ = 2 ^ (53 + n.log2) := by
              rw [← Nat.pow_add]
              congr 1
              omega
          _ ≤ m * 2 ^ k := long
      exact .inl ((Nat.le_log2 ((Nat.two_pow_pos 52).trans_le quotient).ne').mpr quotient)

/-- The quotient by a positive number passes no double. -/
theorem div_finite (s : Sign) {m n : Nat} {e f : Int} (hm : 0 < m) (hn : 0 < n) :
    ∃ k g, Canonical k g ∧ Faithful (binary m e / binary n f) (binary k g)
      ∧ UnpackedFloat.div .binary64 (.finite s m e hm) (.finite .positive n f hn)
          = signed s k g := by
  obtain ⟨k, g, quotient, same, fits⟩ := div_eq_round s (e := e) (f := f) hm hn
  rw [quotient, same]
  exact roundWithAccuracy_spec s (caught_quotient _ hn _) fits

/-! ## Halves -/

theorem unpack_two : (2.0 : Float).toModel.unpack = .finite .positive (2 ^ 52) (-51) (by decide) :=
  rfl

/-- A half stays at most the whole. -/
theorem half_le_unpacked {u : UnpackedFloat} (hu : Nonneg u) (lodged : Lodged u) :
    ∃ p ∈ packedPoint
        (UnpackedFloat.div .binary64 u (.finite .positive (2 ^ 52) (-51) (by decide))),
      ∃ q ∈ pointOf u, p ≤ q := by
  cases hu with
  | zero s => exact ⟨rational 0, packedPoint_zero _, rational 0, rfl, le_rfl⟩
  | finite m e hm =>
      obtain ⟨k, g, canonical, faithful, half⟩ := div_finite .positive (e := e) (f := -51) hm
        (show 0 < 2 ^ 52 by decide)
      have two : binary (2 ^ 52) (-51) = 2 := by norm_num [binary]
      refine ⟨cappedPoint k g, half ▸ packedPoint_signed canonical, rational (binary m e), rfl, ?_⟩
      refine (faithful.capped canonical lodged.1 lodged.2).2 ?_
      rw [two]
      have := binary_nonneg m e
      linarith
  | infinity => exact ⟨⊤, packedPoint_infinity, ⊤, rfl, le_rfl⟩

/-- **A half is at most the whole**, if the whole is not negative. -/
theorem half_le_of_nonneg {x : Float} (hx : (0.0 : Float) ≤ x) : x / 2.0 ≤ x := by
  have half := half_le_unpacked (nonneg_of_le hx) (lodged_toModel x)
  rw [← unpack_two] at half
  exact le_iff_point.mpr half

end Montage
