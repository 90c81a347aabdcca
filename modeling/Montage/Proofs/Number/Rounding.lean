/-
# Montage.Proofs.Number.Rounding -- rounding passes no double

Sums, differences and halves of doubles are rounded, and all that is used of the
rounding is that it is `Faithful`: on its way from the exact result to the rounded
one it passes no double.  So what is at least a double stays at least that double,
and what is at most one stays at most that one.

The exact result is followed through the shifts as a rational that is `Caught` by
a mantissa and its two residual bits: it lies on the unit that the mantissa begins,
and not at its beginning if a bit is set.
-/
import Montage.Proofs.Number.Point

namespace Montage

set_option autoImplicit false

open Float.Model
open Float.Model.UnpackedFloat

/-! ## Caught between two mantissas -/

/-- The rational lies on the unit that the mantissa begins, and not at its
beginning if a bit says that there is more. -/
structure Caught (q : Rat) (em : ExtendedMantissa) (e : Int) : Prop where
  above : binary em.mantissa e ≤ q
  below : q < binary (em.mantissa + 1) e
  strict : em.roundBit = true ∨ em.stickyBit = true → binary em.mantissa e < q

namespace Caught

theorem exact (m : Nat) (e : Int) : Caught (binary m e) ⟨m, false, false⟩ e where
  above := le_refl _
  below := (binary_lt_iff e).mpr (Nat.lt_succ_self m)
  strict set := by simp at set

/-- Half as many units, twice as long. -/
theorem shiftRightOne {q : Rat} {em : ExtendedMantissa} {e : Int} (caught : Caught q em e) :
    Caught q em.shiftRightOne (e + 1) where
  above := by
    refine le_trans ?_ caught.above
    show binary (em.mantissa / 2) (e + (1 : Nat)) ≤ _
    rw [← binary_shift, binary_le_iff]
    omega
  below := by
    refine lt_of_lt_of_le caught.below ?_
    show _ ≤ binary (em.mantissa / 2 + 1) (e + (1 : Nat))
    rw [← binary_shift, binary_le_iff]
    omega
  strict set := by
    show binary (em.mantissa / 2) (e + (1 : Nat)) < q
    rw [← binary_shift]
    by_cases more : em.roundBit = true ∨ em.stickyBit = true
    · refine lt_of_le_of_lt ?_ (caught.strict more)
      rw [binary_le_iff]
      omega
    · have odd : em.mantissa % 2 ≠ 0 := by
        have clear : em.roundBit = false ∧ em.stickyBit = false := by simpa using more
        simpa [ExtendedMantissa.shiftRightOne, clear] using set
      refine lt_of_lt_of_le ?_ caught.above
      rw [binary_lt_iff]
      omega

theorem shiftRight {q : Rat} {em : ExtendedMantissa} {e : Int} (caught : Caught q em e) (k : Nat) :
    Caught q (em >>> k) (e + k) := by
  induction k with
  | zero =>
      show Caught q em (e + (0 : Nat))
      simpa using caught
  | succ k ih =>
      have next := ih.shiftRightOne
      rw [add_assoc] at next
      exact next

end Caught

theorem shiftRight_mantissa (em : ExtendedMantissa) (k : Nat) :
    (em >>> k).mantissa = em.mantissa / 2 ^ k := by
  induction k with
  | zero => exact (Nat.div_one _).symm
  | succ k ih =>
      show (em >>> k).mantissa / 2 = _
      rw [ih, Nat.div_div_eq_div_mul, Nat.pow_succ]

theorem mantissa_ofAccuracy (m : Nat) (accuracy : Accuracy) :
    (ExtendedMantissa.ofMantissaAndAccuracy m accuracy).mantissa = m := by
  rcases accuracy with _ | (_ | _ | _) <;> rfl

/-- Rounding keeps a mantissa or takes the next one, and keeps it if both bits are
clear. -/
theorem roundedMantissa_cases (em : ExtendedMantissa) :
    em.roundedMantissa = em.mantissa
      ∨ em.roundedMantissa = em.mantissa + 1 ∧ (em.roundBit = true ∨ em.stickyBit = true) := by
  rcases em with ⟨m, _ | _, _ | _⟩
  · exact .inl rfl
  · exact .inl rfl
  · show m + m % 2 = m ∨ m + m % 2 = m + 1 ∧ _
    rcases Nat.mod_two_eq_zero_or_one m with even | odd
    · exact .inl (by omega)
    · exact .inr ⟨by omega, .inl rfl⟩
  · exact .inr ⟨rfl, .inl rfl⟩

/-! ## Rounding to a canonical pair -/

/-- On the way from one magnitude to the other there is no canonical one. -/
def Faithful (q v : Rat) : Prop :=
  ∀ m e, Canonical m e → (binary m e ≤ q → binary m e ≤ v) ∧ (q ≤ binary m e → v ≤ binary m e)

/-- Rounding to the unit of a canonical pair is faithful. -/
theorem faithful_of_caught {q : Rat} {em : ExtendedMantissa} {e : Int} (caught : Caught q em e)
    (canonical : Canonical em.mantissa e) : Faithful q (binary em.roundedMantissa e) := by
  have kept : binary em.mantissa e ≤ binary em.roundedMantissa e := by
    rw [binary_le_iff]
    rcases roundedMantissa_cases em with same | ⟨next, -⟩ <;> omega
  intro n f other
  rcases lt_or_ge f e with finer | coarser
  · -- The other pair lies below all that has this exponent.
    have below := other.lt_of_exponent_lt canonical finer
    refine ⟨fun _ => below.le.trans kept, fun least => ?_⟩
    exact absurd (below.trans_le caught.above) (not_lt.mpr least)
  · -- The other pair is a whole number of the units.
    rw [binary_of_le n coarser]
    generalize n * 2 ^ (f - e).toNat = units
    constructor
    · intro most
      refine le_trans ((binary_le_iff e).mpr ?_) kept
      have := (binary_lt_iff e).mp (most.trans_lt caught.below)
      omega
    · intro least
      rw [binary_le_iff]
      rcases roundedMantissa_cases em with same | ⟨next, bits⟩
      · rw [same]
        exact (binary_le_iff e).mp (caught.above.trans least)
      · rw [next]
        exact (binary_lt_iff e).mp ((caught.strict bits).trans_le least)

/-- By how much a mantissa is shifted. -/
def shiftAmount (m : Nat) (e : Int) : Nat := (max (m.log2 + 1 + e - 53) (-1074) - e).toNat

theorem shiftToTargetExponent_eq (m : Nat) (e : Int) (accuracy : Accuracy) :
    shiftToTargetExponent .binary64 m e accuracy
      = (ExtendedMantissa.ofMantissaAndAccuracy m accuracy >>> shiftAmount m e,
        e + shiftAmount m e) := rfl

/-- The first shift leads to a canonical pair. -/
theorem canonical_shift {m : Nat} {e : Int} (fits : 52 ≤ m.log2 ∨ e ≤ -1074) :
    Canonical (m / 2 ^ shiftAmount m e) (e + shiftAmount m e) := by
  unfold shiftAmount
  generalize shift : (max (m.log2 + 1 + e - 53) (-1074) - e).toNat = k
  refine ⟨?_, by omega, ?_⟩
  · rw [Nat.div_lt_iff_lt_mul (Nat.two_pow_pos k), ← Nat.pow_add]
    exact Nat.lt_log2_self.trans_le (Nat.pow_le_pow_right (by decide) (by omega))
  · by_cases lowest : e + k = -1074
    · exact .inr lowest
    · have long : 52 + k = m.log2 := by omega
      have nonzero : m ≠ 0 := by
        rintro rfl
        have := Nat.log2_zero
        omega
      rw [Nat.le_div_iff_mul_le (Nat.two_pow_pos k), ← Nat.pow_add, long]
      exact .inl (Nat.log2_self_le nonzero)

/-- What is short enough stays where it is, and a mantissa that rounding made one bit
too long is shifted once more. -/
theorem shift_rounded {m r : Nat} {e : Int} (canonical : Canonical m e)
    (rounded : r = m ∨ r = m + 1) :
    ∃ n f, Canonical n f ∧ binary n f = binary r e
      ∧ shiftToTargetExponent .binary64 r e .exact = (⟨n, false, false⟩, f) := by
  have short := canonical.short
  have low := canonical.low
  rw [shiftToTargetExponent_eq]
  rcases Nat.lt_or_ge r (2 ^ 53) with fits | long
  · have bits : r.log2 ≤ 52 := by
      rcases Nat.eq_zero_or_pos r with rfl | positive
      · simp
      · exact Nat.le_of_lt_succ ((Nat.log2_lt positive.ne').mpr fits)
    have none : shiftAmount r e = 0 := by
      unfold shiftAmount
      omega
    refine ⟨r, e, ⟨fits, low, ?_⟩, rfl, ?_⟩
    · have := canonical.full
      omega
    · rw [none]
      exact Prod.ext rfl (by simp)
  · obtain rfl : r = 2 ^ 53 := by omega
    have once : shiftAmount (2 ^ 53) e = 1 := by
      unfold shiftAmount
      rw [Nat.log2_two_pow]
      omega
    refine ⟨2 ^ 52, e + 1, ⟨by decide, by omega, .inl le_rfl⟩, ?_, ?_⟩
    · exact (binary_shift (2 ^ 52) 1 e).symm
    · rw [once]
      rfl

/-- The number that a sign and a canonical pair make. -/
def signed (s : Sign) (m : Nat) (e : Int) : UnpackedFloat :=
  if none : m = 0 then .zero s else .finite s m e (Nat.pos_of_ne_zero none)

/-- **Rounding is faithful**, and gives a canonical pair. -/
theorem roundWithAccuracy_spec (s : Sign) {q : Rat} {m : Nat} {e : Int} {accuracy : Accuracy}
    (caught : Caught q (.ofMantissaAndAccuracy m accuracy) e) (fits : 52 ≤ m.log2 ∨ e ≤ -1074) :
    ∃ n f, Canonical n f ∧ Faithful q (binary n f)
      ∧ roundWithAccuracy .binary64 s m e accuracy = signed s n f := by
  have canonical := canonical_shift fits
  have shifted := caught.shiftRight (shiftAmount m e)
  have first := shiftToTargetExponent_eq m e accuracy
  generalize shiftAmount m e = k at canonical shifted first
  have mantissa : (ExtendedMantissa.ofMantissaAndAccuracy m accuracy >>> k).mantissa = m / 2 ^ k := by
    rw [shiftRight_mantissa, mantissa_ofAccuracy]
  rw [← mantissa] at canonical
  obtain ⟨n, f, final, same, again⟩ := shift_rounded canonical
    ((roundedMantissa_cases _).imp_right And.left)
  refine ⟨n, f, final, same ▸ faithful_of_caught shifted canonical, ?_⟩
  unfold roundWithAccuracy
  simp only [first, again]
  rfl

/-- Shifting to the left adds bits. -/
theorem le_log2_shift {m : Nat} (positive : 0 < m) {b k : Nat} (enough : b ≤ m.log2 + k) :
    b ≤ (m * 2 ^ k).log2 := by
  rw [Nat.le_log2 (Nat.mul_pos positive (Nat.two_pow_pos k)).ne']
  calc 2 ^ b ≤ 2 ^ (m.log2 + k) := Nat.pow_le_pow_right (by decide) enough
    _ = 2 ^ m.log2 * 2 ^ k := Nat.pow_add _ _ _
    _ ≤ m * 2 ^ k := Nat.mul_le_mul_right _ (Nat.log2_self_le positive.ne')

/-- Rounding what may have too few bits is faithful too. -/
theorem round_spec (s : Sign) {m : Nat} (positive : 0 < m) (e : Int) :
    ∃ n f, Canonical n f ∧ Faithful (binary m e) (binary n f)
      ∧ UnpackedFloat.round .binary64 s m e = signed s n f := by
  have longer : UnpackedFloat.round .binary64 s m e
      = roundWithAccuracy .binary64 s (m * 2 ^ (e - max (m.log2 + 1 + e - 53) (-1074)).toNat)
          (e - (e - max (m.log2 + 1 + e - 53) (-1074)).toNat) .exact := by
    rw [← Nat.shiftLeft_eq]
    rfl
  rw [longer]
  generalize amount : (e - max (m.log2 + 1 + e - 53) (-1074)).toNat = k
  apply roundWithAccuracy_spec
  · have same : binary m e = binary (m * 2 ^ k) (e - k) := by
      rw [binary_shift, sub_add_cancel]
    rw [same]
    exact Caught.exact _ _
  · by_cases lowest : e - k ≤ -1074
    · exact .inr lowest
    · exact .inl (le_log2_shift positive (by omega))

/-! ## What a rounded result is as a double -/

/-- The point of a canonical pair among doubles: infinite if it is too large. -/
def cappedPoint (m : Nat) (e : Int) : Point :=
  if maxExponent < e then ⊤ else .rational (binary m e)

/-- Where a number stands as a double. -/
def packedPoint (u : UnpackedFloat) : Option Point :=
  pointOf (UnpackedFloat.unpack .binary64 (UnpackedFloat.pack .binary64 u))

theorem packedPoint_lodged {u : UnpackedFloat} (lodged : Lodged u) :
    packedPoint u = pointOf u := by
  rw [packedPoint, unpack_pack lodged]

theorem packedPoint_signed {m : Nat} {e : Int} (canonical : Canonical m e) :
    packedPoint (signed .positive m e) = some (cappedPoint m e) := by
  unfold signed cappedPoint
  split
  · rename_i none
    have lowest : ¬ maxExponent < e := by
      have := canonical.full
      unfold maxExponent
      omega
    have zero : binary m e = 0 := by simp [binary, none]
    rw [if_neg lowest, zero]
    exact packedPoint_lodged (u := .zero .positive) trivial
  · split
    · rename_i large
      rw [packedPoint, unpack_pack_large _ _ _ large]
      rfl
    · rename_i fits
      exact packedPoint_lodged ⟨canonical, by omega⟩

theorem cappedPoint_nonneg (m : Nat) (e : Int) : Point.rational 0 ≤ cappedPoint m e := by
  unfold cappedPoint
  split
  · exact le_top
  · exact Point.rational_le.mpr (binary_nonneg m e)

/-- A faithful result passes no double. -/
theorem Faithful.capped {q : Rat} {m n : Nat} {e f : Int} (faithful : Faithful q (binary m e))
    (canonical : Canonical m e) (double : Canonical n f) (fits : f ≤ maxExponent) :
    (binary n f ≤ q → .rational (binary n f) ≤ cappedPoint m e)
      ∧ (q ≤ binary n f → cappedPoint m e ≤ .rational (binary n f)) := by
  obtain ⟨lower, upper⟩ := faithful n f double
  unfold cappedPoint
  split
  · rename_i large
    refine ⟨fun _ => le_top, fun most => ?_⟩
    have below := double.lt_of_exponent_lt canonical (fits.trans_lt large)
    exact absurd (upper most) (not_le.mpr below)
  · exact ⟨fun least => Point.rational_le.mpr (lower least),
      fun most => Point.rational_le.mpr (upper most)⟩

end Montage
