/-
# Montage.Proofs.Number.Rounded -- what the arithmetic of doubles comes to

A double is `Rounded` from a rational if no double lies strictly between the two.  The four
operations are, from the exact result, as long as nothing is negative.  So a bound
on the exact result that is a double itself is a bound on the double that comes out,
and an exact result that is a double is what comes out.

Whole numbers below `2 ^ 53` are doubles (`exact_ofNat`).
-/
import Montage.Proofs.Number.Arithmetic

namespace Montage

set_option autoImplicit false

open Float.Model
open Float.Model.UnpackedFloat
open Point (rational)

/-! ## Order, where there is a value -/

theorem lt_iff_exact {x y : Float} {p q : Rat} (hx : exact x = some p) (hy : exact y = some q) :
    x < y ↔ p < q := by
  rw [lt_iff_point, exact_eq_some_iff.mp hx, exact_eq_some_iff.mp hy]
  simp

theorem le_iff_exact {x y : Float} {p q : Rat} (hx : exact x = some p) (hy : exact y = some q) :
    x ≤ y ↔ p ≤ q := by
  rw [le_iff_point, exact_eq_some_iff.mp hx, exact_eq_some_iff.mp hy]
  simp

/-- A point between two rationals is a rational. -/
theorem exact_of_point {x : Float} {p : Point} {l h : Rat} (stands : point x = some p)
    (low : rational l ≤ p) (high : p ≤ rational h) :
    ∃ r, exact x = some r ∧ l ≤ r ∧ r ≤ h := by
  match p with
  | ⊥ => exact absurd low (not_le.mpr (Point.bot_lt_rational l))
  | ⊤ => exact absurd high (not_le.mpr (Point.rational_lt_top h))
  | ((r : Rat) : WithTop Rat) =>
      exact ⟨r, exact_eq_some_iff.mpr stands, Point.rational_le.mp low, Point.rational_le.mp high⟩

/-! ## The rationals that doubles stand for -/

/-- The rational is not negative, and a double stands for it. -/
def IsDouble (q : Rat) : Prop := ∃ m e, Canonical m e ∧ e ≤ maxExponent ∧ binary m e = q

/-- What a double looks like that stands for a rational that is not negative. -/
inductive Valued : UnpackedFloat → Rat → Prop
  | zero (s : Sign) : Valued (.zero s) 0
  | finite (m : Nat) (e : Int) (positive : 0 < m) (canonical : Canonical m e)
      (fits : e ≤ maxExponent) : Valued (.finite .positive m e positive) (binary m e)

theorem valued_of_exact {x : Float} {q : Rat} (known : exact x = some q) (nonneg : 0 ≤ q) :
    Valued x.toModel.unpack q := by
  have stands : pointOf x.toModel.unpack = some (rational q) := exact_eq_some_iff.mp known
  have lodged := lodged_toModel x
  have above := nonneg_of_point stands (Point.rational_le.mpr nonneg)
  generalize x.toModel.unpack = u at above stands lodged
  cases above with
  | zero s =>
      obtain rfl := Point.rational_inj.mp (Option.some.inj stands)
      exact .zero s
  | finite m e positive =>
      obtain rfl := Point.rational_inj.mp (Option.some.inj stands)
      exact .finite m e positive lodged.1 lodged.2
  | infinity => exact absurd (Option.some.inj stands) (Point.rational_lt_top q).ne'

theorem binary_zero (e : Int) : binary 0 e = 0 := by simp [binary]

theorem isDouble_zero : IsDouble 0 :=
  ⟨0, -1074, ⟨by decide, by decide, .inr rfl⟩, by decide, binary_zero _⟩

/-- A mantissa that is not too long is a full one once it is shifted to the left. -/
theorem isDouble_binary {m : Nat} {e : Int} (short : m < 2 ^ 53) (low : -1022 ≤ e)
    (high : e ≤ maxExponent) : IsDouble (binary m e) := by
  rcases Nat.eq_zero_or_pos m with rfl | positive
  · rw [binary_zero]
    exact isDouble_zero
  · have bits : m.log2 < 53 := (Nat.log2_lt positive.ne').mpr short
    refine ⟨m * 2 ^ (52 - m.log2), e - (52 - m.log2 : Nat), ⟨?_, by omega, .inl ?_⟩, by omega, ?_⟩
    · calc m * 2 ^ (52 - m.log2) < 2 ^ (m.log2 + 1) * 2 ^ (52 - m.log2) :=
            Nat.mul_lt_mul_of_pos_right Nat.lt_log2_self (Nat.two_pow_pos _)
        _ = 2 ^ 53 := by
            rw [← Nat.pow_add]
            congr 1
            omega
    · calc 2 ^ 52 = 2 ^ m.log2 * 2 ^ (52 - m.log2) := by
            rw [← Nat.pow_add]
            congr 1
            omega
        _ ≤ m * 2 ^ (52 - m.log2) := Nat.mul_le_mul_right _ (Nat.log2_self_le positive.ne')
    · rw [binary_shift, sub_add_cancel]

theorem isDouble_natCast {n : Nat} (short : n < 2 ^ 53) : IsDouble n := by
  have double := isDouble_binary (e := 0) short (by decide) (by decide)
  rwa [binary, zpow_zero, mul_one] at double

/-! ## Rounded results -/

/-- No double lies strictly between the rational and the double. -/
def Rounded (q : Rat) (x : Float) : Prop :=
  ∃ p ∈ point x, ∀ t, IsDouble t → (t ≤ q → rational t ≤ p) ∧ (q ≤ t → p ≤ rational t)

namespace Rounded

variable {x y : Float} {p q l h : Rat}

theorem of_exact (known : exact x = some q) : Rounded q x :=
  ⟨rational q, exact_eq_some_iff.mp known, fun _ _ =>
    ⟨Point.rational_le.mpr, Point.rational_le.mpr⟩⟩

/-- What a canonical pair is packed into is rounded from what the pair is rounded from. -/
theorem of_signed {m : Nat} {e : Int} (canonical : Canonical m e)
    (faithful : Faithful q (binary m e)) (packed : point x = packedPoint (signed .positive m e)) :
    Rounded q x := by
  refine ⟨cappedPoint m e, packed.trans (packedPoint_signed canonical), ?_⟩
  rintro t ⟨n, f, double, fits, rfl⟩
  exact faithful.capped canonical double fits

/-- **A rounded result stays between doubles** that the exact one lies between. -/
theorem between (rounded : Rounded q x) (low : IsDouble l) (high : IsDouble h) (above : l ≤ q)
    (below : q ≤ h) : ∃ r, exact x = some r ∧ l ≤ r ∧ r ≤ h := by
  obtain ⟨p, stands, passes⟩ := rounded
  exact exact_of_point stands ((passes l low).1 above) ((passes h high).2 below)

theorem exact_eq (rounded : Rounded q x) (double : IsDouble q) : exact x = some q := by
  obtain ⟨r, known, low, high⟩ := rounded.between double double le_rfl le_rfl
  rw [known, le_antisymm high low]

theorem nonneg (rounded : Rounded q x) (above : 0 ≤ q) (known : exact x = some p) : 0 ≤ p := by
  obtain ⟨r, stands, passes⟩ := rounded
  obtain rfl : r = rational p := Option.some.inj (stands.symm.trans (exact_eq_some_iff.mp known))
  exact Point.rational_le.mp ((passes 0 isDouble_zero).1 above)

/-! ### The four operations -/

theorem add (hx : exact x = some p) (hy : exact y = some q) (np : 0 ≤ p) (nq : 0 ≤ q) :
    Rounded (p + q) (x + y) := by
  have sum : point (x + y)
      = packedPoint (UnpackedFloat.add .binary64 x.toModel.unpack y.toModel.unpack) := rfl
  have vx := valued_of_exact hx np
  have vy := valued_of_exact hy nq
  generalize x.toModel.unpack = u at vx sum
  generalize y.toModel.unpack = v at vy sum
  cases vx with
  | zero s =>
      rw [zero_add]
      cases vy with
      | zero t =>
          obtain ⟨r, zero⟩ := add_zero_zero s t
          exact of_exact (exact_eq_some_iff.mpr (sum.trans (zero ▸ packedPoint_zero r)))
      | finite n f hn cn fits =>
          exact of_exact (exact_eq_some_iff.mpr (sum.trans (packedPoint_lodged ⟨cn, fits⟩)))
  | finite m e hm cm fits =>
      cases vy with
      | zero t =>
          rw [add_zero]
          exact of_exact (exact_eq_some_iff.mpr (sum.trans (packedPoint_lodged ⟨cm, fits⟩)))
      | finite n f hn cn fits' =>
          obtain ⟨k, g, canonical, faithful, same⟩ := add_finite (e := e) (f := f) hm hn
          exact of_signed canonical faithful (same ▸ sum)

theorem sub (hx : exact x = some p) (hy : exact y = some q) (nq : 0 ≤ q) (le : q ≤ p) :
    Rounded (p - q) (x - y) := by
  have difference : point (x - y)
      = packedPoint (UnpackedFloat.sub .binary64 x.toModel.unpack y.toModel.unpack) := rfl
  have vx := valued_of_exact hx (nq.trans le)
  have vy := valued_of_exact hy nq
  generalize x.toModel.unpack = u at vx difference
  generalize y.toModel.unpack = v at vy difference
  cases vy with
  | zero t =>
      rw [sub_zero]
      cases vx with
      | zero s =>
          obtain ⟨r, zero⟩ := sub_zero_zero s t
          exact of_exact (exact_eq_some_iff.mpr (difference.trans (zero ▸ packedPoint_zero r)))
      | finite m e hm cm fits =>
          exact of_exact (exact_eq_some_iff.mpr (difference.trans (packedPoint_lodged ⟨cm, fits⟩)))
  | finite n f hn cn fits =>
      cases vx with
      | zero s => exact absurd le (not_le.mpr (binary_pos hn f))
      | finite m e hm cm fits' =>
          obtain ⟨k, g, canonical, faithful, same⟩ := sub_finite hm hn le
          exact of_signed canonical faithful (same ▸ difference)

theorem mul (hx : exact x = some p) (hy : exact y = some q) (np : 0 ≤ p) (nq : 0 ≤ q) :
    Rounded (p * q) (x * y) := by
  have product : point (x * y)
      = packedPoint (UnpackedFloat.mul .binary64 x.toModel.unpack y.toModel.unpack) := rfl
  have vx := valued_of_exact hx np
  have vy := valued_of_exact hy nq
  generalize x.toModel.unpack = u at vx product
  generalize y.toModel.unpack = v at vy product
  cases vx with
  | zero s =>
      rw [zero_mul]
      cases vy with
      | zero t => exact of_exact (exact_eq_some_iff.mpr (product.trans (packedPoint_zero _)))
      | finite n f hn cn fits =>
          exact of_exact (exact_eq_some_iff.mpr (product.trans (packedPoint_zero _)))
  | finite m e hm cm fits =>
      cases vy with
      | zero t =>
          rw [mul_zero]
          exact of_exact (exact_eq_some_iff.mpr (product.trans (packedPoint_zero _)))
      | finite n f hn cn fits' =>
          obtain ⟨k, g, canonical, faithful, same⟩ := mul_finite cm cn hm hn
          exact of_signed canonical faithful (same ▸ product)

theorem div (hx : exact x = some p) (hy : exact y = some q) (np : 0 ≤ p) (pq : 0 < q) :
    Rounded (p / q) (x / y) := by
  have quotient : point (x / y)
      = packedPoint (UnpackedFloat.div .binary64 x.toModel.unpack y.toModel.unpack) := rfl
  have vx := valued_of_exact hx np
  have vy := valued_of_exact hy pq.le
  generalize x.toModel.unpack = u at vx quotient
  generalize y.toModel.unpack = v at vy quotient
  cases vy with
  | zero t => exact absurd pq (lt_irrefl 0)
  | finite n f hn cn fits =>
      cases vx with
      | zero s =>
          rw [zero_div]
          exact of_exact (exact_eq_some_iff.mpr (quotient.trans (packedPoint_zero _)))
      | finite m e hm cm fits' =>
          obtain ⟨k, g, canonical, faithful, same⟩ := div_finite .positive (e := e) (f := f) hm hn
          exact of_signed canonical faithful (same ▸ quotient)

end Rounded

/-- A number of a canonical pair stands somewhere, whatever its sign. -/
theorem exists_packedPoint_signed (s : Sign) {m : Nat} {e : Int} (canonical : Canonical m e) :
    ∃ p, packedPoint (signed s m e) = some p := by
  unfold signed
  split
  · exact ⟨_, packedPoint_zero s⟩
  · rename_i nonzero
    by_cases large : maxExponent < e
    · rw [packedPoint, unpack_pack_large _ _ _ large]
      cases s <;> exact ⟨_, rfl⟩
    · exact ⟨_, packedPoint_lodged (u := .finite s m e _) ⟨canonical, not_lt.mp large⟩⟩

/-- A quotient by a positive double is no NaN, whatever the sign of the dividend. -/
theorem exists_point_div {x y : Float} {p q : Rat} (hx : exact x = some p) (hy : exact y = some q)
    (positive : 0 < q) : ∃ r, point (x / y) = some r := by
  have quotient : point (x / y)
      = packedPoint (UnpackedFloat.div .binary64 x.toModel.unpack y.toModel.unpack) := rfl
  have stands : pointOf x.toModel.unpack = some (rational p) := exact_eq_some_iff.mp hx
  have vy := valued_of_exact hy positive.le
  generalize x.toModel.unpack = u at quotient stands
  generalize y.toModel.unpack = v at vy quotient
  rw [quotient]
  cases vy with
  | zero t => exact absurd positive (lt_irrefl 0)
  | finite n f hn cn fits =>
      cases u with
      | notANumber => cases stands
      | infinity s =>
          cases s with
          | positive => exact absurd (Option.some.inj stands) (Point.rational_lt_top p).ne'
          | negative => exact absurd (Option.some.inj stands) (Point.bot_lt_rational p).ne
      | zero s => exact ⟨_, packedPoint_zero _⟩
      | finite s m e hm =>
          obtain ⟨k, g, canonical, -, same⟩ := div_finite s (e := e) (f := f) hm hn
          rw [same]
          exact exists_packedPoint_signed s canonical

/-! ## Counts -/

theorem exact_toFloat {n : Nat} (short : n < 2 ^ 53) :
    exact n.toUInt64.toFloat = some (n : Rat) := by
  have count : n.toUInt64.toNat = n := Nat.mod_eq_of_lt (by omega)
  have packed : point n.toUInt64.toFloat
      = packedPoint (UnpackedFloat.normalize .binary64 (n.toUInt64.toNat : Int) 0 .positive) := rfl
  rw [count] at packed
  refine Rounded.exact_eq ?_ (isDouble_natCast short)
  rcases Nat.eq_zero_or_pos n with rfl | positive
  · exact_mod_cast Rounded.of_exact (exact_eq_some_iff.mpr (packed.trans (packedPoint_zero _)))
  · rw [normalize_positive positive] at packed
    obtain ⟨k, g, canonical, faithful, same⟩ := round_spec .positive positive 0
    have whole : binary n 0 = n := by rw [binary, zpow_zero, mul_one]
    exact .of_signed canonical (whole ▸ faithful) (same ▸ packed)

/-- **A count that is not too long is a double of its own.** -/
theorem exact_ofNat {n : Nat} (short : n < 2 ^ 53) : exact (Float.ofNat n) = some (n : Rat) := by
  have one : exact (1.0 : Float) = some 1 := by decide +kernel
  have unfolded : Float.ofNat n = n.toUInt64.toFloat * 1.0 := by
    show Float.ofScientific n false 0 = _
    rw [Float.ofScientific, dif_pos ⟨short, by decide⟩]
    rfl
  rw [unfolded]
  have rounded := Rounded.mul (exact_toFloat short) one n.cast_nonneg zero_le_one
  rw [mul_one] at rounded
  exact rounded.exact_eq (isDouble_natCast short)

end Montage
