/-
# Montage.Proofs.Number.Decimal -- decimals are read as the double that attracts them

A decimal is read in two ways.  A short one is a product or a quotient of two doubles that stand
for its coefficient and its power of ten exactly.  Any other one goes through the same rounding
with a coefficient and a power of ten of any length, and powers of ten beyond the range
of doubles are not even computed.  Either way a decimal comes out as the double that attracts
it, and a double is determined by the number that it stands for.
-/
import Montage.Proofs.Number.Literal
import Montage.Proofs.Number.Nearest

namespace Montage

set_option autoImplicit false

open Float.Model
open Float.Model.UnpackedFloat

/-! ## What makes a double -/

/-- The three fields of a packed double make it up. -/
theorem eq_of_fields {b c : BitVec 64} (sign : @unpackSign .binary64 b = @unpackSign .binary64 c)
    (exponent : @unpackExponent .binary64 b = @unpackExponent .binary64 c)
    (mantissa : @unpackMantissa .binary64 b = @unpackMantissa .binary64 c) : b = c := by
  apply BitVec.eq_of_getLsbD_eq
  intro i hi
  rcases Nat.lt_or_ge i 52 with low | high
  · have bit := congrArg (fun v => v.getLsbD i) mantissa
    simpa [unpackMantissa, low] using bit
  · rcases Nat.lt_or_ge i 63 with middle | top
    · have bit := congrArg (fun v => v.getLsbD (i - 52)) exponent
      have inside : i - 52 < 11 := by omega
      have back : 52 + (i - 52) = i := by omega
      simpa [unpackExponent, inside, back] using bit
    · obtain rfl : i = 63 := by omega
      have bit := congrArg (fun v => v.getLsbD 0) sign
      rw [BitVec.getLsbD_eq_getElem (by decide), BitVec.getLsbD_eq_getElem (by decide)]
      simpa [unpackSign, ← BitVec.getLsbD_eq_getElem] using bit

theorem ofBitVec_inj {s t : BitVec 1} (same : Sign.ofBitVec s = Sign.ofBitVec t) : s = t := by
  rcases BitVec.eq_zero_or_eq_one s with rfl | rfl <;>
    rcases BitVec.eq_zero_or_eq_one t with rfl | rfl <;> first | rfl | cases same

/-- Except for NaNs, different fields stand for different numbers. -/
theorem ofFields_inj {s t : Sign} {e f : BitVec 11} {m n : BitVec 52}
    (same : ofFields s e m = ofFields t f n) (value : ofFields s e m ≠ .notANumber) :
    s = t ∧ e = f ∧ m = n := by
  have hm := m.isLt
  have hn := n.isLt
  suffices parts : s = t ∧ e.toNat = f.toNat ∧ m.toNat = n.toNat from
    ⟨parts.1, BitVec.toNat_inj.mp parts.2.1, BitVec.toNat_inj.mp parts.2.2⟩
  unfold ofFields at same value
  split_ifs at same value <;> grind

/-- **A double is determined by the number that it stands for**, its sign included. -/
theorem eq_of_unpack {x y : Float} (same : x.toModel.unpack = y.toModel.unpack)
    (value : x.toModel.unpack ≠ .notANumber) : x = y := by
  obtain ⟨⟨⟨b⟩, hb⟩⟩ := x
  obtain ⟨⟨⟨c⟩, hc⟩⟩ := y
  change UnpackedFloat.unpack .binary64 b = UnpackedFloat.unpack .binary64 c at same
  change UnpackedFloat.unpack .binary64 b ≠ _ at value
  rw [unpack_eq] at same value
  rw [unpack_eq] at same
  obtain ⟨sign, exponent, mantissa⟩ := ofFields_inj same value
  obtain rfl := eq_of_fields (ofBitVec_inj sign) exponent mantissa
  rfl

/-! ## Short decimals -/

/-- The powers of ten that short decimals are made with. -/
theorem exact_powersOfTen : ∀ k (h : k < Float.exactlyRepresentablePowersOfTen.size),
    exact Float.exactlyRepresentablePowersOfTen[k] = some ((10 : Rat) ^ k) := by
  decide +kernel

section

variable {m n : Nat} {f : Int}

/-- What is attracted by something is not zero. -/
theorem Attracts.pos {q : Rat} (attracts : Attracts q n f) (some_ : 0 < n) : 0 < q := by
  have ends := lowerEnd_ge n f
  exact (binary_pos (by omega) _).trans_le attracts.low

theorem unpack_ofScientific_short (s : Bool) {k : Nat} (short : m < 2 ^ 53) (few : k ≤ 22)
    (some_ : 0 < n) (double : Canonical n f) (fits : f ≤ maxExponent)
    (attracts : Attracts (m * 10 ^ (if s then -(k : Int) else k)) n f) :
    (Float.ofScientific m s k).toModel.unpack = signed .positive n f := by
  have positive : (0 : Rat) < m := by
    have := attracts.pos some_
    exact pos_of_mul_pos_left this (zpow_pos (by norm_num) _).le
  have power : (0 : Rat) < 10 ^ k := by positivity
  have size : k < Float.exactlyRepresentablePowersOfTen.size := Nat.lt_succ_of_le few
  have ten := exact_powersOfTen k size
  rw [Float.ofScientific, dif_pos ⟨short, few⟩]
  cases s with
  | true =>
      rw [if_pos rfl, zpow_neg, zpow_natCast, ← div_eq_mul_inv] at attracts
      exact unpack_div (exact_toFloat short) ten positive power double fits attracts
  | false =>
      rw [if_neg Bool.false_ne_true, zpow_natCast] at attracts
      exact unpack_mul (exact_toFloat short) ten positive power double fits attracts

/-! ## Decimals of any length -/

/-- What is attracted lies in the range of doubles. -/
theorem Attracts.range {q : Rat} (attracts : Attracts q n f) (some_ : 0 < n)
    (double : Canonical n f) (fits : f ≤ maxExponent) :
    (2 : Rat) ^ (-1076 : Int) ≤ q ∧ q < 2 ^ (1026 : Int) := by
  have ends := lowerEnd_ge n f
  have short := double.short
  have low := double.low
  constructor
  · refine le_trans ?_ attracts.low
    calc (2 : Rat) ^ (-1076 : Int) ≤ 2 ^ (f - 2) := zpow_le_zpow_right₀ one_le_two (by omega)
      _ ≤ binary (lowerEnd n f) (f - 2) := by
          refine le_mul_of_one_le_left (two_zpow_pos _).le ?_
          exact_mod_cast show 1 ≤ lowerEnd n f by omega
  · refine lt_of_le_of_lt attracts.high ?_
    unfold maxExponent at fits
    calc binary (4 * n + 2) (f - 2) < binary (2 ^ 57) (f - 2) := (binary_lt_iff _).mpr (by omega)
      _ = 2 ^ ((57 : Nat) + (f - 2)) := binary_two_pow 57 (f - 2)
      _ ≤ 2 ^ (1026 : Int) := zpow_le_zpow_right₀ one_le_two (by push_cast; omega)

/-- A decimal beyond the range of doubles is attracted by none. -/
theorem Attracts.exponent_le {z : Int} (attracts : Attracts (m * 10 ^ z) n f) (some_ : 0 < n)
    (double : Canonical n f) (fits : f ≤ maxExponent) (positive : 0 < m) : z ≤ 2 ^ 11 := by
  by_contra large
  have one : (1 : Rat) ≤ m := by exact_mod_cast positive
  refine absurd (attracts.range some_ double fits).2 (not_lt.mpr ?_)
  calc (2 : Rat) ^ (1026 : Int) ≤ 2 ^ z := zpow_le_zpow_right₀ one_le_two (by omega)
    _ ≤ 10 ^ z := zpow_le_zpow_left₀ (by omega) (by norm_num) (by norm_num)
    _ ≤ m * 10 ^ z := le_mul_of_one_le_left (zpow_pos (by norm_num) _).le one

theorem Attracts.le_exponent {z : Int} (attracts : Attracts (m * 10 ^ z) n f) (some_ : 0 < n)
    (double : Canonical n f) (fits : f ≤ maxExponent) : -(2 ^ 11 + (m.log2 : Int)) ≤ z := by
  by_contra small
  have long : (m : Rat) < 2 ^ (m.log2 + 1) := by exact_mod_cast Nat.lt_log2_self
  refine absurd (attracts.range some_ double fits).1 (not_le.mpr ?_)
  calc (m : Rat) * 10 ^ z ≤ m * 2 ^ z := by
        refine mul_le_mul_of_nonneg_left ?_ m.cast_nonneg
        obtain ⟨k, rfl⟩ : ∃ k : Nat, z = -k := ⟨(-z).toNat, by omega⟩
        rw [zpow_neg, zpow_neg, zpow_natCast, zpow_natCast]
        exact inv_anti₀ (by positivity) (pow_le_pow_left₀ (by norm_num) (by norm_num) k)
    _ < 2 ^ (m.log2 + 1) * 2 ^ z := mul_lt_mul_of_pos_right long (two_zpow_pos z)
    _ = 2 ^ ((m.log2 + 1 : Nat) + z) := by rw [zpow_add₀ two_ne_zero, zpow_natCast]
    _ ≤ 2 ^ (-1076 : Int) := zpow_le_zpow_right₀ one_le_two (by push_cast; omega)

/-- A decimal without a fraction is its integer, rounded. -/
theorem ofScientific_whole {z : Int} (positive : 0 < m) (whole : 0 ≤ z) (fits : z ≤ 2 ^ 11) :
    ∃ k, UnpackedFloat.ofScientific .binary64 m z
        = roundWithAccuracy .binary64 .positive k (-53) .exact
      ∧ 52 ≤ k.log2 ∧ binary k (-53) = m * 10 ^ z := by
  have tens : 0 < 10 ^ z.toNat := Nat.pow_pos (by decide)
  refine ⟨m * 2 ^ 53 * 10 ^ z.toNat, ?_, ?_, ?_⟩
  · have low : ¬ z < -(2 ^ 11 + (m.log2 : Int)) := by omega
    rw [UnpackedFloat.ofScientific, dif_neg positive.ne', if_neg (by simpa using fits),
      if_neg (by simpa using low), if_pos whole, ← Nat.shiftLeft_eq]
    rfl
  · rw [Nat.le_log2 (Nat.mul_pos (by omega) tens).ne']
    calc 2 ^ 52 ≤ m * 2 ^ 53 := by omega
      _ ≤ m * 2 ^ 53 * 10 ^ z.toNat := Nat.le_mul_of_pos_right _ tens
  · have power : (10 : Rat) ^ z = 10 ^ z.toNat := by
      rw [← zpow_natCast, Int.toNat_of_nonneg whole]
    rw [Nat.mul_right_comm, binary_shift, binary, show (-53 : Int) + (53 : Nat) = 0 from rfl, zpow_zero,
      mul_one, power, Nat.cast_mul, Nat.cast_pow]
    rfl

/-- **A decimal of any length is read as the double that attracts it.** -/
theorem ofScientific_attracts {z : Int} (some_ : 0 < n) (double : Canonical n f)
    (fits : f ≤ maxExponent) (attracts : Attracts (m * 10 ^ z) n f) :
    UnpackedFloat.ofScientific .binary64 m z = signed .positive n f := by
  have positive : 0 < m := by
    have := attracts.pos some_
    exact_mod_cast pos_of_mul_pos_left this (zpow_pos (by norm_num : (0 : Rat) < 10) _).le
  have most := attracts.exponent_le some_ double fits positive
  have least := attracts.le_exponent some_ double fits
  rcases lt_or_ge z 0 with fraction | whole
  · have power : (10 : Rat) ^ z = (binary (10 ^ (-z).toNat) 0)⁻¹ := by
      rw [binary, zpow_zero, mul_one, Nat.cast_pow, Nat.cast_ofNat, ← zpow_natCast, ← zpow_neg,
        Int.toNat_of_nonneg (by omega), neg_neg]
    have integer : binary m 0 = m := by rw [binary, zpow_zero, mul_one]
    rw [power, ← div_eq_mul_inv, ← integer] at attracts
    rw [UnpackedFloat.ofScientific, dif_neg positive.ne', if_neg (by simpa using most),
      if_neg (by simpa using least), if_neg (by omega)]
    obtain ⟨k, g, canonical, nearest, same⟩ := div_nearest (e := 0) (f := 0) positive
      (Nat.pow_pos (n := (-z).toNat) (show 0 < 10 by decide))
    exact same.trans (nearest.signed_eq canonical double attracts .positive)
  · obtain ⟨k, same, long, value⟩ := ofScientific_whole positive whole most
    have pinned : Pinned (binary k (-53)) (.ofMantissaAndAccuracy k .exact) (-53) :=
      Pinned.exact _ _
    obtain ⟨o, g, canonical, nearest, rounded⟩ :=
      roundWithAccuracy_nearest .positive pinned (.inl long)
    rw [value] at nearest
    rw [same, rounded, nearest.signed_eq canonical double attracts]

theorem unpack_ofScientific (s : Bool) {k : Nat} (some_ : 0 < n) (double : Canonical n f)
    (fits : f ≤ maxExponent) (attracts : Attracts (m * 10 ^ (if s then -(k : Int) else k)) n f) :
    (Float.ofScientific m s k).toModel.unpack = signed .positive n f := by
  by_cases short : m < 2 ^ 53 ∧ k ≤ 22
  · exact unpack_ofScientific_short s short.1 short.2 some_ double fits attracts
  · rw [Float.ofScientific, dif_neg short]
    have power : (if s then Int.negOfNat k else Int.ofNat k) = if s then -(k : Int) else k := by
      cases s
      · rfl
      · exact Int.negOfNat_eq
    rw [← power] at attracts
    have packed := unpack_pack (lodged_signed .positive double fits)
    rw [← ofScientific_attracts some_ double fits attracts] at packed
    exact packed.trans (ofScientific_attracts some_ double fits attracts)

/-! ## Literals -/

/-- A minus in front changes nothing but the sign. -/
theorem unpack_neg_signed {x : Float} (double : Canonical n f) (fits : f ≤ maxExponent)
    (unpacked : x.toModel.unpack = signed .positive n f) :
    (-x).toModel.unpack = signed .negative n f := by
  have negated : (-x).toModel.unpack = UnpackedFloat.unpack .binary64
      (UnpackedFloat.pack .binary64 x.toModel.unpack.neg) := rfl
  have sign : (signed .positive n f).neg = signed .negative n f := by
    unfold signed
    split <;> rfl
  rw [negated, unpacked, sign, unpack_pack (lodged_signed _ double fits)]

namespace Literal

/-- What a literal says without its sign. -/
def magnitude (l : Literal) : Rat :=
  digitsValue (l.whole ++ l.places.getD []) * 10 ^ (l.power.getD 0 - (l.places.getD []).length)

/-- **A literal is the double that attracts what it says.** -/
theorem unpack_toFloat {l : Literal} (some_ : 0 < n) (double : Canonical n f)
    (fits : f ≤ maxExponent) (attracts : Attracts l.magnitude n f) :
    l.toFloat.toModel.unpack = signed (if l.negative then .negative else .positive) n f := by
  unfold magnitude at attracts
  simp only [toFloat]
  generalize l.power.getD 0 - ((l.places.getD []).length : Int) = z at attracts
  generalize digitsValue (l.whole ++ l.places.getD []) = m at attracts
  have absolute : (if 0 ≤ z then Float.ofScientific m false z.toNat
      else Float.ofScientific m true (-z).toNat).toModel.unpack = signed .positive n f := by
    split
    · apply unpack_ofScientific false some_ double fits
      rwa [if_neg Bool.false_ne_true, Int.toNat_of_nonneg ‹0 ≤ z›]
    · apply unpack_ofScientific true some_ double fits
      rwa [if_pos rfl, Int.toNat_of_nonneg (by omega), neg_neg]
  cases l.negative with
  | true => exact unpack_neg_signed double fits absolute
  | false => exact absolute

end Literal

/-! ## Counts -/

/-- A count that a 64-bit field holds is read as a number with a value. -/
theorem exists_exact_ofNat (fits : m ≤ maxLong) : ∃ q, exact (Float.ofNat m) = some q := by
  by_cases short : m < 2 ^ 53
  · exact ⟨_, exact_ofNat short⟩
  · obtain ⟨k, same, long, value⟩ :=
      ofScientific_whole (m := m) (z := 0) (by omega) le_rfl (by decide)
    have caught : Caught (binary k (-53)) (.ofMantissaAndAccuracy k .exact) (-53) :=
      Caught.exact _ _
    obtain ⟨o, g, canonical, faithful, round⟩ :=
      roundWithAccuracy_spec .positive caught (.inl long)
    rw [value, zpow_zero, mul_one] at faithful
    have slow : Float.ofNat m = .ofModel (.pack (signed .positive o g)) := by
      show Float.ofScientific m false 0 = _
      rw [Float.ofScientific, dif_neg (by omega), ← round, ← same]
      rfl
    have rounded : Rounded m (Float.ofNat m) := by
      rw [slow]
      exact .of_signed canonical faithful rfl
    have top : IsDouble (2 ^ 64 : Rat) := by
      have double := isDouble_binary (m := 2) (e := 63) (by decide) (by decide) (by decide)
      have same : binary 2 63 = 2 ^ 64 := by norm_num [binary]
      rwa [same] at double
    have most : (m : Rat) ≤ 2 ^ 64 := by
      unfold maxLong at fits
      exact_mod_cast show m ≤ 2 ^ 64 by omega
    obtain ⟨q, known, -⟩ := rounded.between isDouble_zero top m.cast_nonneg most
    exact ⟨q, known⟩

end

end Montage
