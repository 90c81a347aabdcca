/-
# Montage.Proofs.Seconds.Frames -- the frames that a stated length keeps

A length of `k` whole frames is stated in seconds, as the double nearest to `k / rate`.  Its
frames are counted from its product with the rate, so the count is rounded twice: once
when the length is stated, and once when it is multiplied, before anything is cut off.  A product
below `k` that is rounded to `k` loses nothing, and any other one below `k` loses a frame.

Which of them are rounded to `k` is known exactly: those that are below `k` by at most
half of the distance from `k` to the next double (`slack`).  Nothing else can happen, because the
two errors are much smaller than a frame.
-/
import Montage.Proofs.Number.Nearest
import Montage.Proofs.Seconds

namespace Montage

set_option autoImplicit false

/-- Half of the distance from a count to the largest double below it. -/
def slack (k : Nat) : Rat := 2 ^ ((Nat.clog 2 k : Int) - 54)

/-! ## A count among doubles -/

/-- A count as a long mantissa, so long that the double below it has the same exponent. -/
structure Scaled (k K : Nat) (e : Int) : Prop where
  low : 2 ^ 52 < K
  high : K ≤ 2 ^ 53
  even : K % 2 = 0
  normal : -1074 < e
  fits : e < 0
  value : binary K e = k
  half : binary 2 (e - 2) = slack k

theorem exists_scaled {k : Nat} (positive : 1 ≤ k) (short : k < 2 ^ 31) : ∃ K e, Scaled k K e := by
  have le := Nat.le_pow_clog Nat.one_lt_two k
  have bits : Nat.clog 2 k ≤ 31 := Nat.clog_le_of_le_pow short.le
  have full : 2 ^ Nat.clog 2 k < 2 * k := by
    rcases positive.eq_or_lt with rfl | more
    · decide
    · have := Nat.pow_pred_clog_lt_self Nat.one_lt_two more
      have pos := Nat.clog_pos Nat.one_lt_two more
      calc 2 ^ Nat.clog 2 k = 2 * 2 ^ (Nat.clog 2 k).pred := by
            rw [← Nat.pow_succ', Nat.succ_pred_eq_of_pos pos]
        _ < 2 * k := by omega
  have half : slack k = 2 ^ ((Nat.clog 2 k : Int) - 54) := rfl
  generalize Nat.clog 2 k = c at le bits full half
  have split : 2 ^ c * 2 ^ (53 - c) = 2 ^ 53 := by
    rw [← Nat.pow_add]
    congr 1
    omega
  refine ⟨k * 2 ^ (53 - c), c - 53, ?_, ?_, ?_, by omega, by omega, ?_, ?_⟩
  · have := Nat.mul_lt_mul_of_pos_right full (Nat.two_pow_pos (53 - c))
    rw [Nat.mul_assoc] at this
    omega
  · have := Nat.mul_le_mul_right (2 ^ (53 - c)) le
    omega
  · have last : 2 ^ (53 - c) = 2 ^ (52 - c) * 2 := by
      rw [← Nat.pow_succ]
      congr 1
      omega
    rw [last, ← Nat.mul_assoc, Nat.mul_mod_left]
  · have none : (c : Int) - 53 + (53 - c : Nat) = 0 := by omega
    rw [binary_shift, none, binary, zpow_zero, mul_one]
  · have one := binary_shift 1 1 (c - 53 - 2)
    have same : (c : Int) - 53 - 2 + (1 : Nat) = c - 54 := by omega
    rw [same, one_mul, pow_one] at one
    rw [half, one, binary, Nat.cast_one, one_mul]

namespace Scaled

variable {k K : Nat} {e : Int}

/-- The middle between a count and the double below it. -/
theorem middle (scaled : Scaled k K e) : binary (4 * K - 2) (e - 2) = k - slack k := by
  have := scaled.low
  rw [binary_sub (by omega), ← binary_quarters, scaled.value, scaled.half]

/-- From the middle on, a count attracts. -/
theorem attracts (scaled : Scaled k K e) {q : Rat} (low : k - slack k ≤ q) (high : q ≤ k) :
    ∃ n f, Canonical n f ∧ f ≤ maxExponent ∧ binary n f = k ∧ Attracts q n f := by
  have large := scaled.low
  have normal := scaled.normal
  have fits := scaled.fits
  have even := scaled.even
  have value := scaled.value
  rw [← scaled.middle] at low
  rcases scaled.high.lt_or_eq with short | rfl
  · have wide : lowerEnd K e = 4 * K - 2 := if_neg (by omega)
    refine ⟨K, e, ⟨short, normal.le, .inl large.le⟩, by unfold maxExponent; omega, value, ?_⟩
    refine ⟨wide ▸ low, high.trans ?_, fun odd => by omega⟩
    rw [← value, binary_quarters, binary_le_iff]
    omega
  · -- The count is a power of two, and the doubles below it are twice as dense.
    have narrow : lowerEnd (2 ^ 52) (e + 1) = 4 * 2 ^ 52 - 1 := if_pos ⟨rfl, by omega⟩
    have half : binary (4 * 2 ^ 52 - 1) (e + 1 - 2) = binary (4 * 2 ^ 53 - 2) (e - 2) := by
      have same : e + 1 - 2 - 1 = e - 2 := by omega
      rw [← binary_double, same]
      rfl
    have one : binary (2 ^ 52) (e + 1) = k := by
      rw [← value]
      exact (binary_shift (2 ^ 52) 1 e).symm
    refine ⟨2 ^ 52, e + 1, ⟨by decide, by omega, .inl le_rfl⟩, by unfold maxExponent; omega, one, ?_⟩
    refine ⟨by rwa [narrow, half], high.trans ?_, fun odd => absurd odd (by decide)⟩
    rw [← one, binary_quarters, binary_le_iff]
    omega

/-- Up to the middle, the double below attracts. -/
theorem below_attracts (scaled : Scaled k K e) {q : Rat} (low : binary (K - 1) e ≤ q)
    (high : q < k - slack k) : Canonical (K - 1) e ∧ Attracts q (K - 1) e := by
  have large := scaled.low
  have long := scaled.high
  have normal := scaled.normal
  have strict : binary (lowerEnd (K - 1) e) (e - 2) < q := by
    refine lt_of_lt_of_le ?_ low
    rw [binary_quarters (K - 1), binary_lt_iff]
    unfold lowerEnd
    split <;> omega
  have top : 4 * (K - 1) + 2 = 4 * K - 2 := by omega
  have less : q < binary (4 * (K - 1) + 2) (e - 2) := by rwa [top, scaled.middle]
  exact ⟨⟨by omega, normal.le, .inl (by omega)⟩, strict.le, less.le, fun _ => ⟨strict, less⟩⟩

end Scaled

/-! ## The product -/

/-- A power of two that is larger than twice the rate, and not much larger. -/
theorem exists_power {rate : Nat} (positive : 1 ≤ rate) (word : rate ≤ maxWord) :
    ∃ j, 2 * rate < 2 ^ j ∧ 2 ^ j ≤ 4 * rate ∧ j ≤ 34 := by
  have low := Nat.log2_self_le (n := rate) (by omega)
  have high := Nat.lt_log2_self (n := rate)
  have bits : rate.log2 < 32 := (Nat.log2_lt (by omega)).mpr (by unfold maxWord at word; omega)
  rw [Nat.pow_succ] at high
  refine ⟨rate.log2 + 2, ?_, ?_, by omega⟩ <;> rw [Nat.pow_add] <;> omega

/-- A stated length times the rate is close to the frames it was stated for. -/
theorem IsNearest.close {k rate : Nat} {x : Float} {r : Rat} (nearest : IsNearest (k / rate) x)
    (known : exact x = some r) (positive : 1 ≤ rate) (word : rate ≤ maxWord) (short : k < 2 ^ 31) :
    |r * rate - k| < 1 / 2 := by
  have divisor : (0 : Rat) < rate := by exact_mod_cast positive
  -- A double that is close enough: as many bits after the point as the rate has, and two more.
  obtain ⟨j, less, most, few⟩ := exists_power positive word
  have quotient := Nat.div_add_mod' (k * 2 ^ j) rate
  have rest := Nat.mod_lt (k * 2 ^ j) positive
  have fits : k * 2 ^ j / rate < 2 ^ 53 := by
    rw [Nat.div_lt_iff_lt_mul positive]
    calc k * 2 ^ j ≤ k * (4 * rate) := Nat.mul_le_mul_left k most
      _ = 4 * k * rate := by ring
      _ < 2 ^ 53 * rate := Nat.mul_lt_mul_of_pos_right (by omega) positive
  generalize k * 2 ^ j / rate = n at quotient fits
  obtain ⟨y, stands⟩ := (isDouble_binary (m := n) (e := -j) fits (by omega)
    (by unfold maxExponent; omega)).exists_float
  obtain ⟨s, value, least⟩ := nearest
  obtain rfl : r = s := Option.some.inj (known.symm.trans value)
  have closer := least y _ stands
  have power : (0 : Rat) < 2 ^ j := by positivity
  have unit : binary n (-j) = n / 2 ^ j := by rw [binary, zpow_neg, zpow_natCast, div_eq_mul_inv]
  have parts : (n : Rat) * rate + (k * 2 ^ j % rate : Nat) = k * 2 ^ j := by exact_mod_cast quotient
  have part : ((k * 2 ^ j % rate : Nat) : Rat) < rate := by exact_mod_cast rest
  have double : (2 : Rat) * rate < 2 ^ j := by exact_mod_cast less
  have scale (t : Rat) : |t * rate - k| = |t - k / rate| * rate := by
    rw [← abs_of_pos divisor, ← abs_mul, abs_of_pos divisor, sub_mul, div_mul_cancel₀ _ divisor.ne']
  have error : n / 2 ^ j * (rate : Rat) - k = -((k * 2 ^ j % rate : Nat) / 2 ^ j) := by
    field_simp
    linarith
  calc |r * rate - k| ≤ |binary n (-j) * rate - k| := by
        rw [scale, scale]
        exact mul_le_mul_of_nonneg_right closer divisor.le
    _ = (k * 2 ^ j % rate : Nat) / 2 ^ j := by
        rw [unit, error, abs_neg, abs_of_nonneg (by positivity)]
    _ < 1 / 2 := by
        rw [div_lt_div_iff₀ power two_pos]
        linarith

/-- The floor of what lies between the halves around a count. -/
theorem floor_near {k : Nat} (positive : 1 ≤ k) {v : Rat} (low : k - 1 / 2 ≤ v)
    (high : v ≤ k + 1 / 2) : v.floor.toNat = if k ≤ v then k else k - 1 := by
  have floor : v.floor = ⌊v⌋ := rfl
  split
  · rename_i above
    have same : ⌊v⌋ = k := by
      rw [Int.floor_eq_iff]
      push_cast
      constructor <;> linarith
    rw [floor, same, Int.toNat_natCast]
  · rename_i below
    have same : ⌊v⌋ = (k - 1 : Nat) := by
      rw [Int.floor_eq_iff, Nat.cast_sub positive]
      push_cast
      constructor <;> linarith
    rw [floor, same, Int.toNat_natCast]

section

variable {k rate : Nat} {x y : Float} {r v : Rat}

/-- A product too far below a count is rounded to less. -/
theorem product_lost {K : Nat} {e : Int} (scaled : Scaled k K e) (hx : exact x = some r)
    (hy : exact y = some (rate : Rat)) (pr : 0 < r) (pos : (0 : Rat) < rate)
    (lost : r * rate < k - slack k) (known : exact (x * y) = some v) : v < k := by
  have large := scaled.low
  have long := scaled.high
  have normal := scaled.normal
  have fits : e ≤ maxExponent := scaled.fits.le.trans (by decide)
  have less : binary (K - 1) e < k := by
    rw [← scaled.value, binary_lt_iff]
    omega
  rcases le_or_gt (binary (K - 1) e) (r * rate) with near | far
  · obtain ⟨canonical, attracts⟩ := scaled.below_attracts near lost
    have value := exact_of_unpack (unpack_mul hx hy pr pos canonical fits attracts)
    obtain rfl := Option.some.inj (known.symm.trans value)
    exact less
  · have previous : IsDouble (binary (K - 1) e) :=
      ⟨K - 1, e, ⟨by omega, normal.le, .inl (by omega)⟩, fits, rfl⟩
    obtain ⟨w, same, -, most⟩ := (Rounded.mul hx hy pr.le pos.le).between isDouble_zero previous
      (mul_pos pr pos).le far.le
    obtain rfl := Option.some.inj (known.symm.trans same)
    exact most.trans_lt less

/-- The product of a stated length and the rate has a value near the count, and it is the count
exactly if it is rounded up to it. -/
theorem product_near (hx : exact x = some r) (hy : exact y = some (rate : Rat)) (positive : 1 ≤ k)
    (short : k < 2 ^ 31) (close : |r * rate - k| < 1 / 2) (pr : 0 < r) (pos : (0 : Rat) < rate) :
    ∃ v, exact (x * y) = some v ∧ k - 1 / 2 ≤ v ∧ v ≤ k + 1 / 2
      ∧ (k ≤ v ↔ k - r * rate ≤ slack k) := by
  obtain ⟨least, most⟩ := abs_lt.mp close
  have exponent : (-1 : Int) ≤ maxExponent := by decide
  have half (n : Nat) : binary n (-1) = n / 2 := by
    rw [binary, zpow_neg, zpow_one, div_eq_mul_inv]
  have double (n : Nat) (fits : n < 2 ^ 53) : IsDouble (n / 2) :=
    half n ▸ isDouble_binary fits (by decide) exponent
  have lower : (k : Rat) - 1 / 2 = (2 * k - 1 : Nat) / 2 := by
    rw [Nat.cast_sub (by omega)]
    push_cast
    ring
  have upper : (k : Rat) + 1 / 2 = (2 * k + 1 : Nat) / 2 := by
    push_cast
    ring
  have rounded := Rounded.mul hx hy pr.le pos.le
  have count := isDouble_natCast (n := k) (by omega)
  have nonneg : 0 ≤ slack k := (two_zpow_pos _).le
  obtain ⟨K, e, scaled⟩ := exists_scaled positive short
  rcases le_or_gt (k : Rat) (r * rate) with above | below
  · obtain ⟨v, known, low, high⟩ := rounded.between count (upper ▸ double _ (by omega)) above
      (by linarith)
    exact ⟨v, known, by linarith, high, iff_of_true low (by linarith)⟩
  rcases le_or_gt (k - slack k) (r * rate) with kept | lost
  · obtain ⟨n, f, canonical, fits, same, attracts⟩ := scaled.attracts kept below.le
    have value := exact_of_unpack (unpack_mul hx hy pr pos canonical fits attracts)
    rw [same] at value
    exact ⟨k, value, by linarith, by linarith, iff_of_true le_rfl (by linarith)⟩
  · obtain ⟨v, known, low, high⟩ := rounded.between (lower ▸ double _ (by omega)) count
      (by linarith) below.le
    have less := product_lost scaled hx hy pr pos lost known
    exact ⟨v, known, low, by linarith, iff_of_false less.not_ge (by linarith)⟩

end

/-- **The frames of a stated length.**  A length that was stated for `k` frames covers `k` frames
or one less, and it keeps the last one exactly if its product with the rate is not too far below
`k`. -/
theorem wholeFrames_of_nearest {k rate : Nat} {x : Float} {r : Rat} (positive : 1 ≤ rate)
    (word : rate ≤ maxWord) (some_ : 1 ≤ k) (short : k < 2 ^ 31)
    (nearest : IsNearest (k / rate) x) (known : exact x = some r) :
    Seconds.wholeFrames rate x = if k = 1 ∨ k - r * rate ≤ slack k then k else k - 1 := by
  have close := nearest.close known positive word short
  have pos : (0 : Rat) < rate := by exact_mod_cast positive
  have one : (1 : Rat) ≤ k := by exact_mod_cast some_
  have pr : 0 < r := by
    by_contra none
    have := mul_nonpos_of_nonpos_of_nonneg (not_lt.mp none) pos.le
    have := (abs_lt.mp close).1
    linarith
  have count : exact (Float.ofNat rate) = some (rate : Rat) :=
    exact_ofNat (word.trans_lt (by decide))
  have zero : exact (0.0 : Float) = some 0 := rfl
  have usable : Seconds.isUsable x = true := by
    have finite : Seconds.isFinite x = true := by
      show (exact x).isSome = true
      rw [known]
      rfl
    rw [Seconds.isUsable, finite, Bool.true_and, decide_eq_true_eq]
    exact (lt_iff_exact zero known).mpr pr
  obtain ⟨v, value, low, high, kept⟩ := product_near known count some_ short close pr pos
  have most : k ≤ maxLong := by
    unfold maxLong
    omega
  rw [Seconds.wholeFrames_of_exact usable value, floor_near some_ low high]
  by_cases enough : (k : Rat) ≤ v
  · rw [if_pos enough, if_pos (.inr (kept.mp enough))]
    omega
  · rw [if_neg enough]
    by_cases single : k = 1
    · rw [if_pos (.inl single)]
      omega
    · rw [if_neg (not_or.mpr ⟨single, fun small => enough (kept.mpr small)⟩)]
      omega

theorem exact_twelve_hundredths : exact (0.12 : Float) = some (binary 8646911284551352 (-56)) := rfl

theorem isNearest_twelve_hundredths : IsNearest (3 / 25) 0.12 := by
  have canonical : Canonical 8646911284551352 (-56) := ⟨by decide, by decide, .inl (by decide)⟩
  refine isNearest_of_attracts exact_twelve_hundredths canonical ?_
  constructor <;> norm_num [binary, lowerEnd]

/-- Three frames are kept at 25 frames a second, where the product is too small by less than the
slack. -/
theorem wholeFrames_three : (1 ≤ 25 ∧ 25 ≤ maxWord ∧ 1 ≤ 3 ∧ 3 < 2 ^ 31)
    ∧ IsNearest (3 / 25) 0.12 ∧ Seconds.wholeFrames 25 (0.12 : Float) = 3 := by
  refine ⟨by decide, isNearest_twelve_hundredths, ?_⟩
  have positive : 1 ≤ 25 := by decide
  have counted := wholeFrames_of_nearest (k := 3) positive (by decide) (by decide) (by decide)
    isNearest_twelve_hundredths exact_twelve_hundredths
  have digits : Nat.clog 2 3 = 2 := by decide
  rw [counted, if_pos]
  exact .inr (by norm_num [slack, binary, digits])

/-- Of 29 frames at 25 frames a second, which are 1.16 seconds, one is lost. -/
theorem wholeFrames_twentyNine :
    IsNearest (29 / 25) 1.16 ∧ Seconds.wholeFrames 25 (1.16 : Float) = 28 := by
  have known : exact (1.16 : Float) = some (binary 5224175567749775 (-52)) := rfl
  have product : exact (1.16 * Float.ofNat 25) = some (binary 8162774324609023 (-48)) := rfl
  have canonical : Canonical 5224175567749775 (-52) := ⟨by decide, by decide, .inl (by decide)⟩
  constructor
  · refine isNearest_of_attracts known canonical ?_
    constructor <;> norm_num [binary, lowerEnd]
  · have usable : Seconds.isUsable (1.16 : Float) = true := by decide
    rw [Seconds.wholeFrames_of_exact usable product,
      floor_near (k := 29) (by decide) (by norm_num [binary]) (by norm_num [binary]),
      if_neg (by norm_num [binary])]
    decide

end Montage
