/-
# Montage.Proofs.Motion.Stage -- what a window moves over is as large as the window

A picture is made larger than the clip before a window moves over it, and both the factor and
the product are doubles that have been rounded, before the product is rounded to an even
number.  A side stays at least what it was all the same: a side of a clip is an even number
and a double itself, and no rounding goes past one of these.

So much for sizes.  Strengths, rates and swings are bounded in the same way, as they are written.
-/
import Montage.Proofs.Motion.View
import Montage.Proofs.Effect.Check

namespace Montage

set_option autoImplicit false

/-! ## Even sides -/

/-- A rounded side is at least any even side that the number is at least. -/
theorem le_evenRound {x : Float} {q : Rat} {side : Nat} (known : exact x = some q)
    (even : side % 2 = 0) (word : side ≤ maxWord) (le : side ≤ q) : side ≤ evenRound x := by
  simp only [evenRound, known]
  split
  · rename_i small
    have least : (side : Rat) ≤ 2 := le.trans small
    exact_mod_cast least
  · have pairs : ((side / 2 : Nat) : Int) ≤ roundUp (q / 2) := by
      have halves : ((side / 2 : Nat) : Rat) * 2 = side := by
        exact_mod_cast Nat.div_mul_cancel (Nat.dvd_of_mod_eq_zero even)
      apply le_roundUp
      rw [Int.cast_natCast]
      linarith
    omega

namespace Motion

/-- A double that is the rounded product of an even side and a factor of one or more. -/
theorem le_evenRound_of_rounded {x : Float} {q : Rat} {side : Nat} (most : Nat)
    (rounded : Rounded q x) (even : side % 2 = 0) (word : side ≤ maxWord) (short : most < 2 ^ 53)
    (low : side ≤ q) (high : q ≤ most) : side ≤ evenRound x := by
  have side_short : side < 2 ^ 53 := word.trans_lt (by decide)
  obtain ⟨r, known, above, -⟩ :=
    rounded.between (isDouble_natCast side_short) (isDouble_natCast short) low high
  exact le_evenRound known even word above

/-! ## Factors -/

/-- The factor for a single pan is at least one, whatever the scales. -/
theorem panScale_between (p : KenBurns) :
    ∃ q, exact (panScale p.clamped) = some q ∧ 1 ≤ q ∧ q ≤ 4 := by
  obtain ⟨s, first, s_low, s_high⟩ := clampScale_between p.startScale
  obtain ⟨e, last, e_low, e_high⟩ := clampScale_between p.endScale
  unfold panScale
  split
  · rename_i grows
    have less : s < e := (lt_iff_exact first last).mp grows
    have one : exact (1.0 : Float) = some 1 := by decide +kernel
    obtain ⟨d, difference, d_low, d_high⟩ :=
      (Rounded.sub last first (by linarith) less.le).between isDouble_zero
        (isDouble_natCast (n := 3) (by decide)) (by linarith) (by push_cast; linarith)
    obtain ⟨q, sum, low, high⟩ :=
      (Rounded.add one difference zero_le_one d_low).between
        (isDouble_natCast (n := 1) (by decide)) (isDouble_natCast (n := 4) (by decide))
        (by push_cast; linarith) (by push_cast at d_high ⊢; linarith)
    exact ⟨q, sum, by exact_mod_cast low, by exact_mod_cast high⟩
  · exact ⟨3 / 2, by decide +kernel, by norm_num, by norm_num⟩

/-- **A side that is made larger for a pan stays at least what it was.** -/
theorem le_enlarged (p : KenBurns) {side : Nat} (even : side % 2 = 0) (word : side ≤ maxWord) :
    side ≤ enlarged side (panScale p.clamped) := by
  obtain ⟨q, factor, low, high⟩ := panScale_between p
  have short : side < 2 ^ 53 := word.trans_lt (by decide)
  have nonneg : (0 : Rat) ≤ side := side.cast_nonneg
  have product := Rounded.mul (exact_ofNat short) factor nonneg (by linarith)
  refine le_evenRound_of_rounded (4 * side) product even word ?_ ?_ ?_
  · unfold maxWord at word
    omega
  · exact le_mul_of_one_le_right nonneg low
  · push_cast
    nlinarith

/-- The moving side of a parallax stays at least what it was. -/
theorem le_widened {side : Nat} (even : side % 2 = 0) (word : side ≤ maxWord) :
    side ≤ evenRound (Float.ofNat side / windowShare) := by
  have share : exact windowShare = some (3602879701896397 / 4503599627370496) := by decide +kernel
  have short : side < 2 ^ 53 := word.trans_lt (by decide)
  have nonneg : (0 : Rat) ≤ side := side.cast_nonneg
  have quotient := Rounded.div (exact_ofNat short) share nonneg (by norm_num)
  refine le_evenRound_of_rounded (2 * side) quotient even word ?_ ?_ ?_
  · unfold maxWord at word
    omega
  · rw [le_div_iff₀ (by norm_num)]
    linarith
  · rw [div_le_iff₀ (by norm_num)]
    push_cast
    linarith

/-! ## Strengths, rates and swings -/

/-- The share of an intensity, as it is written, lies between none and all. -/
theorem strength_between (p : KenBurns) : 0 ≤ p.strength ∧ p.strength ≤ 1 := by
  obtain ⟨q, known, low, high⟩ := intensityFactor_between p.intensity
  rw [KenBurns.strength, Numeral.ofFloat_of_exact known]
  exact ⟨Numeral.value_ofRat_nonneg low, Numeral.value_ofRat_le_one high⟩

/-- A scale within its bounds, as it is written, is no less than a tenth. -/
theorem tenth_le_scale (scale : Float) :
    1 / 10 ≤ (Numeral.ofFloat (clampScale scale)).value := by
  obtain ⟨q, known, low, -⟩ := clampScale_between scale
  rw [Numeral.ofFloat_of_exact known]
  have least := Numeral.le_value_ofRat (k := 100000) (q := q) (by norm_num at low ⊢; exact low)
  norm_num at least ⊢
  exact least

theorem tenth_le_scales (p : KenBurns) :
    1 / 10 ≤ p.clamped.first.value ∧ 1 / 10 ≤ p.clamped.last.value :=
  ⟨tenth_le_scale p.startScale, tenth_le_scale p.endScale⟩

/-- The rate of a parallax that is shown is not negative. -/
theorem rate_nonneg {speed : Float} (usable : Seconds.isUsable speed = true) :
    0 ≤ (Numeral.ofFloat (speed / referenceSpeed)).value := by
  obtain ⟨q, known, positive⟩ := exists_exact_of_isUsable usable
  have reference : exact referenceSpeed = some (1 / 2) := by decide +kernel
  have quotient := Rounded.div known reference positive.le (by norm_num)
  cases rate : exact (speed / referenceSpeed) with
  | none => exact (Numeral.value_ofFloat_of_none rate).ge
  | some r =>
      rw [Numeral.ofFloat_of_exact rate]
      exact Numeral.value_ofRat_nonneg (quotient.nonneg (by positivity) rate)

theorem amplitude_nonneg (p : Cinemagraph) : 0 ≤ (amplitude p).value := by
  obtain ⟨q, known, low, -⟩ := intensityFactor_between p.intensity
  have half : exact maxAmplitude = some (1 / 2) := by decide +kernel
  have product := Rounded.mul known half low (by norm_num)
  unfold amplitude
  cases swing : exact (intensityFactor p.intensity * maxAmplitude) with
  | none => exact (Numeral.value_ofFloat_of_none swing).ge
  | some r =>
      rw [Numeral.ofFloat_of_exact swing]
      exact Numeral.value_ofRat_nonneg (product.nonneg (by positivity) swing)

theorem waveOffset_le (p : Cinemagraph) : waveOffset p ≤ 50 := by
  obtain ⟨q, known, low, high⟩ := intensityFactor_between p.intensity
  have most : exact maxWave = some 50 := by decide +kernel
  obtain ⟨r, product, -, r_high⟩ := (Rounded.mul known most low (by norm_num)).between
    isDouble_zero (isDouble_natCast (n := 50) (by decide)) (by positivity)
    (by push_cast; linarith)
  have rounded : roundUp r ≤ 50 := roundUp_le (k := 50) (by exact_mod_cast r_high)
  simp only [waveOffset, product]
  omega

end Motion

end Montage
