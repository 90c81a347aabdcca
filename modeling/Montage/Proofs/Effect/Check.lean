/-
# Montage.Proofs.Effect.Check -- the values of effects that are within their bounds

Whatever double is asked for, an intensity comes to a share between none and all, and a scale to
a value between the lowest and the highest one.  A pan or zoom is kept, with both scales
within their bounds, unless it is pointless, and a parallax that is shown has a positive speed.
-/
import Montage.Effect.Check
import Montage.Proofs.Number.Numeral
import Montage.Proofs.Number.Rounded

namespace Montage

set_option autoImplicit false

open Point (rational)

/-! ## Doubles within bounds -/

theorem exists_exact_of_isFinite {x : Float} (finite : x.isFinite = true) :
    ∃ q, exact x = some q := by
  have shape : x.toModel.unpack.isFinite = true := finite
  unfold exact
  generalize x.toModel.unpack = u at shape
  cases u with
  | zero s => exact ⟨_, rfl⟩
  | finite s m e positive => exact ⟨_, rfl⟩
  | infinity s | notANumber => cases shape

/-- What stands anywhere is moved between the ends of an interval. -/
theorem clampFloat_between {low high x : Float} {l h : Rat} {p : Point} (hl : exact low = some l)
    (hh : exact high = some h) (ordered : l ≤ h) (stands : point x = some p) :
    ∃ r, exact (clampFloat low high x) = some r ∧ l ≤ r ∧ r ≤ h := by
  unfold clampFloat
  split
  · exact ⟨l, hl, le_rfl, ordered⟩
  · rename_i notBelow
    split
    · exact ⟨h, hh, ordered, le_rfl⟩
    · rename_i notAbove
      rw [lt_iff_point, stands, exact_eq_some_iff.mp hl] at notBelow
      rw [lt_iff_point, stands, exact_eq_some_iff.mp hh] at notAbove
      exact exact_of_point stands (by simpa using notBelow) (by simpa using notAbove)

/-- The share of an intensity lies between none and all. -/
theorem intensityFactor_between (intensity : Float) :
    ∃ r, exact (intensityFactor intensity) = some r ∧ 0 ≤ r ∧ r ≤ 1 := by
  have zero : exact (0.0 : Float) = some 0 := by decide +kernel
  unfold intensityFactor
  split
  · rename_i finite
    obtain ⟨q, known⟩ := exists_exact_of_isFinite finite
    have ten : exact maxIntensity = some 10 := by decide +kernel
    have one : exact (1.0 : Float) = some 1 := by decide +kernel
    obtain ⟨p, stands⟩ := exists_point_div known ten (by norm_num)
    exact clampFloat_between zero one zero_le_one stands
  · exact ⟨0, zero, le_rfl, zero_le_one⟩

/-- A scale within its bounds lies between a tenth and three. -/
theorem clampScale_between (scale : Float) :
    ∃ r, exact (clampScale scale) = some r ∧ 1 / 10 ≤ r ∧ r ≤ 3 := by
  unfold clampScale
  split
  · rename_i finite
    obtain ⟨q, known⟩ := exists_exact_of_isFinite finite
    have least : exact minScale = some (3602879701896397 / 36028797018963968) := by decide +kernel
    have most : exact maxScale = some 3 := by decide +kernel
    obtain ⟨r, value, low, high⟩ :=
      clampFloat_between least most (by norm_num) (exact_eq_some_iff.mp known)
    exact ⟨r, value, le_trans (by norm_num) low, high⟩
  · exact ⟨1, by decide +kernel, by norm_num, by norm_num⟩

/-! ## Effects that are kept -/

theorem KenBurns.check_eq_effect_iff {p : KenBurns} {e : Effect} :
    p.check.value = .effect e ↔ p.clamped.pointless? = none ∧ e = .kenBurns p.clamped := by
  unfold check
  cases p.clamped.pointless? with
  | none =>
      show Checked.effect (.kenBurns p.clamped) = .effect e ↔ _
      constructor
      · intro same
        cases same
        exact ⟨rfl, rfl⟩
      · rintro ⟨-, rfl⟩
        rfl
  | some reason =>
      show Checked.fallback _ = .effect e ↔ _
      simp

/-- A speed that is usable stands for a positive number. -/
theorem exists_exact_of_isUsable {x : Float} (usable : Seconds.isUsable x = true) :
    ∃ q, exact x = some q ∧ 0 < q := by
  obtain ⟨finite, positive⟩ := Bool.and_eq_true_iff.mp usable
  obtain ⟨q, known⟩ := Option.isSome_iff_exists.mp finite
  have zero : exact (0.0 : Float) = some 0 := by decide +kernel
  exact ⟨q, known, (lt_iff_exact zero known).mp (of_decide_eq_true positive)⟩

/-- A double that stands for a positive number is usable. -/
theorem isUsable_of_exact {x : Float} {q : Rat} (known : exact x = some q) (positive : 0 < q) :
    Seconds.isUsable x = true := by
  have zero : exact (0.0 : Float) = some 0 := by decide +kernel
  have finite : Seconds.isFinite x = true := by
    show (exact x).isSome = true
    rw [known]
    rfl
  rw [Seconds.isUsable, finite, Bool.true_and]
  exact decide_eq_true ((lt_iff_exact zero known).mpr positive)

/-- A parallax that is shown has a usable speed. -/
theorem Effect.check_parallax (p : Parallax) :
    ∃ q : Parallax, (Effect.parallax p).check.value = .effect (.parallax q)
      ∧ q.slide = p.slide ∧ Seconds.isUsable q.speed = true := by
  by_cases usable : Seconds.isUsable p.speed = true
  · exact ⟨p, by rw [check, if_pos usable]; rfl, rfl, usable⟩
  · exact ⟨{ p with speed := 0.5 }, by rw [check, if_neg usable]; rfl, rfl,
      show Seconds.isUsable (0.5 : Float) = true by decide +kernel⟩

end Montage
