/-
# Montage.Proofs.Number.Numeral -- numerals keep the order of numbers

Rounding to the nearest integer keeps the order of numbers, whichever way a half goes, and leaves
integers alone.  So numerals are ordered like the numbers they are written for, up to numbers
that are written alike, and a number between two that are a whole count of millionths is
written as one between them.
-/
import Mathlib
import Montage.Seconds

namespace Montage

set_option autoImplicit false

/-! ## Nearest integers -/

/-- The nearest integer is one of the two around a rational: the upper one only behind
the middle. -/
theorem roundEven_cases (q : Rat) :
    roundEven q = ⌊q⌋ ∧ q - ⌊q⌋ ≤ 1 / 2 ∨ roundEven q = ⌊q⌋ + 1 ∧ 1 / 2 ≤ q - ⌊q⌋ := by
  have floor : q.floor = ⌊q⌋ := rfl
  simp only [roundEven, floor]
  split_ifs with below above even
  · exact .inl ⟨rfl, below.le⟩
  · exact .inr ⟨rfl, above.le⟩
  · exact .inl ⟨rfl, not_lt.mp above⟩
  · exact .inr ⟨rfl, not_lt.mp below⟩

theorem roundEven_intCast (k : Int) : roundEven k = k := by
  rcases roundEven_cases k with ⟨same, -⟩ | ⟨-, far⟩
  · rw [same, Int.floor_intCast]
  · norm_num at far

theorem roundEven_mono {p q : Rat} (le : p ≤ q) : roundEven p ≤ roundEven q := by
  have floors : ⌊p⌋ ≤ ⌊q⌋ := Int.floor_le_floor le
  rcases floors.lt_or_eq with less | same
  · rcases roundEven_cases p with ⟨hp, -⟩ | ⟨hp, -⟩ <;>
      rcases roundEven_cases q with ⟨hq, -⟩ | ⟨hq, -⟩ <;> omega
  · -- Between the same integers, the parity decides both where both are in the middle.
    rcases roundEven_cases p with ⟨hp, -⟩ | ⟨hp, late⟩
    · rcases roundEven_cases q with ⟨hq, -⟩ | ⟨hq, -⟩ <;> omega
    · rcases roundEven_cases q with ⟨hq, early⟩ | ⟨hq, -⟩
      · have equal : p = q := by
          rw [same] at late
          linarith
        rw [equal]
      · omega

/-- The nearest integer, a half going up, is at least any integer that the rational is at least. -/
theorem le_roundUp {k : Int} {q : Rat} (le : k ≤ q) : k ≤ roundUp q := by
  show k ≤ ⌊q + 1 / 2⌋
  rw [Int.le_floor]
  linarith

theorem roundUp_le {k : Int} {q : Rat} (le : q ≤ k) : roundUp q ≤ k := by
  show ⌊q + 1 / 2⌋ ≤ k
  rw [← Int.lt_add_one_iff, Int.floor_lt]
  push_cast
  linarith

/-! ## Numerals -/

namespace Numeral

variable {p q : Rat}

theorem value_ofRat (q : Rat) : (ofRat q).value = roundEven (q * 1000000) / 1000000 := rfl

theorem value_ofRat_mono (le : p ≤ q) : (ofRat p).value ≤ (ofRat q).value := by
  rw [value_ofRat, value_ofRat]
  have rounded : roundEven (p * 1000000) ≤ roundEven (q * 1000000) := roundEven_mono (by linarith)
  have cast : (roundEven (p * 1000000) : Rat) ≤ roundEven (q * 1000000) := by exact_mod_cast rounded
  linarith

/-- A whole count of millionths is written as it is. -/
theorem value_ofRat_millionths (k : Int) : (ofRat (k / 1000000)).value = k / 1000000 := by
  rw [value_ofRat, div_mul_cancel₀ _ (by norm_num), roundEven_intCast]

theorem le_value_ofRat {k : Int} (le : (k / 1000000 : Rat) ≤ q) : k / 1000000 ≤ (ofRat q).value :=
  value_ofRat_millionths k ▸ value_ofRat_mono le

theorem value_ofRat_le {k : Int} (le : q ≤ (k / 1000000 : Rat)) : (ofRat q).value ≤ k / 1000000 :=
  value_ofRat_millionths k ▸ value_ofRat_mono le

theorem value_ofRat_nonneg (nonneg : 0 ≤ q) : 0 ≤ (ofRat q).value := by
  have := le_value_ofRat (k := 0) (q := q) (by simpa using nonneg)
  simpa using this

theorem value_ofRat_le_one (le : q ≤ 1) : (ofRat q).value ≤ 1 := by
  have := value_ofRat_le (k := 1000000) (q := q) (by norm_num; exact le)
  simpa using this

theorem ofFloat_of_exact {x : Float} (known : exact x = some q) : ofFloat x = ofRat q := by
  rw [ofFloat, known]

theorem value_ofFloat_of_none {x : Float} (none : exact x = none) : (ofFloat x).value = 0 := by
  rw [ofFloat, none]
  simp [value]

theorem ofRat_inj_of_value (same : (ofRat p).value = (ofRat q).value) : ofRat p = ofRat q := by
  rw [value_ofRat, value_ofRat, div_left_inj' (by norm_num)] at same
  exact congrArg (fun k => Numeral.mk (some k)) (Int.cast_injective same)

end Numeral

/-- The numeral of a double is the one of the length that it is. -/
theorem Seconds.numeral_of_exact {x : Float} {q : Rat} (known : exact x = some q) :
    Seconds.numeral x = Numeral.ofRat q := by
  have same : Seconds.exact x = some q := known
  rw [Seconds.numeral, same]

end Montage
