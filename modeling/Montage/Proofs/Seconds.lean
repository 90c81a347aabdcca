/-
# Montage.Proofs.Seconds -- laws of the numbers that time is counted in

What is proved about timelines holds over every type of lengths that obeys a few
`Lawful` rules.  Rationals do, and so do doubles, whose sums are rounded, whose
infinities are lengths like any other, and whose NaNs compare with nothing: the
rules say only as much as both have in common.

On top of the rules stand the lemmas about the operations that timelines use:
`clamp` moves into an interval, and `least` is a lower bound that is attained.
-/
import Montage.Proofs.Number.Arithmetic
import Montage.Seconds

namespace Montage

set_option autoImplicit false

namespace Seconds

/-- What lengths of time have to obey.  Only lengths that compare with themselves
are ordered, and sums may be rounded and may overflow. -/
class Lawful (τ : Type) [Seconds τ] : Prop where
  le_trans {a b c : τ} : a ≤ b → b ≤ c → a ≤ c
  lt_iff {a b : τ} : a < b ↔ a ≤ b ∧ ¬ b ≤ a
  le_total {a b : τ} : a ≤ a → b ≤ b → a ≤ b ∨ b ≤ a
  le_self {a b : τ} : a ≤ b → a ≤ a ∧ b ≤ b
  le_self_of_finite {a : τ} : isFinite a = true → a ≤ a
  beq_iff {a b : τ} : (a == b) = true ↔ a ≤ b ∧ b ≤ a
  /-- What lies between zero and a value has a value. -/
  finite_of_le {a b : τ} : (0.0 : τ) ≤ a → a ≤ b → isFinite b = true → isFinite a = true
  le_add {a b : τ} : (0.0 : τ) ≤ a → (0.0 : τ) ≤ b → b ≤ a + b
  sub_nonneg {a b : τ} : (0.0 : τ) ≤ b → isFinite b = true → b ≤ a → (0.0 : τ) ≤ a - b
  half_le {a : τ} : (0.0 : τ) ≤ a → a / 2.0 ≤ a
  tenth_pos : (0.0 : τ) < 0.1
  tenth_le_half : (0.1 : τ) ≤ 0.5
  half_le_two : (0.5 : τ) ≤ 2.0
  two_finite : isFinite (2.0 : τ) = true

/-! ## The two instances -/

instance : Lawful Rat where
  le_trans := le_trans
  lt_iff := lt_iff_le_not_ge
  le_total _ _ := le_total _ _
  le_self _ := ⟨le_rfl, le_rfl⟩
  le_self_of_finite _ := le_rfl
  beq_iff := beq_iff_eq.trans le_antisymm_iff
  finite_of_le _ _ _ := rfl
  le_add {a b} ha _ := by
    change (0.0 : Rat) ≤ a at ha
    show b ≤ a + b
    norm_num at ha
    linarith
  sub_nonneg {a b} _ _ le := by
    change b ≤ a at le
    show (0.0 : Rat) ≤ a - b
    norm_num
    exact le
  half_le {a} ha := by
    change (0.0 : Rat) ≤ a at ha
    show a / (2.0 : Rat) ≤ a
    norm_num at ha ⊢
    linarith
  tenth_pos := by
    show (0.0 : Rat) < 0.1
    norm_num
  tenth_le_half := by
    show (0.1 : Rat) ≤ 0.5
    norm_num
  half_le_two := by
    show (0.5 : Rat) ≤ 2.0
    norm_num
  two_finite := rfl

instance : Lawful Float where
  le_trans := le_trans_of_points
  lt_iff := lt_iff_le_not_le
  le_total := le_total_of_points
  le_self := le_self_of_le
  le_self_of_finite := le_self_of_exact
  beq_iff := beq_iff_le_le
  finite_of_le := exact_of_le
  le_add := le_add_of_nonneg_left
  sub_nonneg := sub_nonneg_of_le
  half_le := half_le_of_nonneg
  tenth_pos := by decide
  tenth_le_half := by decide
  half_le_two := by decide
  two_finite := rfl

/-- In exact arithmetic any positive length can be used. -/
theorem isUsable_of_pos {q : Rat} (positive : 0 < q) : isUsable q = true := by
  show decide ((0.0 : Rat) < q) = true
  norm_num
  exact positive

/-! ## Order -/

variable {τ : Type} [Seconds τ] [Lawful τ]

open Lawful

theorem le_of_lt {a b : τ} (less : a < b) : a ≤ b := (lt_iff.mp less).1

theorem not_lt_of_le {a b : τ} (le : a ≤ b) : ¬ b < a := fun less => (lt_iff.mp less).2 le

/-- What is not smaller is at least as large, where lengths are ordered. -/
theorem le_of_not_lt {a b : τ} (ha : a ≤ a) (hb : b ≤ b) (not : ¬ a < b) : b ≤ a := by
  by_contra unordered
  rcases le_total ha hb with le | ge
  · exact not (lt_iff.mpr ⟨le, unordered⟩)
  · exact unordered ge

theorem lt_of_lt_of_le {a b c : τ} (less : a < b) (le : b ≤ c) : a < c :=
  lt_iff.mpr ⟨le_trans (le_of_lt less) le, fun back => (lt_iff.mp less).2 (le_trans le back)⟩

theorem tenth_nonneg : (0.0 : τ) ≤ 0.1 := le_of_lt tenth_pos

theorem nonneg_of_tenth_le {a : τ} (long : (0.1 : τ) ≤ a) : (0.0 : τ) ≤ a :=
  le_trans tenth_nonneg long

theorem tenth_finite : isFinite (0.1 : τ) = true :=
  finite_of_le tenth_nonneg (le_trans tenth_le_half half_le_two) two_finite

theorem tenth_le_tenth : (0.1 : τ) ≤ 0.1 := (le_self tenth_le_half).1

theorem tenth_le_two : (0.1 : τ) ≤ 2.0 := le_trans tenth_le_half half_le_two

theorem two_le_two : (2.0 : τ) ≤ 2.0 := (le_self half_le_two).2

/-! ## The smaller of two -/

/-- The smallest of some lengths: one of them, and at most any of them. -/
structure IsShortest (a : τ) (ts : List τ) : Prop where
  member : a ∈ ts
  le : ∀ t ∈ ts, a ≤ t

theorem least_le_left {a b : τ} (ha : a ≤ a) : least a b ≤ a := by
  unfold least
  split
  · exact le_of_lt ‹b < a›
  · exact ha

theorem least_le_right {a b : τ} (ha : a ≤ a) (hb : b ≤ b) : least a b ≤ b := by
  unfold least
  split
  · exact hb
  · exact le_of_not_lt hb ha ‹¬ b < a›

omit [Lawful τ] in
theorem least_eq_or (a b : τ) : least a b = a ∨ least a b = b := by
  unfold least
  split
  · exact .inr rfl
  · exact .inl rfl

/-- Of three lengths the smallest is found from left to right. -/
theorem least_isShortest {a b c : τ} (ha : a ≤ a) (hb : b ≤ b) (hc : c ≤ c) :
    IsShortest (least (least a b) c) [a, b, c] := by
  have hab : least a b ≤ least a b := (le_self (least_le_left ha)).1
  have first := least_le_left (b := c) hab
  constructor
  · rcases least_eq_or (least a b) c with eq | eq
    · rw [eq]
      rcases least_eq_or a b with same | same <;> simp [same]
    · simp [eq]
  · intro t member
    rcases (by simpa using member : t = a ∨ t = b ∨ t = c) with rfl | rfl | rfl
    · exact le_trans first (least_le_left ha)
    · exact le_trans first (least_le_right ha hb)
    · exact least_le_right hab hc

/-! ## Frames -/

omit [Lawful τ] in
theorem one_le_wholeFrames (rate : Nat) (t : τ) : 1 ≤ wholeFrames rate t := by
  unfold wholeFrames
  split
  · split
    · exact Nat.le_min.mpr ⟨by decide, Nat.le_max_left _ _⟩
    · decide
  · exact le_rfl

section

variable {rate : Nat} {t : τ}

omit [Lawful τ] in
/-- The whole frames of a usable length are counted from its product with the rate. -/
theorem wholeFrames_of_exact (usable : isUsable t = true) {q : Rat}
    (product : Seconds.exact (t * Seconds.ofNat rate) = some q) :
    wholeFrames rate t = min maxLong (max 1 q.floor.toNat) := by
  rw [wholeFrames, if_pos usable, product]

omit [Lawful τ] in
theorem wholeFrames_of_none (usable : isUsable t = true)
    (product : Seconds.exact (t * Seconds.ofNat rate) = none) : wholeFrames rate t = maxLong := by
  rw [wholeFrames, if_pos usable, product]

end

end Seconds

end Montage
