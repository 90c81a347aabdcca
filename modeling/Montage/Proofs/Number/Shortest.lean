/-
# Montage.Proofs.Number.Shortest -- the shortest decimal is attracted by its double

The interval that candidates are tested against is what a double attracts (`holds_iff`), so a
decimal that was picked is attracted.  One is always found: with seventeen digits the decimals
are so dense that one of the two around the double is close enough (`attracts_of_close`).
-/
import Montage.Number.Shortest
import Montage.Proofs.Number.Nearest

namespace Montage

set_option autoImplicit false

/-! ## Digits of a count -/

theorem lt_pow_digitCount (n : Nat) : n < 10 ^ digitCount n :=
  (Nat.length_toDigits_le_iff (by decide) Nat.length_toDigits_pos).mp le_rfl

theorem pow_digitCount_le {n : Nat} (positive : 0 < n) : 10 ^ (digitCount n - 1) ≤ n := by
  rcases Nat.eq_zero_or_pos (digitCount n - 1) with none | some_
  · rw [none]
    exact positive
  · by_contra short
    have := (Nat.length_toDigits_le_iff (b := 10) (by decide) some_).mpr (not_le.mp short)
    unfold digitCount at some_ this
    omega

/-! ## Close decimals -/

/-- What is so close to a double is attracted by it. -/
theorem attracts_of_close {q : Rat} {m : Nat} {e : Int} (canonical : Canonical m e) (positive : 0 < m)
    (close : |q - binary m e| * (2 * 10 ^ 16) ≤ binary m e) : Attracts q m e := by
  have quarter : (0 : Rat) < 2 ^ (e - 2) := two_zpow_pos _
  have value : binary m e = 4 * m * 2 ^ (e - 2) := by
    rw [binary_quarters, binary]
    push_cast
    rfl
  have long : (m : Rat) < 2 ^ 53 := by exact_mod_cast canonical.short
  have one : binary 1 (e - 2) = 2 ^ (e - 2) := by rw [binary, Nat.cast_one, one_mul]
  have two : binary 2 (e - 2) = 2 * 2 ^ (e - 2) := by rw [binary, Nat.cast_two]
  -- Less than a quarter of the unit below, or less than half if there is half a unit.
  have below : binary (lowerEnd m e) (e - 2) < q := by
    have least := (abs_le.mp le_rfl : -|q - binary m e| ≤ q - binary m e ∧ _).1
    have gap : |q - binary m e| < binary m e - binary (lowerEnd m e) (e - 2) := by
      unfold lowerEnd
      split
      · rename_i narrow
        have full : (m : Rat) = 2 ^ 52 := by exact_mod_cast narrow.1
        rw [binary_sub (by omega), ← binary_quarters, sub_sub_cancel, one]
        rw [value, full] at close ⊢
        nlinarith only [close, quarter]
      · rw [binary_sub (by omega), ← binary_quarters, sub_sub_cancel, two]
        rw [value] at close ⊢
        nlinarith only [close, quarter, long]
    linarith
  have above : q < binary (4 * m + 2) (e - 2) := by
    have most := (abs_le.mp le_rfl : _ ∧ q - binary m e ≤ |q - binary m e|).2
    have gap : |q - binary m e| < binary 2 (e - 2) := by
      rw [two]
      rw [value] at close ⊢
      nlinarith only [close, quarter, long]
    rw [binary_add, ← binary_quarters]
    linarith
  exact ⟨below.le, above.le, fun _ => ⟨below, above⟩⟩

namespace Decimal

theorem value_eq (c : Nat) (z : Int) :
    (Decimal.mk c z).value = (c * 10 ^ z.toNat : Nat) / (10 ^ (-z).toNat : Nat) := by
  rw [value]
  push_cast
  rcases le_total 0 z with whole | fraction
  · rw [show (-z).toNat = 0 by omega, pow_zero, div_one, ← zpow_natCast, Int.toNat_of_nonneg whole]
  · rw [show z.toNat = 0 by omega, pow_zero, mul_one, ← zpow_natCast,
      Int.toNat_of_nonneg (by omega), zpow_neg, div_inv_eq_mul]

theorem trimmed_value (fuel : Nat) (d : Decimal) : (trimmed fuel d).value = d.value := by
  induction fuel generalizing d with
  | zero => rfl
  | succ fuel ih =>
      rw [trimmed]
      split
      · rename_i zero
        rw [ih, value, value, zpow_add_one₀ (by norm_num), Nat.cast_div (by omega) (by norm_num)]
        push_cast
        ring
      · rfl

end Decimal

namespace Interval

/-! ## What the interval holds -/

/-- The interval of a double is measured in quarters of its unit. -/
structure Measures (i : Interval) (m : Nat) (e : Int) (up : Nat) : Prop where
  low : i.low = lowerEnd m e * up
  middle : i.middle = 4 * m * up
  high : i.high = (4 * m + 2) * up
  closed : i.closed = decide (m % 2 = 0)
  positive : 0 < up
  scaled : 0 < i.scale
  quarter : (up : Rat) / i.scale = 2 ^ (e - 2)

theorem exists_measures (m : Nat) (e : Int) : ∃ up, Measures (around m e) m e up := by
  rcases lt_or_ge e 2 with small | large
  · have ups : (if 2 ≤ e then Nat.pow 2 (e - 2).toNat else 1) = 1 := if_neg (not_le.mpr small)
    have scale : (around m e).scale = 2 ^ (2 - e).toNat := if_neg (not_le.mpr small)
    have power : ((2 - e).toNat : Int) = -(e - 2) := by omega
    refine ⟨1, congrArg (lowerEnd m e * ·) ups, congrArg (4 * m * ·) ups,
      congrArg ((4 * m + 2) * ·) ups, rfl, Nat.one_pos, scale ▸ Nat.two_pow_pos _, ?_⟩
    rw [scale, Nat.cast_pow, ← zpow_natCast, power, Nat.cast_two, zpow_neg, Nat.cast_one, one_div,
      inv_inv]
  · have ups : (if 2 ≤ e then Nat.pow 2 (e - 2).toNat else 1) = 2 ^ (e - 2).toNat := if_pos large
    have scale : (around m e).scale = 1 := if_pos large
    have power : ((e - 2).toNat : Int) = e - 2 := by omega
    refine ⟨2 ^ (e - 2).toNat, congrArg (lowerEnd m e * ·) ups, congrArg (4 * m * ·) ups,
      congrArg ((4 * m + 2) * ·) ups, rfl, Nat.two_pow_pos _, scale ▸ Nat.one_pos, ?_⟩
    rw [scale, Nat.cast_pow, ← zpow_natCast, power, Nat.cast_two, Nat.cast_one, div_one]

namespace Measures

variable {i : Interval} {m up : Nat} {e : Int}

/-- Two fractions are compared across. -/
theorem le_iff (measures : Measures i m e up) (a : Nat) {n d : Nat} (some_ : 0 < d) :
    a * up * d ≤ n * i.scale ↔ binary a (e - 2) ≤ n / d := by
  have hd : (0 : Rat) < d := by exact_mod_cast some_
  have hs : (0 : Rat) < i.scale := by exact_mod_cast measures.scaled
  rw [binary, ← measures.quarter, ← mul_div_assoc, div_le_div_iff₀ hs hd]
  exact_mod_cast Iff.rfl

theorem ge_iff (measures : Measures i m e up) (a : Nat) {n d : Nat} (some_ : 0 < d) :
    n * i.scale ≤ a * up * d ↔ (n / d : Rat) ≤ binary a (e - 2) := by
  have hd : (0 : Rat) < d := by exact_mod_cast some_
  have hs : (0 : Rat) < i.scale := by exact_mod_cast measures.scaled
  rw [binary, ← measures.quarter, ← mul_div_assoc, div_le_div_iff₀ hd hs]
  exact_mod_cast Iff.rfl

/-- The middle is the double. -/
theorem value (measures : Measures i m e up) : (i.middle : Rat) / i.scale = binary m e := by
  rw [measures.middle, binary_quarters, binary, ← measures.quarter, Nat.cast_mul, mul_div_assoc]

/-- **The interval holds what the double attracts.** -/
theorem holds_iff (measures : Measures i m e up) {n d : Nat} (some_ : 0 < d) :
    i.holds n d = true ↔ Attracts (n / d) m e := by
  have low := measures.le_iff (lowerEnd m e) (n := n) some_
  have high := measures.ge_iff (4 * m + 2) (n := n) some_
  have low' := (measures.ge_iff (lowerEnd m e) (n := n) some_).not
  have high' := (measures.le_iff (4 * m + 2) (n := n) some_).not
  rw [not_le, not_le] at low' high'
  unfold holds
  rw [measures.closed, measures.low, measures.high]
  by_cases even : m % 2 = 0
  · rw [if_pos (decide_eq_true even), decide_eq_true_eq, low, high]
    exact ⟨fun both => ⟨both.1, both.2, fun odd => by omega⟩, fun a => ⟨a.low, a.high⟩⟩
  · rw [if_neg (by simpa using even), decide_eq_true_eq, low', high']
    exact ⟨fun both => ⟨both.1.le, both.2.le, fun _ => both⟩, fun a => a.inside (by omega)⟩

end Measures

/-! ## Candidates -/

/-- The leading digit is in front of a power of ten that the middle reaches. -/
theorem leading_le {i : Interval} (positive : 0 < i.middle) (scaled : 0 < i.scale) :
    (10 : Rat) ^ i.leading ≤ i.middle / i.scale := by
  have hs : (0 : Rat) < i.scale := by exact_mod_cast scaled
  unfold leading
  split
  · rename_i whole
    have quotient : 0 < i.middle / i.scale := Nat.div_pos whole scaled
    have digits : 0 < digitCount (i.middle / i.scale) := Nat.length_toDigits_pos
    have first := pow_digitCount_le quotient
    have power : ((digitCount (i.middle / i.scale) : Int) - 1)
        = (digitCount (i.middle / i.scale) - 1 : Nat) := by omega
    rw [power, zpow_natCast, le_div_iff₀ hs]
    exact_mod_cast (Nat.mul_le_mul_right _ first).trans (Nat.div_mul_le_self _ _)
  · have hm : (0 : Rat) < i.middle := by exact_mod_cast positive
    have up := lt_pow_digitCount ((i.scale + i.middle - 1) / i.middle - 1)
    generalize digitCount ((i.scale + i.middle - 1) / i.middle - 1) = k at up
    have reach : (i.scale + i.middle - 1) / i.middle < 10 ^ k + 1 := by omega
    have most := (Nat.div_lt_iff_lt_mul positive).mp reach
    rw [Nat.add_mul, Nat.one_mul] at most
    rw [zpow_neg, zpow_natCast, inv_le_iff_one_le_mul₀ (by positivity), div_mul_eq_mul_div,
      one_le_div hs]
    exact_mod_cast show i.scale ≤ i.middle * 10 ^ k by rw [Nat.mul_comm]; omega

variable {m : Nat} {e : Int}

/-- **What is picked is attracted.** -/
theorem attracts_of_pick {tie : Tie} {n : Nat} {d : Decimal}
    (picked : (around m e).pick tie n = some d) : Attracts d.value m e := by
  obtain ⟨up, measures⟩ := exists_measures m e
  unfold pick at picked
  extract_lets unit tens parts top bottom below rest belowHolds aboveHolds at picked
  have some_ : 0 < parts := Nat.pow_pos (by decide)
  have first : belowHolds → Attracts (Decimal.mk below unit).value m e := fun held => by
    rw [Decimal.value_eq]
    exact (measures.holds_iff some_).mp held.2
  have second : aboveHolds → Attracts (Decimal.mk (below + 1) unit).value m e := fun held => by
    rw [Decimal.value_eq]
    exact (measures.holds_iff some_).mp held
  split at picked
  · rename_i both
    split at picked
    · exact Option.some.inj picked ▸ first both.1
    · split at picked
      · exact Option.some.inj picked ▸ second both.2
      · cases tie with
        | up => exact Option.some.inj picked ▸ second both.2
        | even =>
            simp only at picked
            split at picked
            · exact Option.some.inj picked ▸ first both.1
            · exact Option.some.inj picked ▸ second both.2
  · split at picked
    · exact Option.some.inj picked ▸ first ‹_›
    · split at picked
      · exact Option.some.inj picked ▸ second ‹_›
      · cases picked

/-- On a fine grid, one of the two neighbours of a number is close to it. -/
theorem close_on_grid {x c t u : Rat} (unit : 0 < u) (fine : 10 ^ 16 * u ≤ x)
    (place : x = (c + t) * u) (low : 0 ≤ t) (high : t ≤ 1) :
    (t ≤ 1 / 2 → |c * u - x| * (2 * 10 ^ 16) ≤ x)
      ∧ (1 / 2 ≤ t → |(c + 1) * u - x| * (2 * 10 ^ 16) ≤ x) := by
  constructor
  · intro near
    have error : c * u - x = -(t * u) := by rw [place]; ring
    have half := mul_le_mul_of_nonneg_right near unit.le
    rw [error, abs_neg, abs_of_nonneg (mul_nonneg low unit.le)]
    linarith
  · intro far
    have error : (c + 1) * u - x = (1 - t) * u := by rw [place]; ring
    have half := mul_le_mul_of_nonneg_right (show 1 - t ≤ 1 / 2 by linarith) unit.le
    rw [error, abs_of_nonneg (mul_nonneg (by linarith) unit.le)]
    linarith

/-- A decimal is picked if either of the two candidates is held. -/
theorem isSome_pick_of_holds {i : Interval} (tie : Tie) {n below : Nat} {unit : Int}
    (last : unit = i.leading - n + 1)
    (floor : below = i.middle * 10 ^ (-unit).toNat / (i.scale * 10 ^ unit.toNat))
    (found : (0 < below ∧ i.holds (below * 10 ^ unit.toNat) (10 ^ (-unit).toNat) = true)
      ∨ i.holds ((below + 1) * 10 ^ unit.toNat) (10 ^ (-unit).toNat) = true) :
    (i.pick tie n).isSome = true := by
  subst last floor
  unfold pick
  extract_lets unit tens parts top bottom below rest belowHolds aboveHolds
  have found : belowHolds ∨ aboveHolds := found
  split
  · split
    · rfl
    · split
      · rfl
      · cases tie with
        | up => rfl
        | even =>
            simp only
            split <;> rfl
  · split
    · rfl
    · split
      · rfl
      · exact absurd found (not_or.mpr ⟨‹_›, ‹_›⟩)

/-- **Seventeen digits suffice.**  Their unit is at most `10 ^ -16` of the double, and one of the
two candidates is within half a unit. -/
theorem isSome_pick (tie : Tie) (canonical : Canonical m e) (positive : 0 < m) :
    ((around m e).pick tie 17).isSome = true := by
  obtain ⟨up, measures⟩ := exists_measures m e
  have middle : 0 < (around m e).middle := by
    rw [measures.middle]
    exact Nat.mul_pos (by omega) measures.positive
  have first := leading_le middle measures.scaled
  have value := measures.value
  obtain ⟨unit, last⟩ : ∃ unit, unit = (around m e).leading - (17 : Nat) + 1 := ⟨_, rfl⟩
  have power : (0 : Rat) < 10 ^ unit := zpow_pos (by norm_num) unit
  have fine : 10 ^ 16 * (10 : Rat) ^ unit ≤ binary m e := by
    have same : (around m e).leading = 16 + unit := by omega
    rwa [value, same, zpow_add₀ (by norm_num)] at first
  refine isSome_pick_of_holds tie last rfl ?_
  generalize top_ : (around m e).middle * 10 ^ (-unit).toNat = top
  generalize bottom_ : (around m e).scale * 10 ^ unit.toNat = bottom
  have many : 0 < 10 ^ unit.toNat := Nat.pow_pos (by decide)
  have whole : 0 < bottom := bottom_ ▸ Nat.mul_pos measures.scaled many
  have hb : (0 : Rat) < bottom := by exact_mod_cast whole
  have division : (bottom : Rat) * (top / bottom : Nat) + (top % bottom : Nat) = top := by
    exact_mod_cast Nat.div_add_mod top bottom
  have less : ((top % bottom : Nat) : Rat) ≤ bottom := by exact_mod_cast (Nat.mod_lt top whole).le
  generalize top / bottom = below at division ⊢
  generalize top % bottom = rest at division less
  have held {c : Nat} (close : |c * 10 ^ unit - binary m e| * (2 * 10 ^ 16) ≤ binary m e) :
      (around m e).holds (c * 10 ^ unit.toNat) (10 ^ (-unit).toNat) = true := by
    rw [measures.holds_iff (Nat.pow_pos (by decide)), ← Decimal.value_eq]
    exact attracts_of_close canonical positive close
  -- The double in units of the last digit.
  have place : binary m e = (below + rest / bottom) * 10 ^ unit := by
    have one := Decimal.value_eq 1 unit
    rw [Decimal.value, Nat.one_mul, Nat.cast_one, one_mul] at one
    have hm : ((10 ^ unit.toNat : Nat) : Rat) ≠ 0 := by exact_mod_cast many.ne'
    have hs : ((around m e).scale : Rat) ≠ 0 := by exact_mod_cast measures.scaled.ne'
    rw [← value, one, ← mul_div_cancel_left₀ (below : Rat) hb.ne', ← add_div, division, ← top_,
      ← bottom_, Nat.cast_mul, Nat.cast_mul]
    field_simp
  obtain ⟨near, far⟩ := close_on_grid power fine place (by positivity) ((div_le_one hb).mpr less)
  rcases le_total ((rest : Rat) / bottom) (1 / 2) with lower | upper
  · refine .inl ⟨Nat.pos_of_ne_zero fun none => ?_, held (near lower)⟩
    -- The double is many units, so the candidate below it is not zero.
    rw [none, Nat.cast_zero, zero_add] at place
    have few := mul_le_mul_of_nonneg_right lower power.le
    linarith
  · exact .inr (held (by exact_mod_cast far upper))

end Interval

/-- **The shortest decimal of a double is attracted by it.** -/
theorem attracts_shortest (tie : Tie) {m : Nat} {e : Int} (canonical : Canonical m e)
    (positive : 0 < m) : Attracts (shortest tie m e).value m e := by
  unfold shortest
  extract_lets i found
  have picked : found.isSome = true := by
    rw [List.findSome?_isSome_iff]
    exact ⟨16, by decide, Interval.isSome_pick tie canonical positive⟩
  obtain ⟨d, known⟩ := Option.isSome_iff_exists.mp picked
  obtain ⟨n, -, pick⟩ := List.exists_of_findSome?_eq_some known
  rw [known, Option.getD_some, Decimal.trimmed_value]
  exact Interval.attracts_of_pick pick

end Montage
