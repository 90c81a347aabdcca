/-
# Montage.Proofs.Number.Nearest -- rounding goes to the nearest double

Products and quotients are not only rounded faithfully: they go to the nearest double, and to
the one with an even mantissa from the middle between two.  What is nearest is stated by the
doubles themselves.  Every double `Attracts` the rationals around it, up to half the distance
to its neighbours, the ends included if its mantissa is even; and a rational that a double
attracts is rounded to that double.

The exact result is followed through the shifts more closely than by `Caught`: it is `Pinned`
to one half of the unit that the mantissa begins, and the sticky bit says whether it lies
behind the beginning of that half.
-/
import Montage.Proofs.Number.Overflow

namespace Montage

set_option autoImplicit false

open Float.Model
open Float.Model.UnpackedFloat

/-- Twice as many units, half as long. -/
theorem binary_double (k : Nat) (e : Int) : binary (2 * k) (e - 1) = binary k e := by
  have shift := binary_shift k 1 (e - 1)
  rw [pow_one, Nat.mul_comm] at shift
  rw [shift]
  congr 1
  omega

/-- A unit has four quarters. -/
theorem binary_quarters (k : Nat) (e : Int) : binary k e = binary (4 * k) (e - 2) := by
  rw [Nat.mul_comm, show 4 = 2 ^ 2 from rfl, binary_shift]
  congr 1
  omega

theorem two_mul_binary (k : Nat) (e : Int) : 2 * binary k e = binary (2 * k) e := by
  rw [two_mul, two_mul, binary_add]

/-! ## Around a double -/

/-- Where a double begins to attract, in quarters of its unit: half a unit below it, or a quarter
if the doubles below it are twice as dense. -/
def lowerEnd (m : Nat) (e : Int) : Nat :=
  if m = 2 ^ 52 ∧ -1074 < e then 4 * m - 1 else 4 * m - 2

/-- The rational is nearer to the double than to any other, or as near and the mantissa is
even. -/
structure Attracts (q : Rat) (m : Nat) (e : Int) : Prop where
  low : binary (lowerEnd m e) (e - 2) ≤ q
  high : q ≤ binary (4 * m + 2) (e - 2)
  inside : m % 2 = 1 → binary (lowerEnd m e) (e - 2) < q ∧ q < binary (4 * m + 2) (e - 2)

theorem lowerEnd_ge (m : Nat) (e : Int) : 4 * m - 2 ≤ lowerEnd m e := by
  unfold lowerEnd
  split <;> omega

/-! ## Pinned to one half of a unit -/

/-- The mantissa and the round bit, in halves of the unit. -/
def halves (em : ExtendedMantissa) : Nat := 2 * em.mantissa + em.roundBit.toNat

/-- The rational lies on the half that the mantissa and the round bit begin, and behind its
beginning exactly if the sticky bit is set. -/
structure Pinned (q : Rat) (em : ExtendedMantissa) (e : Int) : Prop where
  above : binary (halves em) (e - 1) ≤ q
  below : q < binary (halves em + 1) (e - 1)
  sticky : em.stickyBit = true ↔ binary (halves em) (e - 1) < q

namespace Pinned

theorem exact (m : Nat) (e : Int) : Pinned (binary m e) ⟨m, false, false⟩ e where
  above := (binary_double m e).le
  below := by
    rw [← binary_double m e, binary_lt_iff]
    exact Nat.lt_succ_self _
  sticky := by
    show false = true ↔ binary (2 * m) (e - 1) < binary m e
    rw [binary_double]
    simp

theorem shiftRightOne {q : Rat} {em : ExtendedMantissa} {e : Int} (pinned : Pinned q em e) :
    Pinned q em.shiftRightOne (e + 1) := by
  obtain ⟨m, round, sticky⟩ := em
  have units : halves (ExtendedMantissa.shiftRightOne ⟨m, round, sticky⟩) = m := by
    have bit : (m % 2 != 0).toNat = m % 2 := by
      rcases Nat.mod_two_eq_zero_or_one m with even | odd
      · simp [even]
      · simp [odd]
    show 2 * (m / 2) + (m % 2 != 0).toNat = m
    rw [bit]
    exact Nat.div_add_mod m 2
  have same : e + 1 - 1 = e := by omega
  obtain ⟨above, below, behind⟩ := pinned
  change binary (2 * m + round.toNat) (e - 1) ≤ q at above
  change q < binary (2 * m + round.toNat + 1) (e - 1) at below
  change sticky = true ↔ binary (2 * m + round.toNat) (e - 1) < q at behind
  refine ⟨?_, ?_, ?_⟩
  · rw [units, same, ← binary_double m e]
    exact le_trans ((binary_le_iff _).mpr (by omega)) above
  · rw [units, same, ← binary_double (m + 1) e]
    refine lt_of_lt_of_le below ((binary_le_iff _).mpr ?_)
    have := Bool.toNat_le round
    omega
  · rw [units, same, ← binary_double m e]
    show (round || sticky) = true ↔ _
    cases round with
    | false => simpa using behind
    | true =>
        have later : binary (2 * m) (e - 1) < binary (2 * m + 1) (e - 1) :=
          (binary_lt_iff _).mpr (Nat.lt_succ_self _)
        simpa using later.trans_le above

theorem shiftRight {q : Rat} {em : ExtendedMantissa} {e : Int} (pinned : Pinned q em e) (k : Nat) :
    Pinned q (em >>> k) (e + k) := by
  induction k with
  | zero =>
      show Pinned q em (e + (0 : Nat))
      simpa using pinned
  | succ k ih =>
      have next := ih.shiftRightOne
      rw [add_assoc] at next
      exact next

end Pinned

/-! ## The rounded mantissa -/

/-- At its own exponent, the double that attracts the rational has the rounded mantissa. -/
theorem roundedMantissa_of_attracts {q : Rat} {em : ExtendedMantissa} {m : Nat} {e : Int}
    (pinned : Pinned q em e) (attracts : Attracts q m e) : em.roundedMantissa = m := by
  obtain ⟨M, round, sticky⟩ := em
  have ends := lowerEnd_ge m e
  have quarters (k : Nat) : binary k (e - 1) = binary (2 * k) (e - 2) := by
    rw [← binary_double k (e - 1)]
    congr 1
    omega
  obtain ⟨above, below, behind⟩ := pinned
  rw [quarters] at above below behind
  change binary (2 * (2 * M + round.toNat)) (e - 2) ≤ q at above
  change q < binary (2 * (2 * M + round.toNat + 1)) (e - 2) at below
  change sticky = true ↔ binary (2 * (2 * M + round.toNat)) (e - 2) < q at behind
  have lower := (binary_lt_iff _).mp (attracts.low.trans_lt below)
  have upper := (binary_le_iff _).mp (above.trans attracts.high)
  cases round with
  | false =>
      simp only [Bool.toNat_false] at lower upper
      have same : M = m := by omega
      cases sticky <;> exact same
  | true =>
      simp only [Bool.toNat_true] at lower upper above behind
      cases sticky with
      | true =>
          have later := (binary_lt_iff _).mp ((behind.mp rfl).trans_le attracts.high)
          show M + 1 = m
          omega
      | false =>
          -- In the middle between two mantissas, the even one attracts.
          have middle : q = binary (2 * (2 * M + 1)) (e - 2) :=
            le_antisymm (not_lt.mp fun less => Bool.false_ne_true (behind.mpr less)) above
          have low := attracts.low
          rw [middle, binary_le_iff] at low
          show M + M % 2 = m
          by_cases odd : m % 2 = 1
          · obtain ⟨strictLow, strictHigh⟩ := attracts.inside odd
            rw [middle, binary_lt_iff] at strictLow strictHigh
            omega
          · omega

/-- What is attracted lies below everything that has a larger exponent. -/
theorem exponent_le_of_attracts {q : Rat} {em : ExtendedMantissa} {m : Nat} {e f : Int}
    (pinned : Pinned q em e) (canonical : Canonical em.mantissa e) (double : Canonical m f)
    (attracts : Attracts q m f) : e ≤ f := by
  by_contra! coarser
  have full : 2 ^ 52 ≤ em.mantissa := canonical.full.resolve_right (by have := double.low; omega)
  have least : binary (2 ^ 52) e ≤ q := by
    refine le_trans ?_ pinned.above
    rw [← binary_double (2 ^ 52) e, binary_le_iff, halves]
    omega
  have above := least.trans attracts.high
  rw [binary_of_le _ (show f - 2 ≤ e by omega), binary_le_iff] at above
  have short := double.short
  have shift : 2 ^ 3 ≤ 2 ^ (e - (f - 2)).toNat := Nat.pow_le_pow_right (by decide) (by omega)
  have := Nat.mul_le_mul_left (2 ^ 52) shift
  omega

/-- Only the first double of the next exponent attracts from below that exponent, and the mantissa
is rounded up to it. -/
theorem carried_of_attracts {q : Rat} {em : ExtendedMantissa} {m : Nat} {e f : Int}
    (pinned : Pinned q em e) (canonical : Canonical em.mantissa e) (double : Canonical m f)
    (attracts : Attracts q m f) (finer : e < f) :
    f = e + 1 ∧ m = 2 ^ 52 ∧ em.roundedMantissa = 2 ^ 53 := by
  have lowest := canonical.low
  have short := canonical.short
  have full : 2 ^ 52 ≤ m := double.full.resolve_right (by omega)
  have first : binary (2 ^ 54 - 1) (f - 2) ≤ q := by
    refine le_trans ((binary_le_iff _).mpr ?_) attracts.low
    unfold lowerEnd
    split <;> omega
  have last : q < binary (2 ^ 53) e := by
    have bit := Bool.toNat_le em.roundBit
    refine pinned.below.trans_le ?_
    rw [← binary_double (2 ^ 53) e, binary_le_iff, halves]
    omega
  have near : f = e + 1 := by
    by_contra far
    have below := first.trans_lt last
    rw [binary_of_le _ (show e ≤ f - 2 by omega), binary_lt_iff] at below
    have := Nat.le_mul_of_pos_right (2 ^ 54 - 1) (Nat.two_pow_pos (f - 2 - e).toNat)
    omega
  subst near
  have same : e + 1 - 2 = e - 1 := by omega
  have low := attracts.low
  rw [same] at low first
  have limit : binary (2 ^ 53) e = binary (2 ^ 54) (e - 1) := by
    rw [← binary_double (2 ^ 53) e]
    rfl
  have bottom : m = 2 ^ 52 := by
    have end_ := (binary_lt_iff _).mp (low.trans_lt (limit ▸ last))
    have := lowerEnd_ge m (e + 1)
    omega
  have most := (binary_lt_iff _).mp (first.trans_lt pinned.below)
  have bits : em.mantissa = 2 ^ 53 - 1 ∧ em.roundBit = true := by
    rw [halves] at most
    cases round : em.roundBit with
    | false =>
        rw [round, Bool.toNat_false] at most
        omega
    | true =>
        rw [round, Bool.toNat_true] at most
        exact ⟨by omega, rfl⟩
  refine ⟨rfl, bottom, ?_⟩
  obtain ⟨M, round, sticky⟩ := em
  obtain ⟨rfl, rfl⟩ := bits
  cases sticky <;> rfl

/-- **The rounded mantissa makes the double that attracts the rational**, also where that
double has the next exponent. -/
theorem rounded_of_attracts {q : Rat} {em : ExtendedMantissa} {m : Nat} {e f : Int}
    (pinned : Pinned q em e) (canonical : Canonical em.mantissa e) (double : Canonical m f)
    (attracts : Attracts q m f) : binary em.roundedMantissa e = binary m f := by
  rcases (exponent_le_of_attracts pinned canonical double attracts).eq_or_lt with rfl | finer
  · rw [roundedMantissa_of_attracts pinned attracts]
  · obtain ⟨rfl, rfl, carried⟩ := carried_of_attracts pinned canonical double attracts finer
    rw [carried]
    exact binary_shift (2 ^ 52) 1 e

/-! ## Rounding -/

/-- The magnitude is that of every double that attracts the rational. -/
def Nearest (q v : Rat) : Prop :=
  ∀ m e, Canonical m e → Attracts q m e → v = binary m e

/-- **Rounding goes to the nearest double.** -/
theorem roundWithAccuracy_nearest (s : Sign) {q : Rat} {m : Nat} {e : Int} {accuracy : Accuracy}
    (pinned : Pinned q (.ofMantissaAndAccuracy m accuracy) e) (fits : 52 ≤ m.log2 ∨ e ≤ -1074) :
    ∃ n f, Canonical n f ∧ Nearest q (binary n f)
      ∧ roundWithAccuracy .binary64 s m e accuracy = signed s n f := by
  have canonical := canonical_shift fits
  have shifted := pinned.shiftRight (shiftAmount m e)
  have first := shiftToTargetExponent_eq m e accuracy
  generalize shiftAmount m e = k at canonical shifted first
  have mantissa : (ExtendedMantissa.ofMantissaAndAccuracy m accuracy >>> k).mantissa = m / 2 ^ k := by
    rw [shiftRight_mantissa, mantissa_ofAccuracy]
  rw [← mantissa] at canonical
  obtain ⟨n, f, final, same, again⟩ := shift_rounded canonical
    ((roundedMantissa_cases _).imp_right And.left)
  refine ⟨n, f, final, fun o g double attracts => ?_, ?_⟩
  · rw [same, rounded_of_attracts shifted canonical double attracts]
  · unfold roundWithAccuracy
    simp only [first, again]
    rfl

/-- Two canonical pairs of one magnitude are one. -/
theorem Canonical.eq_of_binary_eq {m n : Nat} {e f : Int} (c : Canonical m e) (d : Canonical n f)
    (same : binary m e = binary n f) : m = n ∧ e = f := by
  rcases lt_trichotomy e f with below | rfl | above
  · exact absurd same (c.lt_of_exponent_lt d below).ne
  · exact ⟨le_antisymm ((binary_le_iff e).mp same.le) ((binary_le_iff e).mp same.ge), rfl⟩
  · exact absurd same (d.lt_of_exponent_lt c above).ne'

/-- A number that is rounded to the nearest double is the double that attracts it. -/
theorem Nearest.signed_eq {q : Rat} {m n : Nat} {e f : Int} (nearest : Nearest q (binary m e))
    (canonical : Canonical m e) (double : Canonical n f) (attracts : Attracts q n f) (s : Sign) :
    signed s m e = signed s n f := by
  obtain ⟨rfl, rfl⟩ := canonical.eq_of_binary_eq double (nearest n f double attracts)
  rfl

/-- The product of two positive numbers goes to the nearest double. -/
theorem mul_nearest {m n : Nat} {e f : Int} (hm : 0 < m) (hn : 0 < n)
    (fits : 52 ≤ (m * n).log2 ∨ e + f ≤ -1074) :
    ∃ k g, Canonical k g ∧ Nearest (binary m e * binary n f) (binary k g)
      ∧ UnpackedFloat.mul .binary64 (.finite .positive m e hm) (.finite .positive n f hn)
          = signed .positive k g := by
  rw [binary_mul_binary]
  exact roundWithAccuracy_nearest .positive (Pinned.exact _ _) fits

/-- A quotient of mantissas pins the quotient of the numbers. -/
theorem pinned_quotient (m : Nat) {n : Nat} (positive : 0 < n) (e : Int) :
    Pinned (binary m e / n) (.ofMantissaAndAccuracy (m / n) (accuracyOfFraction (m % n) n)) e := by
  have divisor : (0 : Rat) < n := by exact_mod_cast positive
  have parts := Nat.div_add_mod' m n
  have rest := Nat.mod_lt m positive
  have le_iff (k : Nat) : binary k (e - 1) ≤ binary m e / n ↔ k * n ≤ 2 * m := by
    rw [le_div_iff₀ divisor, ← binary_mul, ← binary_double m e, binary_le_iff]
  have lt_iff (k : Nat) : binary k (e - 1) < binary m e / n ↔ k * n < 2 * m := by
    rw [lt_div_iff₀ divisor, ← binary_mul, ← binary_double m e, binary_lt_iff]
  generalize m / n = quotient at parts
  have twice : 2 * m = 2 * quotient * n + 2 * (m % n) := by
    rw [Nat.mul_assoc, ← Nat.mul_add, parts]
  suffices bits : ∀ em, em = ExtendedMantissa.ofMantissaAndAccuracy quotient
      (accuracyOfFraction (m % n) n) → halves em * n ≤ 2 * m ∧ 2 * m < (halves em + 1) * n
        ∧ (em.stickyBit = true ↔ halves em * n < 2 * m) by
    obtain ⟨above, below, behind⟩ := bits _ rfl
    exact ⟨(le_iff _).mpr above, lt_of_not_ge fun back => absurd below (not_lt.mpr ((le_iff _).mp back)),
      behind.trans (lt_iff _).symm⟩
  rintro em rfl
  unfold accuracyOfFraction
  split
  · rename_i none
    simp only [halves, ExtendedMantissa.ofMantissaAndAccuracy, Bool.toNat_false, Nat.add_zero,
      Nat.add_mul, Bool.false_eq_true, false_iff]
    omega
  · rename_i some
    rcases lt_trichotomy (2 * (m % n)) n with less | middle | more
    · rw [compare_lt_iff_lt.mpr less]
      simp only [halves, ExtendedMantissa.ofMantissaAndAccuracy, Bool.toNat_false, Nat.add_zero,
        Nat.add_mul, true_iff]
      omega
    · rw [compare_eq_iff_eq.mpr middle]
      simp only [halves, ExtendedMantissa.ofMantissaAndAccuracy, Bool.toNat_true,
        Nat.add_mul, Bool.false_eq_true, false_iff]
      omega
    · rw [compare_gt_iff_gt.mpr more]
      simp only [halves, ExtendedMantissa.ofMantissaAndAccuracy, Bool.toNat_true,
        Nat.add_mul, true_iff]
      omega

/-- The quotient of two positive numbers goes to the nearest double. -/
theorem div_nearest {m n : Nat} {e f : Int} (hm : 0 < m) (hn : 0 < n) :
    ∃ k g, Canonical k g ∧ Nearest (binary m e / binary n f) (binary k g)
      ∧ UnpackedFloat.div .binary64 (.finite .positive m e hm) (.finite .positive n f hn)
          = signed .positive k g := by
  obtain ⟨k, g, quotient, same, fits⟩ := div_eq_round .positive (e := e) (f := f) hm hn
  rw [quotient, same]
  exact roundWithAccuracy_nearest .positive (pinned_quotient _ hn _) fits

/-! ## Doubles -/

theorem lodged_signed (s : Sign) {m : Nat} {e : Int} (canonical : Canonical m e)
    (fits : e ≤ maxExponent) : Lodged (signed s m e) := by
  unfold signed
  split
  · trivial
  · exact ⟨canonical, fits⟩

/-- What a canonical pair unpacks from is exactly its rational. -/
theorem exact_of_unpack {x : Float} {m : Nat} {e : Int}
    (unpacked : x.toModel.unpack = signed .positive m e) : exact x = some (binary m e) := by
  rw [exact_eq_some_iff, point, unpacked]
  unfold signed
  split
  · rename_i none
    rw [none, binary_zero]
    rfl
  · rfl

section

variable {x y : Float} {p q : Rat} {n : Nat} {f : Int}

/-- **A product is the double that attracts it.** -/
theorem unpack_mul (hx : exact x = some p) (hy : exact y = some q) (pp : 0 < p) (pq : 0 < q)
    (double : Canonical n f) (fits : f ≤ maxExponent) (attracts : Attracts (p * q) n f) :
    (x * y).toModel.unpack = signed .positive n f := by
  have product : (x * y).toModel.unpack = UnpackedFloat.unpack .binary64 (UnpackedFloat.pack .binary64
      (UnpackedFloat.mul .binary64 x.toModel.unpack y.toModel.unpack)) := rfl
  have vx := valued_of_exact hx pp.le
  have vy := valued_of_exact hy pq.le
  generalize x.toModel.unpack = u at vx product
  generalize y.toModel.unpack = v at vy product
  cases vx with
  | zero s => exact absurd pp (lt_irrefl 0)
  | finite m e hm cm fits' =>
      cases vy with
      | zero t => exact absurd pq (lt_irrefl 0)
      | finite o g ho co fits'' =>
          obtain ⟨k, h, canonical, nearest, same⟩ := mul_nearest hm ho (product_fits cm co hm ho)
          rw [product, same, nearest.signed_eq canonical double attracts,
            unpack_pack (lodged_signed _ double fits)]

/-- **A quotient is the double that attracts it.** -/
theorem unpack_div (hx : exact x = some p) (hy : exact y = some q) (pp : 0 < p) (pq : 0 < q)
    (double : Canonical n f) (fits : f ≤ maxExponent) (attracts : Attracts (p / q) n f) :
    (x / y).toModel.unpack = signed .positive n f := by
  have quotient : (x / y).toModel.unpack = UnpackedFloat.unpack .binary64
      (UnpackedFloat.pack .binary64
        (UnpackedFloat.div .binary64 x.toModel.unpack y.toModel.unpack)) := rfl
  have vx := valued_of_exact hx pp.le
  have vy := valued_of_exact hy pq.le
  generalize x.toModel.unpack = u at vx quotient
  generalize y.toModel.unpack = v at vy quotient
  cases vx with
  | zero s => exact absurd pp (lt_irrefl 0)
  | finite m e hm cm fits' =>
      cases vy with
      | zero t => exact absurd pq (lt_irrefl 0)
      | finite o g ho co fits'' =>
          obtain ⟨k, h, canonical, nearest, same⟩ := div_nearest (e := e) (f := g) hm ho
          rw [quotient, same, nearest.signed_eq canonical double attracts,
            unpack_pack (lodged_signed _ double fits)]

end

/-! ## No nearer double -/

/-- Every double that is not negative is held by a float. -/
theorem IsDouble.exists_float {q : Rat} (double : IsDouble q) : ∃ x : Float, exact x = some q := by
  obtain ⟨m, e, canonical, fits, rfl⟩ := double
  exact ⟨.ofModel (.pack (signed .positive m e)),
    exact_of_unpack (unpack_pack (lodged_signed _ canonical fits))⟩

/-- The float has a value, and no other value of a float is nearer to the rational. -/
def IsNearest (q : Rat) (x : Float) : Prop :=
  ∃ r, exact x = some r ∧ ∀ y t, exact y = some t → |r - q| ≤ |t - q|

/-- Between a double and any smaller one lies twice as much as the lower one attracts. -/
theorem IsDouble.le_lowerEnd {t : Rat} {n : Nat} {f : Int} (double : IsDouble t)
    (canonical : Canonical n f) (below : t < binary n f) :
    t + binary n f ≤ 2 * binary (lowerEnd n f) (f - 2) := by
  unfold lowerEnd
  split
  · rename_i narrow
    obtain ⟨rfl, normal⟩ := narrow
    have last := double.le_longest (f := f - 1) (by omega) (by rwa [sub_add_cancel])
    rw [binary_of_le _ (show f - 2 ≤ f - 1 by omega), show f - 1 - (f - 2) = 1 by omega] at last
    have sum : binary ((2 ^ 53 - 1) * 2 ^ (1 : Int).toNat) (f - 2) + binary (2 ^ 52) f
        = 2 * binary (4 * 2 ^ 52 - 1) (f - 2) := by
      rw [binary_quarters (2 ^ 52), ← binary_add, two_mul_binary]
      rfl
    linarith
  · rename_i wide
    obtain ⟨m, e, other, -, rfl⟩ := double
    have positive : 0 < n := by
      by_contra none
      obtain rfl : n = 0 := by omega
      rw [binary_zero] at below
      exact absurd below (not_lt.mpr (binary_nonneg m e))
    have last : binary m e ≤ binary (n - 1) f := by
      rcases lt_or_ge e f with finer | coarser
      · have := other.low
        have := canonical.full
        have := canonical.short
        exact (other.lt_of_exponent_lt ⟨by omega, canonical.low, by omega⟩ finer).le
      · rw [binary_of_le m coarser] at below ⊢
        have := (binary_lt_iff f).mp below
        exact (binary_le_iff f).mpr (by omega)
    have sum : binary (n - 1) f + binary n f = 2 * binary (4 * n - 2) (f - 2) := by
      rw [binary_quarters (n - 1), binary_quarters n, ← binary_add, two_mul_binary]
      congr 1
      omega
    linarith

/-- **A double that attracts a rational is nearest to it.** -/
theorem isNearest_of_attracts {x : Float} {q : Rat} {n : Nat} {f : Int}
    (known : exact x = some (binary n f)) (canonical : Canonical n f)
    (attracts : Attracts q n f) : IsNearest q x := by
  have nonneg : 0 ≤ q := (binary_nonneg _ _).trans attracts.low
  have nearer (t : Rat) (double : IsDouble t) : |binary n f - q| ≤ |t - q| := by
    rcases lt_trichotomy t (binary n f) with below | same | above
    · have middle := double.le_lowerEnd canonical below
      have low := attracts.low
      rw [abs_le]
      constructor <;> rw [abs_of_nonpos (by linarith)] <;> linarith
    · rw [same]
    · have next := double.succ_le canonical above
      have high := attracts.high
      have middle : binary n f + binary (n + 1) f = 2 * binary (4 * n + 2) (f - 2) := by
        rw [binary_quarters n, binary_quarters (n + 1), ← binary_add, two_mul_binary]
        congr 1
        omega
      rw [abs_le]
      constructor <;> rw [abs_of_nonneg (by linarith)] <;> linarith
  refine ⟨_, known, fun y t stands => ?_⟩
  rcases le_or_gt 0 t with above | below
  · exact nearer t (isDouble_of_exact stands above)
  · -- A negative double is farther away than zero.
    calc |binary n f - q| ≤ |0 - q| := nearer 0 isDouble_zero
      _ ≤ |t - q| := by
        rw [abs_of_nonpos (by linarith), abs_of_nonpos (by linarith)]
        linarith

end Montage
