/-
# Montage.Proofs.Number.Point -- doubles as points on the line of rationals

A finite double other than zero is `m · 2 ^ e` for one `Canonical` pair, and
comparing two of them compares first the exponents and then the mantissas.  Here
that order is tied to the rationals: every double but a NaN has a `point` on the
line of rationals closed by two infinities, `exact` is that point if it is a
rational, and the comparisons of doubles are those of their points.
-/
import Mathlib
import Montage.Number.Exact

namespace Montage

set_option autoImplicit false

open Float.Model
open Float.Model.UnpackedFloat (Sign packComponents unpackSign unpackExponent unpackMantissa)

/-! ## The rational of a mantissa and an exponent -/

/-- The rational `m · 2 ^ e`. -/
def binary (m : Nat) (e : Int) : Rat := (m : Rat) * 2 ^ e

theorem signedBinary_positive (m : Nat) (e : Int) : signedBinary .positive m e = binary m e := rfl

theorem signedBinary_negative (m : Nat) (e : Int) : signedBinary .negative m e = -binary m e := rfl

theorem two_zpow_pos (e : Int) : (0 : Rat) < 2 ^ e := zpow_pos (by norm_num) e

theorem binary_pos {m : Nat} (positive : 0 < m) (e : Int) : 0 < binary m e :=
  mul_pos (by exact_mod_cast positive) (two_zpow_pos e)

theorem binary_nonneg (m : Nat) (e : Int) : 0 ≤ binary m e :=
  mul_nonneg (by positivity) (two_zpow_pos e).le

/-- A shift to the left makes up for a smaller exponent. -/
theorem binary_shift (m k : Nat) (e : Int) : binary (m * 2 ^ k) e = binary m (e + k) := by
  rw [binary, binary, zpow_add₀ (by norm_num), zpow_natCast]
  push_cast
  ring

theorem binary_add (m n : Nat) (e : Int) : binary (m + n) e = binary m e + binary n e := by
  unfold binary
  push_cast
  ring

/-- A difference of mantissas, if the first is at least the second. -/
theorem binary_sub {m n : Nat} {e : Int} (le : n ≤ m) :
    binary (m - n) e = binary m e - binary n e := by
  unfold binary
  rw [Nat.cast_sub le]
  ring

theorem binary_mul (m n : Nat) (e : Int) : binary (m * n) e = binary m e * n := by
  unfold binary
  push_cast
  ring

theorem binary_le_iff {m n : Nat} (e : Int) : binary m e ≤ binary n e ↔ m ≤ n := by
  rw [binary, binary, mul_le_mul_iff_left₀ (two_zpow_pos e)]
  exact Nat.cast_le

theorem binary_lt_iff {m n : Nat} (e : Int) : binary m e < binary n e ↔ m < n := by
  rw [binary, binary, mul_lt_mul_iff_left₀ (two_zpow_pos e)]
  exact Nat.cast_lt

/-- A smaller exponent on the left is a longer mantissa. -/
theorem binary_of_le (m : Nat) {e f : Int} (le : e ≤ f) :
    binary m f = binary (m * 2 ^ (f - e).toNat) e := by
  rw [binary_shift]
  congr 1
  omega

/-! ## Canonical pairs -/

/-- The mantissas and exponents of finite doubles: a mantissa takes 53 bits, or
fewer at the lowest exponent.  There is no bound on how large they are. -/
structure Canonical (m : Nat) (e : Int) : Prop where
  short : m < 2 ^ 53
  low : -1074 ≤ e
  full : 2 ^ 52 ≤ m ∨ e = -1074

namespace Canonical

/-- The exponent alone decides if it differs. -/
theorem lt_of_exponent_lt {m n : Nat} {e f : Int} (c : Canonical m e) (d : Canonical n f)
    (below : e < f) : binary m e < binary n f := by
  have full : 2 ^ 52 ≤ n := by
    rcases d.full with full | lowest
    · exact full
    · have := c.low
      omega
  calc binary m e < binary (2 ^ 52 * 2 ^ 1) e := (binary_lt_iff e).mpr c.short
    _ = binary (2 ^ 52) (e + 1) := binary_shift _ 1 e
    _ ≤ binary (2 ^ 52) f := by
        rw [binary_of_le _ (show e + 1 ≤ f by omega), binary_le_iff]
        exact Nat.le_mul_of_pos_right _ (Nat.two_pow_pos _)
    _ ≤ binary n f := (binary_le_iff f).mpr full

/-- Comparing exponents and then mantissas compares the rationals. -/
theorem compare_eq {m n : Nat} {e f : Int} (c : Canonical m e) (d : Canonical n f) :
    (compare e f).then (compare m n) = cmp (binary m e) (binary n f) := by
  rcases lt_trichotomy e f with below | rfl | above
  · rw [compare_lt_iff_lt.mpr below, (cmp_eq_lt_iff _ _).mpr (lt_of_exponent_lt c d below)]
    rfl
  · rw [compare_eq_iff_eq.mpr rfl, Ordering.eq_then]
    rcases lt_trichotomy m n with less | rfl | greater
    · rw [compare_lt_iff_lt.mpr less, (cmp_eq_lt_iff _ _).mpr ((binary_lt_iff e).mpr less)]
    · rw [compare_eq_iff_eq.mpr rfl, (cmp_eq_eq_iff _ _).mpr rfl]
    · rw [compare_gt_iff_gt.mpr greater, (cmp_eq_gt_iff _ _).mpr ((binary_lt_iff e).mpr greater)]
  · rw [compare_gt_iff_gt.mpr above, (cmp_eq_gt_iff _ _).mpr (lt_of_exponent_lt d c above)]
    rfl

end Canonical

/-! ## What is unpacked, and what is packed -/

/-- The largest exponent of a double. -/
def maxExponent : Int := 971

/-- A number that is in the form doubles have. -/
def Lodged : UnpackedFloat → Prop
  | .finite _ m e _ => Canonical m e ∧ e ≤ maxExponent
  | _ => True

/-- The number that the fields of a double stand for. -/
def ofFields (s : Sign) (e : BitVec 11) (m : BitVec 52) : UnpackedFloat :=
  if e.toNat = 2047 then if m.toNat = 0 then .infinity s else .notANumber
  else if e.toNat = 0 then
    if h : m.toNat = 0 then .zero s else .finite s m.toNat (e.toNat - 1075 + 1) (Nat.pos_of_ne_zero h)
  else .finite s (2 ^ 52 + m.toNat) (e.toNat - 1075) (by positivity)

theorem lodged_ofFields (s : Sign) (e : BitVec 11) (m : BitVec 52) : Lodged (ofFields s e m) := by
  have exponent := e.isLt
  have mantissa := m.isLt
  unfold ofFields
  split
  · split <;> trivial
  · split
    · split
      · trivial
      · exact ⟨⟨by omega, by omega, by omega⟩, by unfold maxExponent; omega⟩
    · exact ⟨⟨by omega, by omega, by omega⟩, by unfold maxExponent; omega⟩

/-- The implicit bit stands before the others. -/
theorem toNat_implicit (m : BitVec 52) : (1#1 ++ m).toNat = 2 ^ 52 + m.toNat := by
  rw [BitVec.toNat_append, ← Nat.shiftLeft_add_eq_or_of_lt m.isLt]
  rfl

theorem unpack_eq (b : BitVec 64) :
    UnpackedFloat.unpack .binary64 b
      = ofFields (Sign.ofBitVec (@unpackSign .binary64 b)) (@unpackExponent .binary64 b)
          (@unpackMantissa .binary64 b) := by
  have bias : (Format.binary64.exponentBias : Int) + (52 : Nat) = 1075 := rfl
  have top (e : BitVec 11) : e = -1#11 ↔ e.toNat = 2047 := BitVec.toNat_inj.symm
  have none (e : BitVec 11) : e = 0#11 ↔ e.toNat = 0 := BitVec.toNat_inj.symm
  have empty (m : BitVec 52) : m = 0#52 ↔ m.toNat = 0 := BitVec.toNat_inj.symm
  unfold UnpackedFloat.unpack ofFields
  simp only [bias, top, none, empty, toNat_implicit]

theorem unpack_packComponents (s : Sign) (e : BitVec 11) (m : BitVec 52) :
    UnpackedFloat.unpack .binary64 (packComponents .binary64 s e m) = ofFields s e m := by
  rw [unpack_eq, UnpackedFloat.unpackSign_packComponents, Sign.ofBitVec_toBitVec,
    UnpackedFloat.unpackExponent_packComponents, UnpackedFloat.unpackMantissa_packComponents]

theorem pack_finite (s : Sign) (m : Nat) (e : Int) (positive : 0 < m) :
    UnpackedFloat.pack .binary64 (.finite s m e positive)
      = if maxExponent < e then packComponents .binary64 s (-1#11) 0
        else if m.log2 = 52 then
          packComponents .binary64 s (BitVec.ofNat 11 (e + 1075).toNat) (BitVec.ofNat 52 m)
        else packComponents .binary64 s 0 (BitVec.ofNat 52 m) := by
  have biased : (e + Format.binary64.exponentBias + (52 : Nat)).toNat = (e + 1075).toNat := by
    show (e + (1023 : Nat) + (52 : Nat)).toNat = _
    omega
  have top : 2 ^ Format.binary64.exponentBits ≤ (e + 1075).toNat + 1 ↔ maxExponent < e := by
    show 2 ^ 11 ≤ _ ↔ (971 : Int) < e
    omega
  have bits : m.log2 + 1 = Format.binary64.mantissaBits ↔ m.log2 = 52 := by
    show m.log2 + 1 = 53 ↔ _
    omega
  unfold UnpackedFloat.pack
  simp only [biased, top, bits]
  rfl

/-- Nothing is lost on a number that is in the form doubles have. -/
theorem unpack_pack {u : UnpackedFloat} (lodged : Lodged u) :
    UnpackedFloat.unpack .binary64 (UnpackedFloat.pack .binary64 u) = u := by
  cases u with
  | infinity s => exact unpack_packComponents s (-1#11) 0
  | notANumber => exact unpack_packComponents .positive (-1#11) (1#52 <<< 51)
  | zero s => exact unpack_packComponents s 0 0
  | finite s m e positive =>
      obtain ⟨⟨short, low, full⟩, high⟩ := lodged
      rw [pack_finite, if_neg (by omega)]
      unfold maxExponent at high
      by_cases normal : 2 ^ 52 ≤ m
      · have exponent : (BitVec.ofNat 11 (e + 1075).toNat).toNat = (e + 1075).toNat :=
          Nat.mod_eq_of_lt (by omega)
        have mantissa : (BitVec.ofNat 52 m).toNat = m - 2 ^ 52 := by
          rw [BitVec.toNat_ofNat]
          omega
        rw [if_pos ((Nat.log2_eq_iff positive.ne').mpr ⟨normal, short⟩), unpack_packComponents]
        unfold ofFields
        rw [if_neg (by omega), if_neg (by omega), UnpackedFloat.finite.injEq]
        refine ⟨rfl, by omega, by omega⟩
      · have mantissa : (BitVec.ofNat 52 m).toNat = m := Nat.mod_eq_of_lt (by omega)
        have bits : m.log2 ≠ 52 := by
          intro bits
          exact normal ((Nat.log2_eq_iff positive.ne').mp bits).1
        rw [if_neg bits, unpack_packComponents]
        unfold ofFields
        rw [if_neg (by decide), if_pos (by rfl), dif_neg (by omega), UnpackedFloat.finite.injEq]
        refine ⟨rfl, mantissa, ?_⟩
        show (0 : Int) - 1075 + 1 = e
        omega

/-- What is too large becomes infinite. -/
theorem unpack_pack_large (s : Sign) (m : Nat) {e : Int} (positive : 0 < m)
    (large : maxExponent < e) :
    UnpackedFloat.unpack .binary64 (UnpackedFloat.pack .binary64 (.finite s m e positive))
      = .infinity s := by
  rw [pack_finite, if_pos large, unpack_packComponents]
  rfl

/-! ## Points -/

/-- A rational, or one of the two infinities around the rationals. -/
abbrev Point : Type := WithBot (WithTop Rat)

def Point.rational (q : Rat) : Point := ((q : WithTop Rat) : Point)

namespace Point

theorem rational_strictMono : StrictMono rational :=
  WithBot.coe_strictMono.comp WithTop.coe_strictMono

@[simp] theorem rational_le {p q : Rat} : rational p ≤ rational q ↔ p ≤ q :=
  rational_strictMono.le_iff_le

@[simp] theorem rational_lt {p q : Rat} : rational p < rational q ↔ p < q :=
  rational_strictMono.lt_iff_lt

@[simp] theorem rational_inj {p q : Rat} : rational p = rational q ↔ p = q :=
  rational_strictMono.injective.eq_iff

@[simp] theorem rational_lt_top (q : Rat) : rational q < ⊤ :=
  WithBot.coe_lt_coe.mpr (WithTop.coe_lt_top q)

@[simp] theorem bot_lt_rational (q : Rat) : ⊥ < rational q := WithBot.bot_lt_coe _

end Point

open Point (rational)

/-- Where a number stands; a NaN stands nowhere. -/
def pointOf : UnpackedFloat → Option Point
  | .infinity .positive => some ⊤
  | .infinity .negative => some ⊥
  | .notANumber => none
  | .zero _ => some (rational 0)
  | .finite s m e _ => some (rational (signedBinary s m e))

/-- Where a double stands; a NaN stands nowhere. -/
def point (x : Float) : Option Point := pointOf x.toModel.unpack

theorem cmp_rational (p q : Rat) : cmp (rational p) (rational q) = cmp p q :=
  Point.rational_strictMono.cmp_map_eq p q

/-- Numbers in the form of doubles are compared by their points. -/
theorem compare_eq_cmp {u v : UnpackedFloat} (hu : Lodged u) (hv : Lodged v) :
    u.compare v = Option.map₂ cmp (pointOf u) (pointOf v) := by
  have less {p q : Point} (below : p < q) : Ordering.lt = cmp p q :=
    ((cmp_eq_lt_iff _ _).mpr below).symm
  have greater {p q : Point} (above : q < p) : Ordering.gt = cmp p q :=
    ((cmp_eq_gt_iff _ _).mpr above).symm
  rcases u with (_ | _) | _ | _ | ⟨_ | _, m, e, hm⟩ <;>
    rcases v with (_ | _) | _ | _ | ⟨_ | _, n, f, hn⟩ <;>
    simp only [pointOf, UnpackedFloat.compare, signedBinary_positive, signedBinary_negative,
      Option.map₂_none_left, Option.map₂_none_right, Option.map₂_some_some, Option.some.injEq,
      cmp_self_eq_eq]
  case finite.positive.finite.positive =>
    rw [cmp_rational]
    exact hu.1.compare_eq hv.1
  case finite.negative.finite.negative =>
    have reversed : StrictAnti (fun q : Rat => -q) := fun _ _ below => neg_lt_neg below
    rw [cmp_rational, reversed.cmp_map_eq, hu.1.compare_eq hv.1, cmp_swap]
  -- Signs decide where one number is not above zero and the other is not below.
  case finite.negative.finite.positive =>
    have := binary_pos hm e
    have := binary_pos hn f
    exact less (Point.rational_lt.mpr (by linarith))
  case finite.positive.finite.negative =>
    have := binary_pos hm e
    have := binary_pos hn f
    exact greater (Point.rational_lt.mpr (by linarith))
  case zero.finite.negative => exact greater (by simpa using binary_pos hn f)
  case zero.finite.positive => exact less (by simpa using binary_pos hn f)
  case finite.negative.zero => exact less (by simpa using binary_pos hm e)
  case finite.positive.zero => exact greater (by simpa using binary_pos hm e)
  case infinity.negative.infinity.negative => rfl
  case infinity.positive.infinity.positive => rfl
  -- What is left has an infinity on one side.
  all_goals first
    | exact less (by simp)
    | exact greater (by simp)

/-- What a double holds is in the form doubles have. -/
theorem lodged_toModel (x : Float) : Lodged x.toModel.unpack := by
  unfold Float.Model.unpack
  rw [unpack_eq]
  exact lodged_ofFields _ _ _

theorem compare_point (x y : Float) :
    x.toModel.compare y.toModel = Option.map₂ cmp (point x) (point y) :=
  compare_eq_cmp (lodged_toModel x) (lodged_toModel y)

theorem le_iff_point {x y : Float} :
    x ≤ y ↔ ∃ p ∈ point x, ∃ q ∈ point y, p ≤ q := by
  have unfolded : x ≤ y ↔ (x.toModel.compare y.toModel).any Ordering.isLE = true := by
    show decide _ = true ↔ _
    rw [decide_eq_true_eq]
    rfl
  rw [unfolded, compare_point]
  cases point x <;> cases point y <;> simp [Ordering.isLE_iff_ne_gt]

theorem lt_iff_point {x y : Float} :
    x < y ↔ ∃ p ∈ point x, ∃ q ∈ point y, p < q := by
  have unfolded : x < y ↔ x.toModel.compare y.toModel = some .lt := by
    show decide _ = true ↔ _
    rw [decide_eq_true_eq]
    exact beq_iff_eq
  rw [unfolded, compare_point]
  cases point x <;> cases point y <;> simp [cmp_eq_lt_iff]

theorem beq_iff_point {x y : Float} : (x == y) = true ↔ ∃ p ∈ point x, p ∈ point y := by
  have unfolded : (x == y) = true ↔ x.toModel.compare y.toModel = some .eq := by
    show (x.toModel.compare y.toModel == some .eq) = true ↔ _
    exact beq_iff_eq
  rw [unfolded, compare_point]
  cases point x with
  | none => simp
  | some p => cases point y with
    | none => simp
    | some q => simpa [cmp_eq_eq_iff] using eq_comm

/-- A double is exactly a rational if it stands there. -/
theorem exact_eq_some_iff {x : Float} {q : Rat} :
    exact x = some q ↔ point x = some (rational q) := by
  unfold exact point
  rcases x.toModel.unpack with (_ | _) | _ | _ | ⟨s, m, e, positive⟩ <;>
    simp [pointOf, (Point.rational_lt_top q).ne', (Point.bot_lt_rational q).ne]

/-! ## The order of doubles

Doubles are ordered as their points are, and what has no point is not ordered. -/

theorem le_trans_of_points {x y z : Float} (first : x ≤ y) (second : y ≤ z) : x ≤ z := by
  obtain ⟨p, hp, q, hq, below⟩ := le_iff_point.mp first
  obtain ⟨q', hq', r, hr, above⟩ := le_iff_point.mp second
  obtain rfl : q = q' := Option.some.inj (hq.symm.trans hq')
  exact le_iff_point.mpr ⟨p, hp, r, hr, below.trans above⟩

theorem lt_iff_le_not_le {x y : Float} : x < y ↔ x ≤ y ∧ ¬ y ≤ x := by
  rw [lt_iff_point, le_iff_point, le_iff_point]
  cases point x with
  | none => simp
  | some p => cases point y with
    | none => simp
    | some q => simpa using le_of_lt

/-- Two zeros are equal, whatever their signs, and a NaN equals nothing. -/
theorem beq_iff_le_le {x y : Float} : (x == y) = true ↔ x ≤ y ∧ y ≤ x := by
  rw [beq_iff_point, le_iff_point, le_iff_point]
  cases point x with
  | none => simp
  | some p => cases point y with
    | none => simp
    | some q => simpa [eq_comm] using le_antisymm_iff

theorem le_self_iff {x : Float} : x ≤ x ↔ ∃ p, point x = some p := by
  rw [le_iff_point]
  constructor
  · rintro ⟨p, stands, -⟩
    exact ⟨p, stands⟩
  · rintro ⟨p, stands⟩
    exact ⟨p, stands, p, stands, le_rfl⟩

theorem le_self_of_le {x y : Float} (le : x ≤ y) : x ≤ x ∧ y ≤ y := by
  obtain ⟨p, hp, q, hq, -⟩ := le_iff_point.mp le
  exact ⟨le_self_iff.mpr ⟨p, hp⟩, le_self_iff.mpr ⟨q, hq⟩⟩

theorem le_total_of_points {x y : Float} (hx : x ≤ x) (hy : y ≤ y) : x ≤ y ∨ y ≤ x := by
  obtain ⟨p, hp⟩ := le_self_iff.mp hx
  obtain ⟨q, hq⟩ := le_self_iff.mp hy
  rcases le_total p q with le | ge
  · exact .inl (le_iff_point.mpr ⟨p, hp, q, hq, le⟩)
  · exact .inr (le_iff_point.mpr ⟨q, hq, p, hp, ge⟩)

theorem le_self_of_exact {x : Float} (finite : (exact x).isSome = true) : x ≤ x := by
  obtain ⟨q, known⟩ := Option.isSome_iff_exists.mp finite
  exact le_self_iff.mpr ⟨_, exact_eq_some_iff.mp known⟩

end Montage
