/-
# Montage.Proofs.Number.Layout -- doubles in a data file are read back

A decimal is laid out in one of four ways: an integer with `.0` behind it, a fraction below one, a
decimal with the point inside, or one digit before the point and a power of ten.  Each of them is
the spelling of a strict literal that says the same (`dataLayout_spelling`), and none of them looks
like a count.  Together with what is known of shortest decimals and of reading them, a double with a
value is read back from its text, bit for bit (`exists_literal_dataText`).
-/
import Montage.Proofs.Number.Decimal
import Montage.Proofs.Number.Shortest

namespace Montage

set_option autoImplicit false

open Float.Model
open Float.Model.UnpackedFloat

/-! ## The digits of a decimal -/

theorem toList_toString (n : Nat) : (toString n).toList = Nat.toDigits 10 n := Nat.toList_repr

theorem length_toString (n : Nat) : (toString n).length = (Nat.toDigits 10 n).length := by
  rw [← String.length_toList, toList_toString]

theorem toList_zeros (n : Nat) : (zeros n).toList = List.replicate n '0' := String.toList_ofList

namespace Decimal

/-- A literal that a decimal may be written as: it says the same, and is no count. -/
structure Writes (d : Decimal) (l : Literal) : Prop where
  spelled : l.IsSpelled
  unsigned : l.negative = false
  magnitude : l.magnitude = d.value
  fraction : l.places ≠ none ∨ l.power ≠ none

variable {d : Decimal}

theorem magnitude_eq {l : Literal} {z : Int}
    (digits : digitsValue (l.whole ++ l.places.getD []) = d.coefficient * 10 ^ z.toNat)
    (nonneg : 0 ≤ z) (power : l.power.getD 0 - ((l.places.getD []).length : Int) + z = d.exponent) :
    l.magnitude = d.value := by
  rw [Literal.magnitude, digits, value, ← power, add_comm, zpow_add₀ (by norm_num)]
  nth_rewrite 2 [← Int.toNat_of_nonneg nonneg]
  rw [zpow_natCast]
  push_cast
  ring

/-- An integer keeps a point and a zero. -/
theorem writes_integer (some_ : 0 < d.coefficient) (whole : 0 ≤ d.exponent) :
    ∃ l, Writes d l ∧ (d.positional ++ ".0").toList = l.spelling := by
  refine ⟨⟨false, Nat.toDigits 10 d.coefficient ++ List.replicate d.exponent.toNat '0', some ['0'],
    none⟩, ⟨⟨?_, ?_, ?_⟩, rfl, ?_, .inl (by simp)⟩, ?_⟩
  · exact (allDigits_toDigits _).append (allDigits_replicate_zero _)
  · exact allDigits_replicate_zero 1
  · have head := head?_toDigits some_
    have nonempty := Nat.toDigits_ne_nil (b := 10) (n := d.coefficient)
    simp [Literal.IsStrict, nonempty, head]
  · have zero : ['0'] = List.replicate 1 '0' := rfl
    refine magnitude_eq (z := d.exponent + 1) ?_ (by omega) (by simp)
    show digitsValue (_ ++ ['0']) = _
    rw [zero, digitsValue_append_zeros, digitsValue_append_zeros, digitsValue_toDigits, Nat.mul_assoc,
      ← Nat.pow_add]
    congr 2
    omega
  · unfold positional
    rw [if_pos whole]
    simp [Literal.spelling, toList_zeros]

/-- A fraction below one has nothing but a zero before the point. -/
theorem writes_fraction (fraction : ¬ 0 ≤ d.exponent)
    (small : ((toString d.coefficient).length : Int) + d.exponent ≤ 0) :
    ∃ l, Writes d l ∧ d.positional.toList = l.spelling := by
  have nonempty := Nat.toDigits_ne_nil (b := 10) (n := d.coefficient)
  refine ⟨⟨false, ['0'], some (List.replicate (-((toString d.coefficient).length + d.exponent)).toNat '0'
    ++ Nat.toDigits 10 d.coefficient), none⟩, ⟨⟨?_, ?_, ?_⟩, rfl, ?_, .inl (by simp)⟩, ?_⟩
  · exact allDigits_replicate_zero 1
  · exact (allDigits_replicate_zero _).append (allDigits_toDigits _)
  · simp [Literal.IsStrict, nonempty]
  · refine magnitude_eq (z := 0) ?_ le_rfl ?_
    · have zero : ['0'] = List.replicate 1 '0' := rfl
      show digitsValue (['0'] ++ (_ ++ _)) = _
      rw [zero, digitsValue_zeros_append, digitsValue_zeros_append, digitsValue_toDigits]
      simp
    · rw [length_toString] at small ⊢
      simp only [Option.getD_none, Option.getD_some, List.length_append, List.length_replicate]
      omega
  · unfold positional
    rw [if_neg fraction, if_pos small]
    simp [Literal.spelling, toList_zeros]

/-- Otherwise the point stands among the digits. -/
theorem writes_inside (some_ : 0 < d.coefficient) (fraction : ¬ 0 ≤ d.exponent)
    (large : ¬ ((toString d.coefficient).length : Int) + d.exponent ≤ 0) :
    ∃ l, Writes d l ∧ d.positional.toList = l.spelling := by
  unfold positional
  rw [if_neg fraction, if_neg large]
  simp only [length_toString, toList_toString] at large ⊢
  generalize cut : (((Nat.toDigits 10 d.coefficient).length : Int) + d.exponent).toNat = k
  have digits := allDigits_toDigits d.coefficient
  have value := digitsValue_toDigits d.coefficient
  have head := head?_toDigits some_
  generalize Nat.toDigits 10 d.coefficient = ds at *
  refine ⟨⟨false, ds.take k, some (ds.drop k), none⟩, ⟨⟨?_, ?_, ?_⟩, rfl, ?_, .inl (by simp)⟩, ?_⟩
  · exact digits.sublist (List.take_sublist _ _)
  · exact digits.sublist (List.drop_sublist _ _)
  · have some_ : k ≠ 0 := by omega
    have first : ds ≠ [] := by
      rintro rfl
      simp at large
      omega
    have rest : ¬ ds.length ≤ k := by omega
    simp [Literal.IsStrict, List.head?_take, some_, first, head, rest]
  · refine magnitude_eq (z := 0) ?_ le_rfl ?_
    · simpa using value
    · simp only [Option.getD_none, Option.getD_some, List.length_drop]
      omega
  · simp [Literal.spelling]

/-- One digit before the point, and a power of ten. -/
theorem writes_power (d : Decimal) : ∃ l, Writes d l ∧ d.scientific.toList = l.spelling := by
  unfold scientific
  simp only [length_toString, toList_toString]
  generalize power : ((Nat.toDigits 10 d.coefficient).length : Int) + d.exponent - 1 = p
  have digits := allDigits_toDigits d.coefficient
  have value := digitsValue_toDigits d.coefficient
  have nonempty := Nat.toDigits_ne_nil (b := 10) (n := d.coefficient)
  generalize Nat.toDigits 10 d.coefficient = ds at *
  obtain ⟨c, cs, rfl⟩ := List.exists_cons_of_ne_nil nonempty
  refine ⟨⟨false, [c], if cs = [] then none else some cs, some p⟩,
    ⟨⟨?_, ?_, ?_⟩, rfl, ?_, .inr (by simp)⟩, ?_⟩
  · exact digits.sublist (by simp)
  · split
    · exact allDigits_nil
    · exact digits.sublist (by simp)
  · by_cases none : cs = [] <;> simp [Literal.IsStrict, none]
  · have tail : (if cs = [] then none else some cs).getD [] = cs := by
      split <;> simp_all
    refine magnitude_eq (z := 0) ?_ le_rfl ?_
    · simpa [tail] using value
    · simp only [tail, Option.getD_some]
      simp only [List.length_cons] at power
      omega
  · by_cases none : cs = [] <;> simp [Literal.spelling, none]

/-- **The layout of a decimal is the spelling of a literal** that says the same. -/
theorem dataLayout_spelling (some_ : 0 < d.coefficient) :
    ∃ l, Writes d l ∧ d.dataLayout.toList = l.spelling := by
  unfold dataLayout
  simp only
  split
  · split
    · exact writes_integer some_ ‹_›
    · by_cases small : ((toString d.coefficient).length : Int) + d.exponent ≤ 0
      · exact writes_fraction ‹_› small
      · exact writes_inside some_ ‹_› small
  · exact writes_power d

end Decimal

/-! ## The text of a double -/

/-- A literal with a minus in front. -/
def Literal.negated (l : Literal) : Literal := { l with negative := true }

namespace Literal

variable {l : Literal}

theorem IsSpelled.negated (spelled : l.IsSpelled) : l.negated.IsSpelled :=
  ⟨spelled.whole, spelled.places, spelled.strict⟩

theorem spelling_negated (unsigned : l.negative = false) : l.negated.spelling = '-' :: l.spelling := by
  simp [negated, spelling, unsigned]

end Literal

/-- The text of a double is the spelling of a literal that is read as the double and looks like no
count. -/
structure DataLiteral (x : Float) (l : Literal) : Prop where
  spelled : l.IsSpelled
  text : (dataText x).toList = l.spelling
  read : l.toFloat = x
  notCount : ¬ (l.negative = false ∧ l.places = none ∧ l.power = none)

/-- **Every double with a value is read back from its text.** -/
theorem exists_dataLiteral {x : Float} (finite : x.isFinite = true) : ∃ l, DataLiteral x l := by
  have shape : x.toModel.unpack.isFinite = true := finite
  have lodged := lodged_toModel x
  have number : x.toModel.unpack ≠ .notANumber := by
    intro none
    rw [none] at shape
    cases shape
  have same {l : Literal} {u : UnpackedFloat} (unpacked : x.toModel.unpack = u)
      (read : l.toFloat.toModel.unpack = u) : l.toFloat = x :=
    (eq_of_unpack (unpacked.trans read.symm) number).symm
  have digit : AllDigits ['0'] := allDigits_replicate_zero 1
  rcases unpacked : x.toModel.unpack with _ | _ | (_ | _) | ⟨s, m, e, positive⟩
  · rw [unpacked] at shape
    cases shape
  · rw [unpacked] at shape
    cases shape
  · refine ⟨⟨true, ['0'], some ['0'], none⟩, ⟨digit, digit, rfl⟩, ?_, same unpacked rfl, by simp⟩
    rw [dataText, unpacked]
    rfl
  · refine ⟨⟨false, ['0'], some ['0'], none⟩, ⟨digit, digit, rfl⟩, ?_, same unpacked rfl, by simp⟩
    rw [dataText, unpacked]
    rfl
  · rw [unpacked] at lodged
    have attracts := attracts_shortest .even lodged.1 positive
    have some_ : 0 < (shortest .even m e).coefficient := by
      have above := attracts.pos positive
      rw [Decimal.value] at above
      exact_mod_cast pos_of_mul_pos_left above (zpow_pos (by norm_num : (0 : Rat) < 10) _).le
    obtain ⟨l, writes, layout⟩ := Decimal.dataLayout_spelling some_
    rw [← writes.magnitude] at attracts
    have whole (s : Sign) : signed s m e = .finite s m e positive := dif_neg positive.ne'
    cases s with
    | positive =>
        refine ⟨l, writes.spelled, ?_, same unpacked ?_, fun count => ?_⟩
        · rw [dataText, unpacked]
          exact layout
        · rw [l.unpack_toFloat positive lodged.1 lodged.2 attracts, writes.unsigned,
            if_neg Bool.false_ne_true, whole]
        · exact writes.fraction.elim (· count.2.1) (· count.2.2)
    | negative =>
        refine ⟨l.negated, writes.spelled.negated, ?_, same unpacked ?_, fun count => ?_⟩
        · rw [dataText, unpacked, Literal.spelling_negated writes.unsigned, ← layout]
          simp
        · rw [l.negated.unpack_toFloat positive lodged.1 lodged.2 attracts]
          exact whole .negative
        · cases count.1

end Montage
