/-
# Montage.Proofs.Number.Plain -- the decimals that filters are written with

The text of a numeral is a plain decimal: a sign, digits without a superfluous zero in front,
and at most six behind a point, the last of them not a zero; there is no exponent and no minus
on zero.  A plain decimal is determined by its value (`Spells.text_inj`), so texts can be
compared in place of values.

What the text of a double says is the multiple of a millionth that is nearest to the double, a
half going to the even one (`NearestEven`).  To round the double first and to spell what comes
of it is to write six places and to trim them (`Numeral.trimmed_eq_text`).
-/
import Montage.Proofs.Number.Literal
import Montage.Proofs.Number.Numeral

namespace Montage

set_option autoImplicit false

/-! ## Nearest integers -/

/-- The integer is nearest to the rational, and the even one of two. -/
def NearestEven (q : Rat) (k : Int) : Prop := |q - k| ≤ 1 / 2 ∧ (|q - k| = 1 / 2 → Even k)

theorem nearestEven_roundEven (q : Rat) : NearestEven q (roundEven q) := by
  have floor : q.floor = ⌊q⌋ := rfl
  have low := Int.floor_le q
  have high := Int.lt_floor_add_one q
  simp only [roundEven, floor]
  split_ifs with below above even
  · rw [NearestEven, abs_of_nonneg (by linarith)]
    exact ⟨below.le, fun half => absurd half below.ne⟩
  · rw [NearestEven, abs_of_nonpos (by push_cast; linarith)]
    push_cast
    exact ⟨by linarith, fun half => absurd half (by linarith)⟩
  · rw [NearestEven, abs_of_nonneg (by linarith)]
    exact ⟨not_lt.mp above, fun _ => Int.even_iff.mpr even⟩
  · rw [NearestEven, abs_of_nonpos (by push_cast; linarith)]
    push_cast
    exact ⟨by linarith, fun _ => Int.even_iff.mpr (by omega)⟩

/-- Of two neighbours only one is nearest: both would be a half away, and both even. -/
theorem NearestEven.not_succ {q : Rat} {k : Int} (first : NearestEven q k)
    (second : NearestEven q (k + 1)) : False := by
  obtain ⟨near, even⟩ := first
  obtain ⟨near', even'⟩ := second
  have below := (abs_le.mp near).2
  have above := (abs_le.mp near').1
  push_cast at above even'
  have half : |q - k| = 1 / 2 := by
    rw [abs_of_nonneg (by linarith)]
    linarith
  have half' : |q - (k + 1)| = 1 / 2 := by
    rw [abs_of_nonpos (by linarith)]
    linarith
  exact Int.even_add_one.mp (even' half') (even half)

/-- There is one such integer. -/
theorem NearestEven.eq_roundEven {q : Rat} {k : Int} (nearest : NearestEven q k) :
    k = roundEven q := by
  have rounded := nearestEven_roundEven q
  generalize roundEven q = j at rounded
  obtain ⟨low, high⟩ := abs_le.mp nearest.1
  obtain ⟨low', high'⟩ := abs_le.mp rounded.1
  have upper : (k : Rat) ≤ j + 1 := by linarith
  have lower : (j : Rat) ≤ k + 1 := by linarith
  have upper : k ≤ j + 1 := by exact_mod_cast upper
  have lower : j ≤ k + 1 := by exact_mod_cast lower
  rcases (by omega : k = j ∨ k = j + 1 ∨ j = k + 1) with same | rfl | rfl
  · exact same
  · exact (rounded.not_succ nearest).elim
  · exact (nearest.not_succ rounded).elim

theorem roundEven_neg (q : Rat) : roundEven (-q) = -roundEven q := by
  obtain ⟨near, even⟩ := nearestEven_roundEven q
  have mirrored : |-q - ((-roundEven q : Int) : Rat)| = |q - roundEven q| := by
    rw [← abs_neg]
    push_cast
    congr 1
    ring
  refine (NearestEven.eq_roundEven ⟨?_, fun half => ?_⟩).symm
  · rw [mirrored]
    exact near
  · rw [mirrored] at half
    exact (even half).neg

/-- A double with a minus sign is not positive, and one without is not negative. -/
theorem sign_of_exact {x : Float} {q : Rat} (known : exact x = some q) :
    (hasMinus x = true → q ≤ 0) ∧ (hasMinus x = false → 0 ≤ q) := by
  unfold exact at known
  unfold hasMinus
  cases unpacked : x.toModel.unpack with
  | zero s =>
      rw [unpacked] at known
      obtain rfl := Option.some.inj known
      exact ⟨fun _ => le_rfl, fun _ => le_rfl⟩
  | finite s m e fits =>
      rw [unpacked] at known
      obtain rfl := Option.some.inj known
      have magnitude : (0 : Rat) ≤ (m : Rat) * (2 : Rat) ^ e := by positivity
      cases s with
      | positive => exact ⟨nofun, fun _ => magnitude⟩
      | negative => exact ⟨fun _ => neg_nonpos.mpr magnitude, nofun⟩
  | infinity s =>
      rw [unpacked] at known
      cases known
  | notANumber =>
      rw [unpacked] at known
      cases known

/-! ## Plain decimals -/

namespace Literal

/-- A literal without a power of ten, without superfluous zeros, with at most six places, and
without a minus on zero. -/
structure IsPlain (l : Literal) : Prop where
  spelled : l.IsSpelled
  noPower : l.power = none
  short : (l.places.getD []).length ≤ 6
  noZeros : (l.places.getD []).getLast? ≠ some '0'
  signed : l.negative = true → l.value ≠ 0

end Literal

/-- A text is a plain decimal with a value. -/
def Spells (s : String) (v : Rat) : Prop :=
  ∃ l : Literal, l.IsPlain ∧ s.toList = l.spelling ∧ l.value = v

/-- A text has one value at most. -/
theorem Spells.unique {s : String} {v w : Rat} (first : Spells s v) (second : Spells s w) :
    v = w := by
  obtain ⟨l, plain, text, rfl⟩ := first
  obtain ⟨k, plain', text', rfl⟩ := second
  rw [Literal.spelling_inj plain.spelled plain'.spelled (text.symm.trans text')]

/-! ## The text of a numeral -/

namespace Numeral

theorem allDigits_sixDigits (n : Nat) : AllDigits (sixDigits n) := by
  intro c member
  obtain ⟨m, -, rfl⟩ := List.mem_map.mp member
  have digit : ∀ d < 10, (Nat.digitChar d).isDigit = true := by decide
  exact digit _ (Nat.mod_lt _ (by decide))

theorem digitsValue_sixDigits {n : Nat} (short : n < 1000000) : digitsValue (sixDigits n) = n := by
  have digit (k : Nat) : (Nat.digitChar (k % 10)).toNat - '0'.toNat = k % 10 := by
    have each : ∀ d < 10, (Nat.digitChar d).toNat - '0'.toNat = d := by decide
    exact each _ (Nat.mod_lt _ (by decide))
  simp only [sixDigits, digitsValue, List.map_cons, List.map_nil, List.foldl_cons, List.foldl_nil,
    digit]
  omega

/-- What is dropped at the end are zeros, and the last one that stays is none. -/
theorem dropZeros_spec (ds : List Char) :
    ∃ n, ds = dropZeros ds ++ List.replicate n '0' ∧ (dropZeros ds).getLast? ≠ some '0' := by
  refine ⟨(ds.reverse.takeWhile (· = '0')).length, ?_, ?_⟩
  · have zeros : ds.reverse.takeWhile (· = '0')
        = List.replicate (ds.reverse.takeWhile (· = '0')).length '0' :=
      List.eq_replicate_of_mem fun c member => by simpa using List.mem_takeWhile_imp member
    rw [dropZeros, ← List.reverse_replicate, ← zeros, ← List.reverse_append,
      List.takeWhile_append_dropWhile, List.reverse_reverse]
  · rw [dropZeros, List.getLast?_reverse]
    intro last
    have kept := List.head?_dropWhile_not (· = '0') ds.reverse
    rw [last] at kept
    simp at kept

theorem dropZeros_sublist (ds : List Char) : (dropZeros ds).Sublist ds := by
  have part := (List.dropWhile_sublist (l := ds.reverse) (· = '0')).reverse
  rwa [List.reverse_reverse] at part

/-- The digits of a count, and its places behind a point if there are any. -/
theorem magnitudeText_toList (n : Nat) :
    (magnitudeText n).toList
      = Nat.toDigits 10 (n / 1000000) ++ if (dropZeros (sixDigits (n % 1000000))).isEmpty then []
        else '.' :: dropZeros (sixDigits (n % 1000000)) := by
  rw [magnitudeText, String.toList_append, Nat.toString_eq_repr, Nat.toList_repr]
  split <;> simp

/-- The literal of a count of millionths. -/
def literal (k : Int) : Literal where
  negative := k < 0
  whole := Nat.toDigits 10 (k.natAbs / 1000000)
  places :=
    let places := dropZeros (sixDigits (k.natAbs % 1000000))
    if places.isEmpty then none else some places
  power := none

theorem literal_places (k : Int) :
    (literal k).places.getD [] = dropZeros (sixDigits (k.natAbs % 1000000)) := by
  show (if _ then none else some _ : Option (List Char)).getD [] = _
  split
  · rename_i empty
    exact (List.isEmpty_iff.mp empty).symm
  · rfl

theorem spelling_literal (k : Int) : (⟨some k⟩ : Numeral).text.toList = (literal k).spelling := by
  have sign : (if k < 0 then "-" else "").toList = if decide (k < 0) then ['-'] else [] := by
    by_cases negative : k < 0 <;> simp [negative]
  have places : (literal k).places.elim [] ('.' :: ·)
      = if (dropZeros (sixDigits (k.natAbs % 1000000))).isEmpty then []
        else '.' :: dropZeros (sixDigits (k.natAbs % 1000000)) := by
    show (if _ then none else some _ : Option (List Char)).elim [] ('.' :: ·) = _
    split <;> rfl
  show ((if k < 0 then "-" else "") ++ magnitudeText k.natAbs).toList
    = (if decide (k < 0) then ['-'] else []) ++ Nat.toDigits 10 (k.natAbs / 1000000)
      ++ (literal k).places.elim [] ('.' :: ·) ++ []
  rw [String.toList_append, sign, magnitudeText_toList, places, List.append_nil, List.append_assoc]

theorem value_literal (k : Int) : (literal k).value = k / 1000000 := by
  obtain ⟨n, split, -⟩ := dropZeros_spec (sixDigits (k.natAbs % 1000000))
  have length := congrArg List.length split
  have count := congrArg digitsValue split
  rw [digitsValue_sixDigits (Nat.mod_lt _ (by decide)), digitsValue_append_zeros] at count
  rw [List.length_append, List.length_replicate] at length
  have six : (sixDigits (k.natAbs % 1000000)).length = 6 := rfl
  have places := literal_places k
  unfold Literal.value
  rw [places]
  generalize dropZeros (sixDigits (k.natAbs % 1000000)) = ds at count length
  -- The whole part moved up by the places, and the places, are the count less its zeros.
  have moved : digitsValue ((literal k).whole ++ ds) * 10 ^ n = k.natAbs := by
    have parts := Nat.div_add_mod' k.natAbs 1000000
    have power : 10 ^ ds.length * 10 ^ n = 1000000 := by
      rw [← pow_add, ← length, six]
      norm_num
    show digitsValue (Nat.toDigits 10 (k.natAbs / 1000000) ++ ds) * 10 ^ n = k.natAbs
    rw [digitsValue_append, digitsValue_toDigits, Nat.add_mul, Nat.mul_assoc, power, ← count, parts]
  have magnitude : (digitsValue ((literal k).whole ++ ds) : Rat) * 10 ^ (0 - (ds.length : Int))
      = k.natAbs / 1000000 := by
    have power : (10 : Rat) ^ (0 - (ds.length : Int)) = 10 ^ n / 1000000 := by
      rw [zero_sub, zpow_neg, zpow_natCast, eq_div_iff (by norm_num), inv_mul_eq_iff_eq_mul₀
        (by positivity), ← pow_add, ← length, six]
      norm_num
    rw [power, ← mul_div_assoc, ← moved]
    push_cast
    rfl
  show _ * _ * (10 : Rat) ^ (0 - (ds.length : Int)) = _
  rw [mul_assoc, magnitude]
  rcases lt_or_ge k 0 with negative | positive
  · have sign : (literal k).negative = true := decide_eq_true negative
    have abs : (k.natAbs : Rat) = -k := by rw [Nat.cast_natAbs, abs_of_neg negative, Int.cast_neg]
    rw [sign, if_pos rfl, abs]
    ring
  · have sign : (literal k).negative = false := decide_eq_false (not_lt.mpr positive)
    have abs : (k.natAbs : Rat) = k := by rw [Nat.cast_natAbs, abs_of_nonneg positive]
    rw [sign, if_neg (by decide), abs, one_mul]

theorem literal_isPlain (k : Int) : (literal k).IsPlain := by
  obtain ⟨-, -, last⟩ := dropZeros_spec (sixDigits (k.natAbs % 1000000))
  have places := literal_places k
  have part := dropZeros_sublist (sixDigits (k.natAbs % 1000000))
  refine ⟨⟨allDigits_toDigits _, ?_, ?_⟩, rfl, ?_, ?_, ?_⟩
  · rw [places]
    exact (allDigits_sixDigits _).sublist part
  · have front : (Nat.toDigits 10 (k.natAbs / 1000000)).length = 1
        ∨ (Nat.toDigits 10 (k.natAbs / 1000000)).head? ≠ some '0' := by
      rcases Nat.eq_zero_or_pos (k.natAbs / 1000000) with zero | positive
      · rw [zero]
        exact .inl rfl
      · exact .inr (head?_toDigits positive)
    have behind : (literal k).places ≠ some [] := by
      show (if _ then none else some _ : Option (List Char)) ≠ _
      split
      · simp
      · rename_i some
        simpa [List.isEmpty_iff] using some
    simp only [Literal.IsStrict, decide_eq_true_eq, Bool.decide_and, Bool.and_eq_true]
    exact ⟨Nat.toDigits_ne_nil, front, behind⟩
  · rw [places]
    exact part.length_le
  · rw [places]
    exact last
  · intro sign
    rw [value_literal]
    have negative : k < 0 := of_decide_eq_true sign
    have : (k : Rat) ≠ 0 := by exact_mod_cast negative.ne
    positivity

/-- **The text of a numeral is a plain decimal.** -/
theorem text_spells (k : Int) : Spells (⟨some k⟩ : Numeral).text (k / 1000000) :=
  ⟨literal k, literal_isPlain k, spelling_literal k, value_literal k⟩

theorem text_inj {j k : Int} : (⟨some j⟩ : Numeral).text = (⟨some k⟩ : Numeral).text ↔ j = k := by
  constructor
  · intro same
    have value := (text_spells j).unique (same ▸ text_spells k)
    rw [div_left_inj' (by norm_num)] at value
    exact_mod_cast value
  · rintro rfl
    rfl

/-- A whole number keeps all its digits, and has none behind the point. -/
theorem text_whole (n : Int) : (⟨some (n * 1000000)⟩ : Numeral).text = toString n := by
  have count : (n * 1000000).natAbs = n.natAbs * 1000000 := by rw [Int.natAbs_mul]; rfl
  have sign : n * 1000000 < 0 ↔ n < 0 := by omega
  have digits : magnitudeText (n * 1000000).natAbs = n.natAbs.repr := by
    rw [count, magnitudeText, Nat.mul_mod_left, Nat.mul_div_cancel _ (by decide)]
    simp [show dropZeros (sixDigits 0) = [] by decide]
  show (if n * 1000000 < 0 then "-" else "") ++ magnitudeText (n * 1000000).natAbs = toString n
  rw [digits]
  simp only [sign]
  cases n with
  | ofNat n =>
      rw [if_neg (show ¬ Int.ofNat n < 0 from not_lt.mpr (Int.natCast_nonneg n))]
      rfl
  | negSucc n =>
      rw [if_pos (Int.negSucc_lt_zero n)]
      rfl

/-! ## Step by step -/

/-- Zeros are dropped from the end only. -/
theorem dropZeros_append (front : List Char) {c : Char} (other : c ≠ '0') (ds : List Char) :
    dropZeros (front ++ c :: ds) = front ++ c :: dropZeros ds := by
  have kept : (c :: front.reverse).dropWhile (· = '0') = c :: front.reverse :=
    List.dropWhile_cons_of_neg (by simpa using other)
  simp only [dropZeros, List.reverse_append, List.reverse_cons, List.append_assoc,
    List.singleton_append, List.dropWhile_append, kept]
  split
  · rename_i zeros
    simp [List.isEmpty_iff.mp zeros]
  · simp

theorem dropPoint_append (front : List Char) {ds : List Char} (digits : AllDigits ds) :
    dropPoint (front ++ '.' :: ds) = front ++ if ds.isEmpty then [] else '.' :: ds := by
  unfold dropPoint
  cases ds using List.reverseRecOn with
  | nil => simp
  | append_singleton ds d =>
      have digit : d ≠ '.' := by
        rintro rfl
        exact absurd (digits '.' (by simp)) (by decide)
      have last : (front ++ '.' :: (ds ++ [d])).getLast? = some d := by
        rw [← List.cons_append, ← List.append_assoc, List.getLast?_concat]
      rw [last, if_neg (by simpa using digit), if_neg (by simp)]

/-- What is left of six places is the sign and the digits of the count. -/
theorem dropPoint_sixPlaces (x : Float) (q : Rat) :
    dropPoint (dropZeros (sixPlaces x q))
      = (if hasMinus x then ['-'] else []) ++ (magnitudeText
        (roundEven ((if hasMinus x then -q else q) * 1000000)).natAbs).toList := by
  generalize shape : (roundEven ((if hasMinus x then -q else q) * 1000000)).natAbs = n
  have digits : AllDigits (dropZeros (sixDigits (n % 1000000))) :=
    (allDigits_sixDigits _).sublist (dropZeros_sublist _)
  simp only [sixPlaces, shape]
  rw [← List.append_assoc, dropZeros_append _ (by decide), dropPoint_append _ digits,
    List.append_assoc, magnitudeText_toList]

/-- The digits of a count start with a digit. -/
theorem head?_magnitudeText (n : Nat) : (magnitudeText n).toList.head? ≠ some '-' := by
  intro first
  rw [magnitudeText_toList, List.head?_append_of_ne_nil _ Nat.toDigits_ne_nil] at first
  exact absurd (allDigits_toDigits _ '-' (List.mem_of_head? first)) (by decide)

theorem text_natCast (n : Nat) : (⟨some (n : Int)⟩ : Numeral).text = magnitudeText n := by
  show (if (n : Int) < 0 then "-" else "") ++ magnitudeText (n : Int).natAbs = magnitudeText n
  rw [if_neg (by omega), Int.natAbs_natCast, String.empty_append]

/-- Nothing but zero has the digits of zero. -/
theorem magnitudeText_eq_zero_iff {n : Nat} : (magnitudeText n).toList = ['0'] ↔ n = 0 := by
  have zero : magnitudeText 0 = "0" := by decide
  constructor
  · intro digits
    have same : (⟨some (n : Int)⟩ : Numeral).text = (⟨some ((0 : Nat) : Int)⟩ : Numeral).text := by
      rw [text_natCast, text_natCast, zero, ← String.toList_inj, digits]
      rfl
    exact_mod_cast text_inj.mp same
  · rintro rfl
    decide

/-- **Written step by step, a double is written as its numeral.** -/
theorem trimmed_eq_text (x : Float) : trimmed x = (ofFloat x).text := by
  unfold trimmed ofFloat
  cases known : exact x with
  | none => rfl
  | some q =>
      have point : '.' ∈ sixPlaces x q := by simp [sixPlaces]
      obtain ⟨below, above⟩ := sign_of_exact known
      have whole : roundEven 0 = 0 := roundEven_intCast 0
      simp only [if_pos point, dropPoint_sixPlaces, ofRat, text]
      cases minus : hasMinus x with
      | false =>
          have count : 0 ≤ roundEven (q * 1000000) :=
            whole ▸ roundEven_mono (by linarith [above minus])
          have short : (magnitudeText (roundEven (q * 1000000)).natAbs).toList ≠ ['-', '0'] :=
            fun same => head?_magnitudeText _ (congrArg List.head? same)
          simp [short, count.not_gt]
      | true =>
          have mirrored : roundEven (-q * 1000000) = -roundEven (q * 1000000) := by
            rw [← roundEven_neg, neg_mul]
          have count : roundEven (q * 1000000) ≤ 0 :=
            whole ▸ roundEven_mono (by linarith [below minus])
          generalize roundEven (q * 1000000) = k at mirrored count
          simp only [if_true, mirrored, Int.natAbs_neg, List.singleton_append, List.cons.injEq,
            true_and, magnitudeText_eq_zero_iff, Int.natAbs_eq_zero]
          rcases count.lt_or_eq with negative | rfl
          · rw [if_neg negative.ne, if_pos negative]
            simp
          · decide

end Numeral

open Numeral in
/-- **The numerals of doubles are canonical.**  Every finite double is written as a plain
decimal whose value is the nearest multiple of a millionth, a half going to the even one; so two
doubles are written alike exactly if they round to one multiple, what is written keeps the
order of the doubles, and a whole number keeps all its digits.  It is what trimming the six
places of a double leaves of them. -/
theorem numerals_plain {x y : Float} {p q : Rat} (hx : exact x = some p) (hy : exact y = some q) :
    (∃ k : Int, NearestEven (p * 1000000) k ∧ Spells (ofFloat x).text (k / 1000000)
        ∧ |k / 1000000 - p| ≤ 5 / 10000000)
      ∧ (∀ j k : Int, NearestEven (p * 1000000) j → NearestEven (q * 1000000) k →
          ((ofFloat x).text = (ofFloat y).text ↔ j = k))
      ∧ (∀ v w : Rat, Spells (ofFloat x).text v → Spells (ofFloat y).text w → p ≤ q → v ≤ w)
      ∧ (∀ n : Int, p = n → (ofFloat x).text = toString n)
      ∧ trimmed x = (ofFloat x).text := by
  rw [trimmed_eq_text, ofFloat_of_exact hx, ofFloat_of_exact hy]
  refine ⟨⟨roundEven (p * 1000000), nearestEven_roundEven _, text_spells _, ?_⟩, ?_, ?_, ?_, rfl⟩
  · have near := (nearestEven_roundEven (p * 1000000)).1
    have scaled : (roundEven (p * 1000000) : Rat) / 1000000 - p
        = (roundEven (p * 1000000) - p * 1000000) / 1000000 := by ring
    rw [abs_sub_comm] at near
    rw [scaled, abs_div, abs_of_pos (by norm_num : (0 : Rat) < 1000000), div_le_iff₀ (by norm_num)]
    linarith
  · intro j k first second
    rw [first.eq_roundEven, second.eq_roundEven]
    exact text_inj
  · intro v w first second le
    rw [first.unique (text_spells _), second.unique (text_spells _)]
    exact value_ofRat_mono le
  · intro n whole
    have count : p * 1000000 = ((n * 1000000 : Int) : Rat) := by
      rw [whole]
      push_cast
      ring
    rw [ofRat, count, roundEven_intCast]
    exact text_whole n

/-- A carry through all six places, beside a number that keeps its zeros. -/
theorem carry_plain :
    exact 0.9999999 = some (9007198354021067 / 2 ^ 53) ∧ exact 1200.0 = some 1200
      ∧ (∃ k : Int, NearestEven (9007198354021067 / 2 ^ 53 * 1000000) k
          ∧ Spells (Numeral.ofFloat 0.9999999).text (k / 1000000)
          ∧ |(k / 1000000 : Rat) - 9007198354021067 / 2 ^ 53| ≤ 5 / 10000000)
      ∧ (Numeral.ofFloat 1200.0).text = "1200"
      ∧ Numeral.trimmed 0.9999999 = (Numeral.ofFloat 0.9999999).text := by
  have x : exact 0.9999999 = some (9007198354021067 / 2 ^ 53) := by
    show some (signedBinary .positive 9007198354021067 (-53)) = _
    norm_num [signedBinary]
  have y : exact 1200.0 = some 1200 := by decide +kernel
  obtain ⟨spelled, -, -, -, steps⟩ := numerals_plain x y
  obtain ⟨-, -, -, whole, -⟩ := numerals_plain y x
  exact ⟨x, y, spelled, whole 1200 rfl, steps⟩

end Montage
