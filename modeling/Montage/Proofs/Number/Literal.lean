/-
# Montage.Proofs.Number.Literal -- what a literal says, and reading it back

A literal says a rational (`Literal.value`) and has one spelling (`Literal.spelling`): a sign,
the digits before the point, the point and the digits behind it, and the power of ten.  The
strict rule of data files reads the spelling of a strict literal back as that literal, so a
text is the spelling of one strict literal at most.
-/
import Montage.Proofs.Text.Digits

namespace Montage

set_option autoImplicit false

namespace Literal

variable {l : Literal}

/-- The rational that a literal says. -/
def value (l : Literal) : Rat :=
  (if l.negative then -1 else 1) * digitsValue (l.whole ++ l.places.getD [])
    * 10 ^ (l.power.getD 0 - ((l.places.getD []).length : Int))

/-- A literal as it is written, the power of ten behind a small letter. -/
def spelling (l : Literal) : List Char :=
  (if l.negative then ['-'] else []) ++ l.whole ++ l.places.elim [] ('.' :: ·)
    ++ l.power.elim [] (fun p => 'e' :: (toString p).toList)

/-- Nothing but digits where digits belong. -/
structure IsSpelled (l : Literal) : Prop where
  whole : AllDigits l.whole
  places : AllDigits (l.places.getD [])
  strict : l.IsStrict = true

/-! ## Reading the parts -/

/-- Digits are taken up to the first character that is none. -/
theorem takeWhile_digits {ds rest : List Char} (digits : AllDigits ds)
    (stop : ∀ c ∈ rest.head?, c.isDigit = false) :
    (ds ++ rest).takeWhile Char.isDigit = ds ∧ (ds ++ rest).dropWhile Char.isDigit = rest := by
  induction ds with
  | nil => cases rest with
    | nil => exact ⟨rfl, rfl⟩
    | cons c rest =>
        have none : c.isDigit = false := stop c rfl
        simp [none]
  | cons d ds ih =>
      have digit : d.isDigit = true := digits d List.mem_cons_self
      have others := ih fun c member => digits c (List.mem_cons_of_mem d member)
      simpa [digit] using others

theorem signedDigits_toString (p : Int) : signedDigits (toString p).toList = some p := by
  have plain (n : Nat) : AllDigits n.repr.toList := by
    rw [Nat.toList_repr]
    exact allDigits_toDigits n
  have all (n : Nat) : n.repr.toList.all Char.isDigit = true := List.all_eq_true.mpr (plain n)
  have nonempty (n : Nat) : n.repr.toList ≠ [] := by
    rw [Nat.toList_repr]
    exact Nat.toDigits_ne_nil
  have value (n : Nat) : digitsValue n.repr.toList = n := by
    rw [Nat.toList_repr, digitsValue_toDigits]
  cases p with
  | ofNat n =>
      show signedDigits n.repr.toList = some (n : Int)
      have head := plain n
      unfold signedDigits
      split
      · rename_i ds same
        exact absurd (head '+' (same ▸ List.mem_cons_self)) (by decide)
      · rename_i ds same
        exact absurd (head '-' (same ▸ List.mem_cons_self)) (by decide)
      · rw [if_pos ⟨nonempty n, all n⟩, value]
  | negSucc n =>
      have text : (toString (Int.negSucc n)).toList = '-' :: (n + 1).repr.toList := by
        show ("-" ++ (n + 1).repr).toList = _
        simp
      rw [text]
      show (if _ then _ else _) = _
      rw [if_pos ⟨nonempty _, all _⟩, value]
      rfl

/-- What follows the digits before the point is read back. -/
theorem readTail_spelling (spelled : l.IsSpelled) :
    readTail l.negative l.whole
        (l.places.elim [] ('.' :: ·) ++ l.power.elim [] (fun p => 'e' :: (toString p).toList))
      = some l := by
  obtain ⟨negative, whole, places, power⟩ := l
  cases places with
  | none => cases power with
    | none => rfl
    | some p =>
        show Option.map _ (signedDigits (toString p).toList) = _
        rw [signedDigits_toString]
        rfl
  | some ds =>
      have digits : AllDigits ds := spelled.places
      cases power with
      | none =>
          have stop : ∀ c ∈ ([] : List Char).head?, c.isDigit = false := by simp
          have taken := takeWhile_digits digits stop
          simp only [List.append_nil] at taken
          simp [readTail, taken]
      | some p =>
          have stop : ∀ c ∈ ('e' :: (toString p).toList).head?, c.isDigit = false := by simp
          have taken := takeWhile_digits digits stop
          simp only [readTail, Option.elim_some, List.cons_append, taken, true_or, if_true,
            signedDigits_toString, Option.map_some]

/-- The tail does not begin with a digit. -/
theorem head?_tail (l : Literal) (c : Char)
    (first : c ∈ (l.places.elim [] ('.' :: ·)
      ++ l.power.elim [] (fun p => 'e' :: (toString p).toList)).head?) : c.isDigit = false := by
  rcases l with ⟨negative, whole, _ | ds, _ | p⟩
  · simp at first
  all_goals
    obtain rfl := Option.some.inj first
    decide

theorem readUnsigned_spelling (spelled : l.IsSpelled) :
    readUnsigned l.negative (l.whole ++ (l.places.elim [] ('.' :: ·)
      ++ l.power.elim [] (fun p => 'e' :: (toString p).toList))) = some l := by
  obtain ⟨taken, left⟩ := takeWhile_digits spelled.whole l.head?_tail
  rw [readUnsigned, taken, left]
  exact readTail_spelling spelled

/-- **What is spelled is read back.** -/
theorem readStrict_spelling (spelled : l.IsSpelled) : readStrict l.spelling = some l := by
  have kept : Option.filter IsStrict (some l) = some l := by
    rw [Option.filter_some, if_pos spelled.strict]
  rw [spelling, List.append_assoc, List.append_assoc]
  have read := readUnsigned_spelling spelled
  cases sign : l.negative with
  | true =>
      rw [sign] at read
      rw [if_pos rfl, List.singleton_append]
      show Option.filter _ (readUnsigned true _) = _
      rw [read, kept]
  | false =>
      rw [sign] at read
      rw [if_neg (by decide), List.nil_append]
      unfold readStrict
      split
      · -- The first digit is no minus sign.
        rename_i cs same
        have nonempty : l.whole ≠ [] := by
          have strict := spelled.strict
          simp only [IsStrict, decide_eq_true_eq, Bool.decide_and, Bool.and_eq_true] at strict
          exact strict.1
        obtain ⟨d, ds, whole⟩ := List.exists_cons_of_ne_nil nonempty
        rw [whole, List.cons_append, List.cons.injEq] at same
        have digit := spelled.whole d (whole ▸ List.mem_cons_self)
        rw [same.1] at digit
        exact absurd digit (by decide)
      · rw [read, kept]

/-- A text is the spelling of one literal at most. -/
theorem spelling_inj {k : Literal} (hl : l.IsSpelled) (hk : k.IsSpelled)
    (same : l.spelling = k.spelling) : l = k := by
  have read := readStrict_spelling hl
  rw [same, readStrict_spelling hk] at read
  exact (Option.some.inj read).symm

end Literal

end Montage
