/-
# Montage.Proofs.Text.Utf8 -- a text is shown as itself

The bytes of a character are shown as the character, wherever they stand, so those of a text
are shown as the text (`shown_encode`).

No line feed is shown that is not a byte of its own: every other character takes more than one byte,
and its number is too large for one (`Begun.Large`).
-/
import Mathlib
import Montage.Text.Utf8

namespace Montage.Utf8

set_option autoImplicit false

/-! ## Characters that have been begun -/

/-- What is shown once a character has come so far. -/
def Begun.shownWith (c : Begun) (rest : List UInt8) : List Char :=
  if c.owed = 0 then Char.ofNat c.number :: shownFrom none rest else shownFrom (some c) rest

theorem Begun.shownWith_eq (c : Begun) (rest : List UInt8) :
    c.settle.1 ++ shownFrom c.settle.2 rest = c.shownWith rest := by
  unfold settle shownWith
  split <;> rfl

variable {b : UInt8} {c d : Begun}

theorem shownFrom_none_of_begin? (begins : begin? b.toNat = some c) (rest : List UInt8) :
    shownFrom none (b :: rest) = c.shownWith rest := by
  rw [shownFrom, step, start, begins]
  exact c.shownWith_eq rest

theorem shownWith_of_next? (owes : c.owed ≠ 0) (next : c.next? b.toNat = some d)
    (rest : List UInt8) : c.shownWith (b :: rest) = d.shownWith rest := by
  rw [Begun.shownWith, if_neg owes, shownFrom, step, next]
  exact d.shownWith_eq rest

/-- The first of two bytes. -/
theorem begin?_two {n : Nat} (least : 2 ≤ n) (most : n < 32) :
    begin? (UInt8.ofNat (n + 192)).toNat = some ⟨1, 0x80, 0xBF, n⟩ := by
  have each : ∀ n < 32, 2 ≤ n →
      begin? (UInt8.ofNat (n + 192)).toNat = some ⟨1, 0x80, 0xBF, n⟩ := by decide
  exact each n most least

/-- The first of three bytes: a second one excludes shorter characters and surrogates. -/
theorem begin?_three {n : Nat} (most : n < 16) :
    begin? (UInt8.ofNat (n + 224)).toNat
      = some ⟨2, if n = 0 then 0xA0 else 0x80, if n = 13 then 0x9F else 0xBF, n⟩ := by
  have each : ∀ n < 16, begin? (UInt8.ofNat (n + 224)).toNat
      = some ⟨2, if n = 0 then 0xA0 else 0x80, if n = 13 then 0x9F else 0xBF, n⟩ := by decide
  exact each n most

/-- The first of four bytes: a second one excludes shorter characters and numbers without one. -/
theorem begin?_four {n : Nat} (most : n < 5) :
    begin? (UInt8.ofNat (n + 240)).toNat
      = some ⟨3, if n = 0 then 0x90 else 0x80, if n = 4 then 0x8F else 0xBF, n⟩ := by
  have each : ∀ n < 5, begin? (UInt8.ofNat (n + 240)).toNat
      = some ⟨3, if n = 0 then 0x90 else 0x80, if n = 4 then 0x8F else 0xBF, n⟩ := by decide
  exact each n most

/-- A byte behind the first one has the next six bits of the number. -/
theorem shownWith_tail {owed least most number n : Nat} (low : least ≤ n % 64 + 128)
    (high : n % 64 + 128 ≤ most) (rest : List UInt8) :
    (Begun.mk (owed + 1) least most number).shownWith (UInt8.ofNat (n % 64 + 128) :: rest)
      = (Begun.mk owed 0x80 0xBF (64 * number + n % 64)).shownWith rest := by
  refine shownWith_of_next? (Nat.succ_ne_zero _) ?_ rest
  rw [UInt8.toNat_ofNat_of_lt' (show n % 64 + 128 < 256 by omega), Begun.next?,
    if_pos ⟨low, high⟩, Nat.add_sub_cancel, Nat.add_sub_cancel]

/-! ## Texts -/

/-- The bytes of a character are shown as the character. -/
theorem shownFrom_encodeChar (c : Char) (rest : List UInt8) :
    shownFrom none (String.utf8EncodeChar c ++ rest) = c :: shownFrom none rest := by
  have valid : c.toNat < 0xD800 ∨ 0xDFFF < c.toNat ∧ c.toNat < 0x110000 := c.valid
  have ended {n least most : Nat} (whole : n = c.toNat) :
      (Begun.mk 0 least most n).shownWith rest = c :: shownFrom none rest := by
    rw [Begun.shownWith, if_pos rfl, whole, Char.ofNat_toNat]
  unfold String.utf8EncodeChar
  rw [show c.val.toNat = c.toNat from rfl]
  generalize c.toNat = v at valid ended
  dsimp only
  split
  · have first : begin? (UInt8.ofNat v).toNat = some ⟨0, 0x80, 0xBF, v⟩ := by
      rw [UInt8.toNat_ofNat_of_lt' (show v < 256 by omega)]
      exact if_pos (by omega)
    exact (shownFrom_none_of_begin? first rest).trans (ended rfl)
  split
  · have lead : v / 64 % 32 = v / 64 := by omega
    rw [lead]
    refine (shownFrom_none_of_begin? (begin?_two (by omega) (by omega)) _).trans ?_
    refine (shownWith_tail (by omega) (by omega) _).trans ?_
    exact ended (by omega)
  split
  · have lead : v / 4096 % 16 = v / 4096 := by omega
    rw [lead]
    refine (shownFrom_none_of_begin? (begin?_three (by omega)) _).trans ?_
    refine (shownWith_tail (by split <;> omega) (by split <;> omega) _).trans ?_
    refine (shownWith_tail (by omega) (by omega) _).trans ?_
    exact ended (by omega)
  · have lead : v / 262144 % 8 = v / 262144 := by omega
    rw [lead]
    refine (shownFrom_none_of_begin? (begin?_four (by omega)) _).trans ?_
    refine (shownWith_tail (by split <;> omega) (by split <;> omega) _).trans ?_
    refine (shownWith_tail (by omega) (by omega) _).trans ?_
    refine (shownWith_tail (by omega) (by omega) _).trans ?_
    exact ended (by omega)

theorem shownFrom_encodeChars (cs : List Char) :
    shownFrom none (cs.flatMap String.utf8EncodeChar) = cs := by
  induction cs with
  | nil => rfl
  | cons c cs ih => rw [List.flatMap_cons, shownFrom_encodeChar, ih]

/-- **The bytes of a text are shown as the text.** -/
@[simp]
theorem shown_encode (s : String) : shown (encode s) = s := by
  rw [shown, encode, shownFrom_encodeChars, String.ofList_toList]

/-! ## Line feeds -/

/-- However a character goes on, its number is too large for one byte. -/
structure Begun.Large (c : Begun) : Prop where
  owes : c.owed ≠ 0
  tail : 128 ≤ c.least
  number : 128 ≤ (64 * c.number + (c.least - 128)) * 64 ^ (c.owed - 1)

/-- What is shown is no line feed, and a character that has been begun is large. -/
def Free (seen : List Char × Option Begun) : Prop := '\n' ∉ seen.1 ∧ ∀ c ∈ seen.2, c.Large

theorem ofNat_ne_lineFeed {n : Nat} (other : n ≠ 10) : Char.ofNat n ≠ '\n' := by
  intro same
  have number := congrArg Char.toNat same
  rw [Char.toNat_ofNat] at number
  split at number
  · exact other number
  · cases number

theorem free_settle (large : c.owed = 0 → c.number ≠ 10) (more : c.owed ≠ 0 → c.Large) :
    Free c.settle := by
  unfold Begun.settle
  split
  · rename_i whole
    exact ⟨fun member => ofNat_ne_lineFeed (large whole) (List.mem_singleton.mp member).symm, nofun⟩
  · rename_i owes
    refine ⟨nofun, ?_⟩
    rintro d ⟨⟩
    exact more owes

/-- A byte is a character of its own, or begins one that is large. -/
theorem large_of_begin? {n : Nat} (begins : begin? n = some c) :
    c.owed = 0 ∧ c.number = n ∨ c.Large := by
  unfold begin? at begins
  split_ifs at begins <;> obtain rfl := Option.some.inj begins
  · exact .inl ⟨rfl, rfl⟩
  all_goals
    refine .inr ⟨Nat.succ_ne_zero _, by simp, ?_⟩
    norm_num
    omega

theorem free_start {n : Nat} (other : n ≠ 10) : Free (start n) := by
  unfold start
  split
  · rename_i c begins
    rcases large_of_begin? begins with ⟨whole, same⟩ | large
    · exact free_settle (fun _ => same ▸ other) (absurd whole)
    · exact free_settle (fun whole => absurd whole large.owes) fun _ => large
  · exact ⟨by decide, nofun⟩

theorem free_next (large : c.Large) {n : Nat} (next : c.next? n = some d) : Free d.settle := by
  obtain ⟨owes, tail, number⟩ := large
  unfold Begun.next? at next
  split at next
  · rename_i bounds
    obtain rfl := Option.some.inj next
    obtain ⟨low, -⟩ := bounds
    -- The bound on the number is a bound on what it will be, whatever byte has come.
    have reached : 128 ≤ (64 * c.number + (n - 128)) * 64 ^ (c.owed - 1) :=
      number.trans (Nat.mul_le_mul_right _ (by omega))
    refine free_settle (fun last => ?_) fun more => ⟨more, le_rfl, ?_⟩
    · have last : c.owed - 1 = 0 := last
      rw [last, pow_zero, mul_one] at reached
      show 64 * c.number + (n - 128) ≠ 10
      omega
    · have more : c.owed - 1 ≠ 0 := more
      obtain ⟨left, owed⟩ := Nat.exists_eq_succ_of_ne_zero more
      rw [owed, Nat.pow_succ'] at reached
      show 128 ≤ (64 * (64 * c.number + (n - 128)) + (128 - 128)) * 64 ^ (c.owed - 1 - 1)
      rw [owed, Nat.sub_self, Nat.add_zero, Nat.succ_sub_one]
      linarith
  · cases next

/-- One byte that is no line feed shows none. -/
theorem free_step {begun : Option Begun} (large : ∀ c ∈ begun, c.Large) {n : Nat}
    (other : n ≠ 10) : Free (step begun n) := by
  cases begun with
  | none => exact free_start other
  | some c =>
      unfold step
      cases next : c.next? n with
      | some d => simpa [next] using free_next (large c rfl) next
      | none =>
          obtain ⟨shown, more⟩ := free_start other
          have mark : '\n' ≠ replacement := by decide
          simpa [next, Free, mark] using And.intro shown more

theorem not_mem_shownFrom {bytes : List UInt8} (other : 10 ∉ bytes) {begun : Option Begun}
    (large : ∀ c ∈ begun, c.Large) : '\n' ∉ shownFrom begun bytes := by
  induction bytes generalizing begun with
  | nil =>
      rw [shownFrom]
      split <;> decide
  | cons b rest ih =>
      have others : 10 ∉ rest := List.not_mem_of_not_mem_cons other
      have byte : b.toNat ≠ 10 := fun same =>
        List.ne_of_not_mem_cons other (UInt8.toNat_inj.mp same).symm
      obtain ⟨shown, more⟩ := free_step large byte
      rw [shownFrom, List.mem_append]
      exact not_or.mpr ⟨shown, ih others more⟩

/-- **No line feed is shown of bytes without one.** -/
theorem not_mem_shown {bytes : List UInt8} (other : 10 ∉ bytes) : '\n' ∉ (shown bytes).toList := by
  rw [shown, String.toList_ofList]
  refine not_mem_shownFrom other ?_
  intro c begun
  cases begun

end Montage.Utf8
