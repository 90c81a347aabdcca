/-
# Montage.Proofs.Text.Blank -- pieces of a text, and texts without blanks at their ends

A text is taken apart at a character, and the pieces are free of it.  To put texts together
with that character between them and to take the result apart is to take each of them apart
(`splitOn_intercalate_flatMap`): a text that held the character itself falls into its own
pieces, where it stood.  Trimming leaves a text that neither starts nor ends with a blank.
-/
import Mathlib.Data.List.DropRight
import Montage.Text.Blank

namespace Montage

set_option autoImplicit false

/-! ## Pieces -/

theorem not_mem_of_mem_splitOn {c : Char} {cs piece : List Char} (member : piece ∈ cs.splitOn c) :
    c ∉ piece := by
  rw [List.splitOn_eq_splitOnP] at member
  induction cs generalizing piece with
  | nil => simp_all
  | cons d cs ih =>
      rw [List.splitOnP_cons_eq_if_modifyHead] at member
      split at member
      · rcases List.mem_cons.mp member with rfl | later
        · simp
        · exact ih later
      · rename_i other
        have other : c ≠ d := fun same => other (by simp [same])
        obtain ⟨first, more, pieces⟩ :=
          List.exists_cons_of_ne_nil (List.splitOnP_ne_nil (· == c) cs)
        rw [pieces] at ih member
        rcases List.mem_cons.mp member with rfl | later
        · simp [other, ih (List.mem_cons_self ..)]
        · exact ih (List.mem_cons_of_mem _ later)

/-- Texts that are put together with a character between them come apart as each of them does. -/
theorem splitOn_intercalate_flatMap (c : Char) {texts : List (List Char)} (some : texts ≠ []) :
    ([c].intercalate texts).splitOn c = texts.flatMap (List.splitOn c) := by
  induction texts with
  | nil => exact absurd rfl some
  | cons text rest ih =>
      cases rest with
      | nil => simp
      | cons next rest =>
          rw [List.intercalate_cons_cons, List.append_assoc, List.singleton_append,
            List.splitOn_append_cons_self, ih (by simp)]
          rfl

/-! ## Ends -/

theorem trimChars_eq (cs : List Char) : trimChars cs = (cs.dropWhile isBlank).rdropWhile isBlank :=
  rfl

/-- Nothing is left of a text that holds nothing but blanks. -/
theorem trimChars_eq_nil_iff (cs : List Char) : trimChars cs = [] ↔ ∀ c ∈ cs, isBlank c = true := by
  rw [trimChars_eq, List.rdropWhile_eq_nil_iff]
  constructor
  · intro blank
    -- Were anything left in front, its first character would be no blank.
    have none : cs.dropWhile isBlank = [] := by
      by_contra left
      have visible := List.head_dropWhile_not isBlank left
      rw [blank _ (List.head_mem left)] at visible
      cases visible
    exact List.dropWhile_eq_nil_iff.mp none
  · exact fun blank c member => blank c ((List.dropWhile_suffix isBlank).subset member)

theorem mem_of_mem_trimChars {cs : List Char} {c : Char} (member : c ∈ trimChars cs) : c ∈ cs :=
  (List.dropWhile_suffix isBlank).subset ((List.rdropWhile_prefix isBlank _).subset member)

/-- What is trimmed does not start with a blank. -/
theorem not_isBlank_head {cs : List Char} {c : Char} (first : (trimChars cs).head? = some c) :
    isBlank c = false := by
  obtain ⟨behind, whole⟩ := List.rdropWhile_prefix isBlank (cs.dropWhile isBlank)
  have start : (cs.dropWhile isBlank).head? = some c := by
    rw [← whole, ← trimChars_eq, List.head?_append, first]
    rfl
  have visible := List.head?_dropWhile_not isBlank cs
  rw [start] at visible
  exact visible

/-- What is trimmed does not end with a blank. -/
theorem not_isBlank_getLast {cs : List Char} {c : Char}
    (last : (trimChars cs).getLast? = some c) : isBlank c = false := by
  have nonempty : trimChars cs ≠ [] := by
    intro none
    rw [none] at last
    cases last
  rw [← List.getLast_of_getLast?_eq_some last, ← Bool.not_eq_true]
  exact List.rdropWhile_last_not isBlank (cs.dropWhile isBlank) nonempty

end Montage
