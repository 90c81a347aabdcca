/-
# Montage.Proofs.Filter.Formula -- what stands in the formulas of steps

A step is written with formulas, with computed numbers, or with both.  Here they are read off
the step, so that something can be said of everything that a fragment is written with at once.
Each formula is the text of an argument of the filter that spells the step, so the chain of some
steps `Writes` all of theirs.

A name in a formula may be divided, in the text, by what is written behind it and a slash
(`Expr.divisorsOf`).  Where every occurrence of the frame number is divided by one count, the
formula counts to it.

A number is written as zero exactly if it is zero once it is rounded to six places, or if it
has no value.
-/
import Montage.Filter.Step
import Montage.Proofs.Filter.Wiring
import Montage.Proofs.Number.Plain

namespace Montage

set_option autoImplicit false

/-! ## Formulas of steps -/

/-- The formulas that a window is written with. -/
def Window.formulas : Window → List Expr
  | centred => []
  | placed x y | named x y _ => [x, y]

namespace Step

/-- The formulas that a step is written with. -/
def formulas : Step → List Expr
  | zoompan z x y _ _ _ => [z, x, y]
  | stretch width height => [width, height]
  | evenOut => [evenSide .iw, evenSide .ih]
  | pad _ => [halfGap .ow .iw, halfGap .oh .ih]
  | crop _ window => window.formulas
  | _ => []

/-- The computed numbers that a step is written with. -/
def numerals (s : Step) : List Numeral :=
  s.formulas.flatMap Expr.numerals ++ match s with
    | hold length | trim length | trimSound length => [length]
    | crossfade _ length offset => [length, offset]
    | _ => []

/-- Every formula of a step is written out in one of its arguments. -/
theorem formulas_written (s : Step) : ∀ e ∈ s.formulas, ∃ a ∈ s.filter.args, a.value = e.text := by
  intro e member
  cases s with
  | crop size window =>
      cases window with
      | centred => cases member
      | placed x y =>
          rcases (by simpa [formulas, Window.formulas] using member : e = x ∨ e = y) with rfl | rfl
            <;> simp [filter, cropFilter, Filter.pos]
      | named x y quoted =>
          rcases (by simpa [formulas, Window.formulas] using member : e = x ∨ e = y) with rfl | rfl
            <;> cases quoted <;> simp [filter, cropFilter, Filter.pos, Filter.arg, Filter.formula]
  | zoompan z x y held size rate =>
      rcases (by simpa [formulas] using member : e = z ∨ e = x ∨ e = y) with rfl | rfl | rfl
        <;> simp [filter, Filter.formula, Filter.arg]
  | stretch width height =>
      rcases (by simpa [formulas] using member : e = width ∨ e = height) with rfl | rfl
        <;> simp [filter, Filter.formula, Filter.arg]
  | evenOut =>
      rcases (by simpa [formulas] using member : e = evenSide .iw ∨ e = evenSide .ih) with rfl | rfl
        <;> simp [filter, Filter.pos]
  | pad size =>
      rcases (by simpa [formulas] using member : e = halfGap .ow .iw ∨ e = halfGap .oh .ih)
        with rfl | rfl <;> simp [filter, Filter.pos]
  | _ => cases member

end Step

/-- A formula is the value of an argument in a chain. -/
def Chain.Writes (c : Chain) (e : Expr) : Prop := ∃ f ∈ c, ∃ a ∈ f.args, a.value = e.text

theorem Chain.writes_formulas {steps : List Step} :
    ∀ e ∈ steps.flatMap Step.formulas, (Chain.ofSteps steps).Writes e := by
  intro e member
  obtain ⟨s, step, formula⟩ := List.mem_flatMap.mp member
  exact ⟨s.filter, List.mem_map_of_mem step, s.formulas_written e formula⟩

/-! ## Numbers that are written as zero -/

namespace Numeral

/-- No two counts have one text, so only zero has the text of zero. -/
theorem text_eq_zero_iff (n : Numeral) : n.text = "0" ↔ n.value = 0 := by
  rcases n with ⟨_ | k⟩
  · simp [text, value]
  · have nothing : (⟨some k⟩ : Numeral).value = 0 ↔ k = 0 := by simp [value]
    have zero : (⟨some 0⟩ : Numeral).text = "0" := by decide
    rw [nothing, ← zero]
    exact text_inj

end Numeral

namespace Expr

/-- Whether a formula is nothing but a number that is written as zero. -/
def isZero : Expr → Bool
  | num n => n.text = "0"
  | nat n => toString n = "0"
  | _ => false

theorem isZero_num_iff (n : Numeral) : (num n).isZero = true ↔ n.value = 0 := by
  rw [isZero, decide_eq_true_eq, n.text_eq_zero_iff]

theorem isZero_nat_iff (n : Nat) : (nat n).isZero = true ↔ n = 0 := by
  rw [isZero, decide_eq_true_eq]
  exact ⟨fun same => repr_injective same, fun zero => zero ▸ rfl⟩

end Expr

/-! ## Names that are divided -/

namespace Expr

/-- The name that the text of a formula ends with, if it ends with one. -/
def lastVar? : Expr → Option Var
  | var v => some v
  | add _ b | sub _ b | mul _ b | div _ b => b.lastVar?
  | num _ | nat _ | group _ | least _ _ | sine _ | whole _ => none

/-- What is written behind a name and a slash. -/
def divisorsOf (v : Var) : Expr → List Expr
  | num _ | nat _ | var _ => []
  | add a b | sub a b | mul a b | least a b => a.divisorsOf v ++ b.divisorsOf v
  | div a b => a.divisorsOf v ++ (if a.lastVar? = some v then [b] else []) ++ b.divisorsOf v
  | group a | sine a | whole a => a.divisorsOf v

/-- How often a name stands in a formula. -/
def occurrences (v : Var) : Expr → Nat
  | num _ | nat _ => 0
  | var w => if w = v then 1 else 0
  | add a b | sub a b | mul a b | div a b | least a b => a.occurrences v + b.occurrences v
  | group a | sine a | whole a => a.occurrences v

/-- Wherever the frame number stands in a formula, it is divided by a count. -/
def CountsTo (n : Nat) (e : Expr) : Prop :=
  e.divisorsOf .on = List.replicate (e.occurrences .on) (.nat n)

end Expr

end Montage
