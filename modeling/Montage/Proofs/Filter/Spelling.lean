/-
# Montage.Proofs.Filter.Spelling -- every filter this library writes can be read back

Nothing is escaped when filters are written, so the values themselves must stay clear of
the syntax.  They do: numerals, counts and formulas are spelled with letters, digits,
signs, points, parentheses and commas, and of these only the comma separates anything.
It is what puts a value between quotes (`Arg.isEnclosed`).
-/
import Montage.Filter.Step
import Montage.Proofs.Filter.Reading
import Montage.Proofs.Filter.Wiring

namespace Montage

set_option autoImplicit false

open Reader (LegibleLabel Plain syntaxMarks)

namespace Reader

instance (s : String) : Decidable (Plain s) :=
  decidable_of_iff ((s.toList.all fun c => c ∉ syntaxMarks) = true) (by simp [Plain])

instance (l : String) : Decidable (LegibleLabel l) :=
  decidable_of_iff ((l.toList.all fun c => c ∉ ['\x27', ';', ']']) = true) (by simp [LegibleLabel])

/-- A text in which the syntax acts on commas at most. -/
def Clear (s : String) : Prop := ∀ c ∈ s.toList, c = ',' ∨ c ∉ syntaxMarks

instance (s : String) : Decidable (Clear s) :=
  decidable_of_iff ((s.toList.all fun c => c = ',' ∨ c ∉ syntaxMarks) = true) (by simp [Clear])

theorem not_mem_syntaxMarks_of_isDigit {c : Char} (digit : c.isDigit = true) :
    c ∉ syntaxMarks := by
  have none : (syntaxMarks.all fun c => !c.isDigit) = true := by decide
  intro member
  simpa [digit] using List.all_eq_true.mp none c member

theorem Clear.append {a b : String} (first : Clear a) (second : Clear b) : Clear (a ++ b) := by
  intro c member
  rcases (by simpa using member : c ∈ a.toList ∨ c ∈ b.toList) with here | there
  · exact first c here
  · exact second c there

theorem clear_of_isDigit {cs : List Char} (digits : ∀ c ∈ cs, c.isDigit = true) :
    Clear (String.ofList cs) := by
  intro c member
  exact .inr (not_mem_syntaxMarks_of_isDigit (digits c (by simpa using member)))

theorem isDigit_of_mem_toString {n : Nat} {c : Char} (member : c ∈ (toString n).toList) :
    c.isDigit = true := by
  have digits : (toString n).toList = Nat.toDigits 10 n := Nat.toList_repr
  rw [digits] at member
  exact Nat.isDigit_of_mem_toDigits (by decide) (by decide) member

theorem not_mem_toString {c : Char} (other : c.isDigit = false) (n : Nat) :
    c ∉ (toString n).toList := by
  intro member
  simp [isDigit_of_mem_toString member] at other

theorem clear_toString (n : Nat) : Clear (toString n) :=
  fun _ member => .inr (not_mem_syntaxMarks_of_isDigit (isDigit_of_mem_toString member))

end Reader

open Reader (Clear clear_toString not_mem_toString)

/-! ## Values -/

theorem Numeral.clear_text (n : Numeral) : Clear n.text := by
  have places (k : Nat) : Clear (String.ofList (dropZeros (sixDigits k))) := by
    refine Reader.clear_of_isDigit fun c member => ?_
    have kept : c ∈ sixDigits k := by
      have kept := (List.dropWhile_sublist _).subset (List.mem_reverse.mp member)
      exact List.mem_reverse.mp kept
    obtain ⟨m, -, rfl⟩ := List.mem_map.mp kept
    have digit : ∀ d < 10, (Nat.digitChar d).isDigit = true := by decide
    exact digit _ (Nat.mod_lt _ (by decide))
  have magnitude (k : Nat) : Clear (magnitudeText k) := by
    unfold magnitudeText
    refine (clear_toString _).append ?_
    split
    · decide
    · exact Clear.append (by decide) (places _)
  unfold text
  split
  · decide
  · refine Clear.append ?_ (magnitude _)
    split <;> decide

theorem Expr.clear_text (e : Expr) : Clear e.text := by
  induction e with
  | num n => exact n.clear_text
  | nat n => exact clear_toString n
  | var v => cases v <;> decide
  | add a b first second => exact (first.append (by decide)).append second
  | sub a b first second => exact (first.append (by decide)).append second
  | mul a b first second => exact (first.append (by decide)).append second
  | div a b first second => exact (first.append (by decide)).append second
  | least a b first second =>
      exact (((Clear.append (by decide) first).append (by decide)).append second).append (by decide)
  | group a inner => exact (Clear.append (by decide) inner).append (by decide)
  | sine a inner => exact (Clear.append (by decide) inner).append (by decide)
  | whole a inner => exact (Clear.append (by decide) inner).append (by decide)

theorem Canvas.clear_token (c : Canvas) : Clear c.token :=
  ((clear_toString _).append (by decide)).append (clear_toString _)

theorem TransitionKind.clear_name (k : TransitionKind) : Clear k.name := by
  cases k <;> decide

/-! ## Filters -/

/-- A value that is clear of the syntax is quoted where it has to be. -/
theorem Arg.legible_of_clear {a : Arg} (key : ∀ k, a.key = some k → Plain k)
    (clear : Clear a.value) : a.Legible where
  key := key
  noQuote member := by
    rcases clear _ member with comma | plain
    · exact absurd comma (by decide)
    · exact plain (by decide)
  value outside := by
    have noComma : ',' ∉ a.value.toList := by
      simp only [isEnclosed, decide_eq_false_iff_not, not_or] at outside
      exact outside.2
    intro c member
    rcases clear c member with rfl | plain
    · exact absurd member noComma
    · exact plain

namespace Filter

variable {f : Filter} {key value : String}

theorem legible_mk {name : String} (named : name ≠ "") (plain : Plain name) :
    (Filter.mk name []).Legible :=
  ⟨named, plain, by simp⟩

theorem Legible.append (legible : f.Legible) {a : Arg} (arg : a.Legible) :
    Legible { f with args := f.args ++ [a] } where
  named := legible.named
  name := legible.name
  args b member := by
    rcases (by simpa using member : b ∈ f.args ∨ b = a) with old | rfl
    · exact legible.args b old
    · exact arg

theorem Legible.arg (legible : f.Legible) (plain : Plain key) (clear : Clear value) :
    (f.arg key value).Legible :=
  legible.append (Arg.legible_of_clear (by simpa using plain) clear)

theorem Legible.formula (legible : f.Legible) (plain : Plain key) (clear : Clear value) :
    (f.formula key value).Legible :=
  legible.append (Arg.legible_of_clear (by simpa using plain) clear)

theorem Legible.pos (legible : f.Legible) (clear : Clear value) : (f.pos value).Legible :=
  legible.append (Arg.legible_of_clear (by simp) clear)

end Filter

namespace Step

theorem cropFilter_legible (size : Canvas) (window : Window) :
    (cropFilter size window).Legible := by
  have start : (Filter.mk "crop" []).Legible := Filter.legible_mk (by decide) (by decide)
  have sized := (start.pos (clear_toString size.width)).pos (clear_toString size.height)
  cases window with
  | centred => exact sized
  | placed x y => exact (sized.pos x.clear_text).pos y.clear_text
  | named x y quoted =>
      cases quoted with
      | true => exact (sized.formula (by decide) x.clear_text).arg (by decide) y.clear_text
      | false => exact (sized.arg (by decide) x.clear_text).arg (by decide) y.clear_text

/-- **Whatever a step does, its filter can be read back.** -/
theorem filter_legible (s : Step) : s.filter.Legible := by
  have start (name : String) (named : name ≠ "") (plain : Plain name) :=
    Filter.legible_mk named plain
  cases s with
  | zoompan z x y held size rate =>
      exact (((((start "zoompan" (by decide) (by decide)).formula (by decide) z.clear_text).formula
        (by decide) x.clear_text).formula (by decide) y.clear_text).arg (by decide)
        (clear_toString held) |>.arg (by decide) size.clear_token).arg (by decide)
        (clear_toString rate)
  | resize width height =>
      exact ((start "scale" (by decide) (by decide)).pos (clear_toString width)).pos
        (clear_toString height)
  | fit size =>
      exact (((start "scale" (by decide) (by decide)).pos (clear_toString _)).pos
        (clear_toString _)).arg (by decide) (by decide)
  | stretch width height =>
      exact (((start "scale" (by decide) (by decide)).formula (by decide) width.clear_text).formula
        (by decide) height.clear_text).arg (by decide) (by decide)
  | evenOut =>
      exact ((start "scale" (by decide) (by decide)).pos (Expr.clear_text _)).pos
        (Expr.clear_text _)
  | pad size =>
      exact ((((start "pad" (by decide) (by decide)).pos (clear_toString _)).pos
        (clear_toString _)).pos (Expr.clear_text _)).pos (Expr.clear_text _)
  | crop size window => exact cropFilter_legible size window
  | setRate perSecond => exact (start "fps" (by decide) (by decide)).pos (clear_toString _)
  | again times =>
      exact (((start "loop" (by decide) (by decide)).arg (by decide) (clear_toString _)).arg
        (by decide) (by decide)).arg (by decide) (by decide)
  | stamp rate =>
      exact (start "setpts" (by decide) (by decide)).pos
        ((Clear.append (by decide) (clear_toString _)).append (by decide))
  | hold length =>
      exact ((start "tpad" (by decide) (by decide)).arg (by decide) (by decide)).arg (by decide)
        length.clear_text
  | trim length => exact (start "trim" (by decide) (by decide)).arg (by decide) length.clear_text
  | restart => exact (start "setpts" (by decide) (by decide)).pos (by decide)
  | square => exact (start "setsar" (by decide) (by decide)).pos (by decide)
  | join count =>
      exact (((start "concat" (by decide) (by decide)).arg (by decide) (clear_toString _)).arg
        (by decide) (by decide)).arg (by decide) (by decide)
  | crossfade kind length offset =>
      exact (((start "xfade" (by decide) (by decide)).arg (by decide) kind.clear_name).arg
        (by decide) length.clear_text).arg (by decide) offset.clear_text
  | trimSound length =>
      exact (start "atrim" (by decide) (by decide)).arg (by decide) length.clear_text
  | restartSound => exact (start "asetpts" (by decide) (by decide)).pos (by decide)

end Step

theorem Chain.ofSteps_legible (steps : List Step) : (Chain.ofSteps steps).Legible := by
  intro f member
  obtain ⟨s, -, rfl⟩ := List.mem_map.mp member
  exact s.filter_legible

theorem Pad.label_legible (p : Pad) : LegibleLabel p.label := by
  have digits (n : Nat) : ∀ c ∈ (toString n).toList, c ∉ ['\x27', ';', ']'] := by
    intro c member other
    simp only [List.mem_cons, List.not_mem_nil, or_false] at other
    rcases other with rfl | rfl | rfl <;> exact not_mem_toString (by decide) n member
  cases p with
  | picture k | sound k =>
      intro c member
      rcases (by simpa [label] using member : c ∈ (toString k).toList ∨ _) with count | rfl | rfl
      · exact digits k c count
      · decide
      · decide
  | segment k | joined k =>
      intro c member
      rcases (by simpa [label] using member : _ ∨ c ∈ (toString k).toList) with rfl | count
      · decide
      · exact digits k c count
  | videoOut | audioOut =>
      unfold label
      decide

end Montage
