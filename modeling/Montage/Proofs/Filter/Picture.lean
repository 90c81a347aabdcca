/-
# Montage.Proofs.Filter.Picture -- what filters make of the frames that go through them

Streams can be joined if their frames have one size, one rate and pixels of one shape.
`Picture.after` reads all three off the text of a filter, the way an encoder would: a
scale, a crop, a padding and a zoom set the size, a zoom and a change of rate set the
rate, and the shape of pixels is only what was declared last.  What depends on the frame
that comes in counts as unknown.

`Picture.through` says the same of the steps behind the filters, and `after_filter` that
both agree.
-/
import Montage.Number.Literal
import Montage.Proofs.Filter.Spelling

namespace Montage

set_option autoImplicit false

open Reader (isDigit_of_mem_toString not_mem_toString)

/-- What is known of the frames of a stream. -/
structure Picture where
  size : Option Canvas
  /-- Frames a second. -/
  rate : Option Nat
  /-- The shape of a pixel, as filters spell it. -/
  aspect : Option String
  deriving DecidableEq, Repr

/-- The texts between separators. -/
def between (separator : Char) (s : String) : List String :=
  (s.toList.splitOn separator).map String.ofList

/-- The count that digits spell. -/
def count? (s : String) : Option Nat :=
  if s.toList ≠ [] ∧ s.toList.all Char.isDigit then some (digitsValue s.toList) else none

/-- The size that two counts spell; what follows them does not matter. -/
def Canvas.ofTexts? : List String → Option Canvas
  | w :: h :: _ => do return ⟨← count? w, ← count? h⟩
  | _ => none

namespace Filter

/-- The values of the arguments that go by position. -/
def byPosition (f : Filter) : List String := (f.args.filter (·.key = none)).map Arg.value

/-- The size a filter gives to frames, if it gives them one; it is known if it is spelled
by counts alone. -/
def size? (f : Filter) : Option (Option Canvas) :=
  if f.name = "scale" then
    some (if f.args.length = 2 then Canvas.ofTexts? f.byPosition else none)
  else if f.name = "crop" ∨ f.name = "pad" then some (Canvas.ofTexts? f.byPosition)
  else if f.name = "zoompan" then some (Canvas.ofTexts? (((f.get? "s").map (between 'x')).getD []))
  else none

/-- The texts that a filter spells the rate of a stream with. -/
def rateTexts (f : Filter) : List String :=
  if f.name = "zoompan" then (f.get? "fps").toList
  else if f.name = "fps" then f.byPosition
  else if f.name = "setpts" then
    match f.byPosition.map (between '/') with
    | [["N", rate, "TB"]] => [rate]
    | _ => []
  else []

/-- The rate a filter gives to frames, if it gives them one; stamps do not. -/
def rate? (f : Filter) : Option (Option Nat) :=
  if f.name = "zoompan" ∨ f.name = "fps" then some (f.rateTexts.head?.bind count?)
  else none

end Filter

namespace Picture

/-- What is known of frames behind a filter. -/
def after (p : Picture) (f : Filter) : Picture where
  size := f.size?.getD p.size
  rate := f.rate?.getD p.rate
  aspect :=
    if f.name = "setsar" then f.byPosition.head?
    else if f.size?.isSome then none
    else p.aspect

/-- What is known of frames behind a step. -/
def through (p : Picture) : Step → Picture
  | .zoompan _ _ _ _ size rate => ⟨some size, some rate, none⟩
  | .resize width height => { p with size := some ⟨width, height⟩, aspect := none }
  | .fit _ | .stretch _ _ | .evenOut => { p with size := none, aspect := none }
  | .pad size | .crop size _ => { p with size := some size, aspect := none }
  | .setRate rate => { p with rate := some rate }
  | .square => { p with aspect := some "1" }
  | .again _ | .stamp _ | .hold _ | .trim _ | .restart | .join _ | .crossfade _ _ _
  | .trimSound _ | .restartSound => p

end Picture

/-- What is known of frames behind a chain. -/
def Chain.picture (c : Chain) (p : Picture) : Picture := c.foldl Picture.after p

/-- The rates a step is written with. -/
def Step.rates : Step → List Nat
  | .zoompan _ _ _ _ _ rate | .setRate rate | .stamp rate => [rate]
  | _ => []

/-! ## Texts of counts -/

theorem count?_repr (n : Nat) : count? n.repr = some n := by
  have nonempty : n.repr.toList ≠ [] := by
    rw [Nat.toList_repr]
    exact Nat.toDigits_ne_nil
  have digits : n.repr.toList.all Char.isDigit = true :=
    List.all_eq_true.mpr fun _ member => isDigit_of_mem_toString member
  have value : digitsValue n.repr.toList = n := by
    rw [Nat.toList_repr]
    exact (Nat.ofDigitChars_eq_foldl ..).symm.trans Nat.ofDigitChars_ten_toDigits
  rw [count?, if_pos ⟨nonempty, digits⟩, value]

theorem ofTexts?_repr (w h : Nat) (rest : List String) :
    Canvas.ofTexts? (w.repr :: h.repr :: rest) = some ⟨w, h⟩ := by
  simp [Canvas.ofTexts?, count?_repr]

theorem between_token (c : Canvas) : between 'x' c.token = [c.width.repr, c.height.repr] := by
  have width : 'x' ∉ c.width.repr.toList := not_mem_toString (by decide) c.width
  have height : 'x' ∉ c.height.repr.toList := not_mem_toString (by decide) c.height
  have form : c.token.toList = c.width.repr.toList ++ 'x' :: c.height.repr.toList := by
    simp [Canvas.token]
  rw [between, form, List.splitOn_append_cons_self_of_not_mem width,
    List.splitOn_eq_singleton height]
  simp only [List.map_cons, List.map_nil, String.ofList_toList]

theorem between_stamp (n : Nat) :
    between '/' ("N/" ++ toString n ++ "/TB") = ["N", n.repr, "TB"] := by
  have count : '/' ∉ n.repr.toList := not_mem_toString (by decide) n
  have form : ("N/" ++ toString n ++ "/TB").toList
      = ['N'] ++ '/' :: (n.repr.toList ++ '/' :: ['T', 'B']) := by
    simp
  rw [between, form, List.splitOn_append_cons_self_of_not_mem (by decide),
    List.splitOn_append_cons_self_of_not_mem count, List.splitOn_eq_singleton (by decide)]
  simp only [List.map_cons, List.map_nil, String.ofList_toList]

/-! ## Filters and steps agree -/

namespace Filter

@[simp] theorem name_arg (f : Filter) (key value : String) : (f.arg key value).name = f.name := rfl

@[simp] theorem name_formula (f : Filter) (key value : String) :
    (f.formula key value).name = f.name := rfl

@[simp] theorem name_pos (f : Filter) (value : String) : (f.pos value).name = f.name := rfl

end Filter

theorem Step.name_crop (size : Canvas) (window : Window) :
    (Step.crop size window).filter.name = "crop" := by
  cases window with
  | named x y quoted => cases quoted <;> simp [Step.filter, Step.cropFilter]
  | _ => simp [Step.filter, Step.cropFilter]

open Montage.Filter in
theorem Picture.after_cropFilter (p : Picture) (size : Canvas) (window : Window) :
    p.after (Step.cropFilter size window) = { p with size := some size, aspect := none } := by
  cases window with
  | centred => simp [after, Step.cropFilter, size?, rate?, byPosition, pos, ofTexts?_repr]
  | placed x y => simp [after, Step.cropFilter, size?, rate?, byPosition, pos, ofTexts?_repr]
  | named x y quoted =>
      cases quoted <;>
        simp [after, Step.cropFilter, size?, rate?, byPosition, pos, arg, formula, ofTexts?_repr]

open Montage.Filter in
/-- **What a filter makes of frames is what its step does.** -/
theorem Picture.after_filter (p : Picture) (s : Step) : p.after s.filter = p.through s := by
  cases s with
  | zoompan z x y held size rate =>
      simp [after, through, Step.filter, size?, rate?, rateTexts, get?, arg, formula,
        between_token, ofTexts?_repr, count?_repr]
  | resize width height =>
      simp [after, through, Step.filter, size?, rate?, byPosition, pos, ofTexts?_repr]
  | fit size => simp [after, through, Step.filter, size?, rate?, arg, pos]
  | stretch width height => simp [after, through, Step.filter, size?, rate?, arg, formula]
  | evenOut =>
      have none : count? (Step.evenSide .iw).text = none := by decide
      simp [after, through, Step.filter, size?, rate?, byPosition, pos, Canvas.ofTexts?, none]
  | pad size =>
      simp [after, through, Step.filter, size?, rate?, byPosition, pos, ofTexts?_repr]
  | crop size window =>
      rw [Step.filter, after_cropFilter]
      rfl
  | setRate rate =>
      simp [after, through, Step.filter, size?, rate?, rateTexts, byPosition, pos,
        count?_repr]
  | square => simp [after, through, Step.filter, size?, rate?, byPosition, pos]
  | again times => simp [after, through, Step.filter, size?, rate?]
  | stamp rate => simp [after, through, Step.filter, size?, rate?]
  | hold length => simp [after, through, Step.filter, size?, rate?]
  | trim length => simp [after, through, Step.filter, size?, rate?]
  | restart => simp [after, through, Step.filter, size?, rate?]
  | join count => simp [after, through, Step.filter, size?, rate?]
  | crossfade kind length offset => simp [after, through, Step.filter, size?, rate?]
  | trimSound length => simp [after, through, Step.filter, size?, rate?]
  | restartSound => simp [after, through, Step.filter, size?, rate?]

theorem Chain.picture_ofSteps (steps : List Step) (p : Picture) :
    (Chain.ofSteps steps).picture p = steps.foldl Picture.through p := by
  induction steps generalizing p with
  | nil => rfl
  | cons s steps ih =>
      show Chain.picture (Chain.ofSteps steps) (p.after s.filter) = _
      rw [ih, Picture.after_filter]
      rfl

open Montage.Filter in
/-- The rates that the text of a step shows are the rates that it is written with. -/
theorem Step.rateTexts_filter (s : Step) : s.filter.rateTexts = s.rates.map Nat.repr := by
  cases s with
  | zoompan z x y held size rate => simp [Step.filter, rates, rateTexts, get?, arg, formula]
  | setRate rate => simp [Step.filter, rates, rateTexts, byPosition, pos]
  | stamp rate =>
      have split := between_stamp rate
      simp only [Nat.toString_eq_repr] at split
      simp [Step.filter, rates, rateTexts, byPosition, pos, split]
  | restart =>
      have split : between '/' "PTS-STARTPTS" = ["PTS-STARTPTS"] := by decide
      simp [Step.filter, rates, rateTexts, byPosition, pos, split]
  | crop size window =>
      cases window with
      | centred | placed x y => simp [Step.filter, cropFilter, rates, rateTexts]
      | named x y quoted => cases quoted <;> simp [Step.filter, cropFilter, rates, rateTexts]
  | resize | fit | stretch | evenOut | pad | again | hold | trim | square | join | crossfade
  | trimSound | restartSound => simp [Step.filter, rates, rateTexts]

theorem Chain.rateTexts_ofSteps (steps : List Step) :
    (Chain.ofSteps steps).flatMap Filter.rateTexts = (steps.flatMap Step.rates).map Nat.repr := by
  simp [Chain.ofSteps, List.flatMap_map, List.map_flatMap, Step.rateTexts_filter]

end Montage
