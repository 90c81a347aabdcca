/-
# Montage.Filter.Step -- the filters this library writes

Every filter that a clip or a timeline is made of, by what it does.  `Step.filter`
spells it; what a step does to the size of a frame or to the rate can be read off
the step itself.
-/
import Montage.Clip
import Montage.Transition
import Montage.Filter
import Montage.Filter.Expr

namespace Montage

set_option autoImplicit false

/-- Where a crop takes its window from. -/
inductive Window where
  /-- The middle of the frame. -/
  | centred
  /-- An offset, given by position. -/
  | placed (x y : Expr)
  /-- An offset, given by name; the horizontal one may be quoted regardless. -/
  | named (x y : Expr) (quoted : Bool)
  deriving DecidableEq, Repr

/-- A filter, by what it does. -/
inductive Step where
  /-- Show `held` frames of a window that a zoom and an offset define. -/
  | zoompan (z x y : Expr) (held : Nat) (size : Canvas) (rate : Nat)
  /-- Scale to a size. -/
  | resize (width height : Nat)
  /-- Scale to fit inside a size, keeping the proportions. -/
  | fit (size : Canvas)
  /-- Scale by formulas, anew for every frame. -/
  | stretch (width height : Expr)
  /-- Scale to even sides. -/
  | evenOut
  /-- Fill up to a size, with the picture in the middle. -/
  | pad (size : Canvas)
  /-- Cut a window out of the frame. -/
  | crop (size : Canvas) (window : Window)
  /-- Set the rate. -/
  | setRate (perSecond : Nat)
  /-- Repeat the first frame so many times. -/
  | again (times : Nat)
  /-- Stamp frames by counting them. -/
  | stamp (rate : Nat)
  /-- Hold the last frame for some seconds. -/
  | hold (length : Numeral)
  /-- End after some seconds. -/
  | trim (length : Numeral)
  /-- Let the stamps start at zero. -/
  | restart
  /-- Declare the pixels square. -/
  | square
  /-- Show some streams one after the other. -/
  | join (count : Nat)
  /-- Turn one stream into another. -/
  | crossfade (kind : TransitionKind) (length offset : Numeral)
  /-- End the sound after some seconds. -/
  | trimSound (length : Numeral)
  /-- Let the stamps of the sound start at zero. -/
  | restartSound
  deriving DecidableEq, Repr

namespace Step

/-- The whole part of half a side, doubled. -/
def evenSide (side : Var) : Expr := .mul (.whole (.div (.var side) (.nat 2))) (.nat 2)

/-- Half of what one side exceeds another by. -/
def halfGap (outer inner : Var) : Expr :=
  .div (.group (.sub (.var outer) (.var inner))) (.nat 2)

/-- The spelling of a crop. -/
def cropFilter (size : Canvas) (window : Window) : Filter :=
  let sized := (Filter.mk "crop" []).pos (toString size.width) |>.pos (toString size.height)
  match window with
  | .centred => sized
  | .placed x y => (sized.pos x.text).pos y.text
  | .named x y true => (sized.formula "x" x.text).arg "y" y.text
  | .named x y false => (sized.arg "x" x.text).arg "y" y.text

/-- The spelling of a step. -/
def filter : Step → Filter
  | zoompan z x y held size rate =>
      (Filter.mk "zoompan" []).formula "z" z.text |>.formula "x" x.text |>.formula "y" y.text
        |>.arg "d" (toString held) |>.arg "s" size.token |>.arg "fps" (toString rate)
  | resize width height => (Filter.mk "scale" []).pos (toString width) |>.pos (toString height)
  | fit size =>
      (Filter.mk "scale" []).pos (toString size.width) |>.pos (toString size.height)
        |>.arg "force_original_aspect_ratio" "decrease"
  | stretch width height =>
      (Filter.mk "scale" []).formula "w" width.text |>.formula "h" height.text
        |>.arg "eval" "frame"
  | evenOut => (Filter.mk "scale" []).pos (evenSide .iw).text |>.pos (evenSide .ih).text
  | pad size =>
      (Filter.mk "pad" []).pos (toString size.width) |>.pos (toString size.height)
        |>.pos (halfGap .ow .iw).text |>.pos (halfGap .oh .ih).text
  | crop size window => cropFilter size window
  | setRate perSecond => (Filter.mk "fps" []).pos (toString perSecond)
  | again times =>
      (Filter.mk "loop" []).arg "loop" (toString times) |>.arg "size" "1" |>.arg "start" "0"
  | stamp rate => (Filter.mk "setpts" []).pos ("N/" ++ toString rate ++ "/TB")
  | hold length =>
      (Filter.mk "tpad" []).arg "stop_mode" "clone" |>.arg "stop_duration" length.text
  | trim length => (Filter.mk "trim" []).arg "duration" length.text
  | restart => (Filter.mk "setpts" []).pos "PTS-STARTPTS"
  | square => (Filter.mk "setsar" []).pos "1"
  | join count =>
      (Filter.mk "concat" []).arg "n" (toString count) |>.arg "v" "1" |>.arg "a" "0"
  | crossfade kind length offset =>
      (Filter.mk "xfade" []).arg "transition" kind.name |>.arg "duration" length.text
        |>.arg "offset" offset.text
  | trimSound length => (Filter.mk "atrim" []).arg "duration" length.text
  | restartSound => (Filter.mk "asetpts" []).pos "PTS-STARTPTS"

end Step

/-- The chain that spells some steps. -/
def Chain.ofSteps (steps : List Step) : Chain := steps.map Step.filter

end Montage
