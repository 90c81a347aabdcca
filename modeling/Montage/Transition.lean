/-
# Montage.Transition -- how one segment turns into the next

The vocabulary of transitions, and the few everyday words that stand for one of
them.
-/
import Montage.Text.Blank

namespace Montage

set_option autoImplicit false

inductive TransitionKind where
  | fade | fadeBlack | fadeWhite
  | wipeLeft | wipeRight | wipeUp | wipeDown
  | slideLeft | slideRight | slideUp | slideDown
  | circleCrop | circleOpen | circleClose
  | radial | rectCrop | distance | hBlur | vBlur
  | smoothLeft | smoothRight | smoothUp | smoothDown
  | dissolve
  | coverLeft | coverRight | coverUp | coverDown
  | revealLeft | revealRight | revealUp | revealDown
  deriving DecidableEq, Repr

namespace TransitionKind

/-- Every kind of transition. -/
def all : List TransitionKind :=
  [fade, fadeBlack, fadeWhite, wipeLeft, wipeRight, wipeUp, wipeDown,
    slideLeft, slideRight, slideUp, slideDown, circleCrop, circleOpen, circleClose,
    radial, rectCrop, distance, hBlur, vBlur, smoothLeft, smoothRight, smoothUp, smoothDown,
    dissolve, coverLeft, coverRight, coverUp, coverDown, revealLeft, revealRight, revealUp,
    revealDown]

def name : TransitionKind → String
  | fade => "fade"
  | fadeBlack => "fadeblack"
  | fadeWhite => "fadewhite"
  | wipeLeft => "wipeleft"
  | wipeRight => "wiperight"
  | wipeUp => "wipeup"
  | wipeDown => "wipedown"
  | slideLeft => "slideleft"
  | slideRight => "slideright"
  | slideUp => "slideup"
  | slideDown => "slidedown"
  | circleCrop => "circlecrop"
  | circleOpen => "circleopen"
  | circleClose => "circleclose"
  | radial => "radial"
  | rectCrop => "rectcrop"
  | distance => "distance"
  | hBlur => "hblur"
  | vBlur => "vblur"
  | smoothLeft => "smoothleft"
  | smoothRight => "smoothright"
  | smoothUp => "smoothup"
  | smoothDown => "smoothdown"
  | dissolve => "dissolve"
  | coverLeft => "coverleft"
  | coverRight => "coverright"
  | coverUp => "coverup"
  | coverDown => "coverdown"
  | revealLeft => "revealleft"
  | revealRight => "revealright"
  | revealUp => "revealup"
  | revealDown => "revealdown"

/-- Other words for a transition. -/
def aliases : List (String × String) :=
  [("crossfade", "fade"), ("xfade", "fade"), ("wipe", "wipeleft"), ("slide", "slideleft"),
    ("circle", "circleopen")]

/-- The transition with a given name or alias, in whatever case. -/
def parse? (s : String) : Option TransitionKind :=
  let key := foldCase (trim s)
  let key := (aliases.lookup key).getD key
  all.find? (fun k => k.name = key)

end TransitionKind

/-- A transition from the segment before: its kind and how long both are shown. -/
structure Transition (τ : Type) where
  kind : TransitionKind
  /-- Seconds. -/
  duration : τ

end Montage
