/-
# Montage.Effect -- what a still does while it is shown

Five kinds of effect and their parameters, as they are once settings have been
understood.  Every parameter is kept as it was asked for: which values are
usable is decided by `Montage.Effect.Check`, when a clip is built from them.
-/
import Montage.Direction

namespace Montage

set_option autoImplicit false

inductive EffectKind where
  /-- Pan or zoom across a still image. -/
  | kenBurns
  /-- A window that slides along one axis. -/
  | parallax
  /-- A small motion that repeats. -/
  | cinemagraph
  /-- A zoom from one field of view to another. -/
  | dollyZoom
  /-- No motion. -/
  | still
  deriving DecidableEq, Repr

namespace EffectKind

/-- Every kind, in the order they are offered. -/
def all : List EffectKind := [kenBurns, parallax, cinemagraph, dollyZoom, still]

def label : EffectKind → String
  | kenBurns => "Ken Burns"
  | parallax => "Parallax"
  | cinemagraph => "Cinemagraph"
  | dollyZoom => "Dolly Zoom"
  | still => "Static"

/-- The kind with a given label, however it is spaced or capitalised. -/
def parse? (s : String) : Option EffectKind :=
  [("kenburns", kenBurns), ("parallax", parallax), ("cinemagraph", cinemagraph),
    ("dollyzoom", dollyZoom), ("static", still), ("none", still)].lookup (labelKey s)

end EffectKind

/-- Where the window of a parallax slides. -/
inductive Slide where
  | leftToRight
  | rightToLeft
  | topToBottom
  | bottomToTop
  deriving DecidableEq, Repr

namespace Slide

/-- Every slide. -/
def all : List Slide := [leftToRight, rightToLeft, topToBottom, bottomToTop]

/-- The name of a slide in settings. -/
def name : Slide → String
  | leftToRight => "left-to-right"
  | rightToLeft => "right-to-left"
  | topToBottom => "top-to-bottom"
  | bottomToTop => "bottom-to-top"

/-- The pan that moves the window the same way. -/
def pan : Slide → Direction
  | leftToRight => .panRight
  | rightToLeft => .panLeft
  | topToBottom => .panDown
  | bottomToTop => .panUp

/-- Whether the window moves along the horizontal axis. -/
def isHorizontal : Slide → Bool
  | leftToRight | rightToLeft => true
  | _ => false

/-- Whether the offset of the window grows over time. -/
def isForward : Slide → Bool
  | leftToRight | topToBottom => true
  | _ => false

/-- The slide with a given name, or with the name of its pan. -/
def parse? (s : String) : Option Slide :=
  let key := foldCase (trim s)
  all.find? (fun d => d.name = key ∨ d.pan.name = key)

end Slide

/-- How a cinemagraph moves. -/
inductive Pulse where
  /-- The zoom swings around one. -/
  | subtleZoom
  /-- The window swings sideways. -/
  | wave
  /-- The size swings on both axes at once. -/
  | breathe
  deriving DecidableEq, Repr

namespace Pulse

/-- Every pulse. -/
def all : List Pulse := [subtleZoom, wave, breathe]

def name : Pulse → String
  | subtleZoom => "subtle-zoom"
  | wave => "wave"
  | breathe => "breathe"

/-- The pulse with a given name, however it is spaced or capitalised. -/
def parse? (s : String) : Option Pulse :=
  all.find? (fun p => labelKey p.name = labelKey s)

end Pulse

/-- The parameters of a pan or zoom. -/
structure KenBurns where
  /-- How strong a pan is, from 0.1 to 10. -/
  intensity : Float
  /-- The zoom at the first frame. -/
  startScale : Float
  /-- The zoom at the last frame. -/
  endScale : Float
  directions : DirectionSet

/-- The parameters of a parallax. -/
structure Parallax where
  /-- Carried along; the slide depends on the speed alone. -/
  intensity : Float
  /-- At half a unit the window crosses its range once per clip. -/
  speed : Float
  slide : Slide

/-- The parameters of a cinemagraph. -/
structure Cinemagraph where
  /-- How strong the motion is, from 0.1 to 10. -/
  intensity : Float
  /-- The label of a region, carried along. -/
  mask : String
  pulse : Pulse
  /-- The period in seconds; the length of the clip when there is none. -/
  period : Option Float

/-- The parameters of a dolly zoom. -/
structure DollyZoom where
  /-- Carried along; the zoom depends on the fields of view alone. -/
  intensity : Float
  /-- The field of view at the first frame, in degrees. -/
  startView : Option Float
  /-- The field of view at the last frame, in degrees. -/
  endView : Option Float
  /-- The label of a focus, carried along. -/
  focus : String

/-- An effect with its parameters. -/
inductive Effect where
  | kenBurns (p : KenBurns)
  | parallax (p : Parallax)
  | cinemagraph (p : Cinemagraph)
  | dollyZoom (p : DollyZoom)
  | still

namespace Effect

def kind : Effect → EffectKind
  | kenBurns _ => .kenBurns
  | parallax _ => .parallax
  | cinemagraph _ => .cinemagraph
  | dollyZoom _ => .dollyZoom
  | still => .still

/-- The parameters each kind is offered with. -/
def template : EffectKind → Effect
  | .kenBurns => .kenBurns ⟨1.0, 1.0, 1.1, (DirectionSet.ofList [.zoomIn]).1⟩
  | .parallax => .parallax ⟨1.0, 0.5, .leftToRight⟩
  | .cinemagraph => .cinemagraph ⟨1.0, "center", .subtleZoom, some 3.0⟩
  | .dollyZoom => .dollyZoom ⟨1.0, some 50.0, some 80.0, "center"⟩
  | .still => .still

end Effect

/-- The lowest zoom there is. -/
def minScale : Float := 0.1

/-- The highest zoom there is. -/
def maxScale : Float := 3.0

/-- The intensity of the strongest motion. -/
def maxIntensity : Float := 10.0

/-- A double moved to the nearer end of an interval that it lies outside of. -/
def clampFloat (low high x : Float) : Float :=
  if x < low then low else if high < x then high else x

/-- An intensity as a share of the strongest one; none without a value. -/
def intensityFactor (intensity : Float) : Float :=
  if intensity.isFinite then clampFloat 0.0 1.0 (intensity / maxIntensity) else 0.0

/-- A zoom within its bounds; one without a value leaves the size alone. -/
def clampScale (scale : Float) : Float :=
  if scale.isFinite then clampFloat minScale maxScale scale else 1.0

end Montage
