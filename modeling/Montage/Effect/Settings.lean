/-
# Montage.Effect.Settings -- settings as people leave them

An authoring tool stores the settings of an effect as one loose object: a label
for the kind, and whichever parameters were touched.  `Settings` is that object,
and `Settings.effect` is the effect it asks for.  What cannot be used falls back
to the default of its kind and is reported; only a label that names no kind at
all leaves no effect.

Directions come as one name, as names between commas, or as a list of either.
`Tokens.names` is the same list of names for all three.
-/
import Montage.Clip
import Montage.Finding

namespace Montage

set_option autoImplicit false

/-- Directions as they were written: one text, or a list of texts. -/
inductive Tokens where
  | one (s : String)
  | many (ss : List String)
  deriving DecidableEq, Repr

namespace Tokens

/-- The texts that hold the names. -/
def texts : Tokens → List String
  | one s => [s]
  | many ss => ss

/-- The names, without white space around them and without empty ones. -/
def names (t : Tokens) : List String :=
  ((t.texts.flatMap splitCommas).map trim).filter (· ≠ "")

end Tokens

/-- The settings of an effect, every one of them optional but the label. -/
structure Settings where
  /-- The label of the kind. -/
  label : String := ""
  intensity : Option Float := none
  direction : Option Tokens := none
  startScale : Option Float := none
  endScale : Option Float := none
  speed : Option Float := none
  mask : Option String := none
  motion : Option String := none
  loopDuration : Option Float := none
  startView : Option Float := none
  endView : Option Float := none
  focus : Option String := none
  width : Option Nat := none
  height : Option Nat := none
  duration : Option Float := none

namespace Settings

/-- The kind of effect the label names. -/
def kind? (s : Settings) : Option EffectKind := EffectKind.parse? s.label

/-- A clip with the length and the size that the settings carry. -/
def clip (s : Settings) (base : Clip Float) : Clip Float :=
  Clip.sanitized
    { duration := (Seconds.usable? s.duration).getD base.duration
      canvas := (Canvas.requested? s.width s.height).getD base.canvas
      rate := base.rate }

/-- The directions that are asked for; names that mean none are reported first,
then the directions that lost to their opposite. -/
def directions (s : Settings) : Outcome DirectionSet := do
  let names := (s.direction.map Tokens.names).getD []
  Outcome.reportAll
    ((names.filter (fun n => (Direction.parse? n).isNone)).map Finding.unknownDirection)
  let (set, lost) := DirectionSet.ofList (names.filterMap Direction.parse?)
  Outcome.reportAll (lost.map Finding.conflictingDirections)
  return set

/-- A scale that was set; zero counts as unset. -/
def scale? (x : Option Float) : Option Float := (Seconds.finite? x).filter (fun s => s != 0.0)

/-- The slide of a parallax: the first name, if it means one. -/
def slide (s : Settings) : Outcome Slide :=
  match (s.direction.map Tokens.names).getD [] with
  | [] => pure .leftToRight
  | name :: _ => match Slide.parse? name with
    | some slide => pure slide
    | none => do
        Outcome.report (.unknownSlide name)
        return .leftToRight

/-- The speed of a parallax. -/
def slideSpeed (s : Settings) : Outcome Float :=
  match Seconds.finite? s.speed with
  | none => pure 0.5
  | some speed =>
      if 0.0 < speed then pure speed
      else do
        Outcome.report (.speedNotPositive speed)
        return 0.5

/-- The pulse of a cinemagraph. -/
def pulse (s : Settings) : Outcome Pulse :=
  match s.motion with
  | none => pure .subtleZoom
  | some name => match Pulse.parse? name with
    | some pulse => pure pulse
    | none => do
        Outcome.report (.unknownPulse name)
        return .subtleZoom

/-- The effect of a kind with the parameters that are set. -/
def effectOf (s : Settings) (kind : EffectKind) : Outcome Effect := do
  let intensity := (Seconds.finite? s.intensity).getD 1.0
  match kind with
  | .kenBurns =>
      let startScale := (scale? s.startScale).getD 1.0
      let endScale := (scale? s.endScale).getD (startScale + 0.1)
      return .kenBurns ⟨intensity, startScale, endScale, ← s.directions⟩
  | .parallax =>
      let slide ← s.slide
      return .parallax ⟨intensity, ← s.slideSpeed, slide⟩
  | .cinemagraph =>
      return .cinemagraph
        ⟨intensity, s.mask.getD "center", ← s.pulse, Seconds.usable? s.loopDuration⟩
  | .dollyZoom =>
      return .dollyZoom
        ⟨intensity, Seconds.finite? s.startView, Seconds.finite? s.endView, s.focus.getD "center"⟩
  | .still => return .still

/-- The effect that the settings ask for; none if the label names no kind. -/
def effect (s : Settings) : Outcome (Option Effect) :=
  match s.kind? with
  | none => do
      Outcome.report (.unknownKind s.label)
      return none
  | some kind => do
      let effect ← s.effectOf kind
      return some effect

end Settings

end Montage
