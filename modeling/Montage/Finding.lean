/-
# Montage.Finding -- what was repaired, and where

Settings that make no sense do not stop a video from being made: something
sensible is put in their place, and what happened is reported.  A `Finding` is
one such repair.  It says what was found; its category and its wording follow
from that.  A `Diagnostic` is a finding at a segment of a timeline, or at none,
and an `Outcome` is a value together with the diagnostics on the way to it.
-/
import Montage.Effect
import Montage.Transition
import Montage.Number.Numeral
import Montage.Number.Shortest

namespace Montage

set_option autoImplicit false

/-- The categories of findings. -/
inductive Finding.Category where
  | unknownDirection
  | conflictingDirections
  | emptyDirections
  | degenerateZoom
  | zeroIntensityPan
  | missingField
  | unknownKind
  | unknownOption
  | unknownTransition
  | transitionClamped
  | transitionDropped
  | valueClamped
  | durationMismatch
  deriving DecidableEq, Repr

/-- The name of a category in reports. -/
def Finding.Category.name : Finding.Category → String
  | unknownDirection => "unknown_direction"
  | conflictingDirections => "conflicting_directions"
  | emptyDirections => "empty_directions"
  | degenerateZoom => "degenerate_zoom"
  | zeroIntensityPan => "zero_intensity_pan"
  | missingField => "missing_field"
  | unknownKind => "unknown_kind"
  | unknownOption => "unknown_option"
  | unknownTransition => "unknown_transition"
  | transitionClamped => "transition_clamped"
  | transitionDropped => "transition_dropped"
  | valueClamped => "value_clamped"
  | durationMismatch => "duration_mismatch"

/-- Something that had to be repaired. -/
inductive Finding where
  | unknownKind (label : String)
  | unknownDirection (token : String)
  | conflictingDirections (lost : Direction)
  | emptyDirections
  /-- A zoom from a scale to the same scale. -/
  | degenerateZoom (scale : Float)
  | zeroIntensityPan
  | unknownSlide (token : String)
  | unknownPulse (token : String)
  | speedNotPositive (speed : Float)
  | viewMissing (name : String)
  | viewNotPositive (name : String) (view : Float)
  | unknownTransition (name : String)
  | tooManySegments (count limit : Nat)
  | segmentTooShort (duration raised : Numeral)
  | transitionOutOfRange (duration low high : Numeral)
  | transitionWithoutPredecessor
  | transitionDropped (kind : TransitionKind) (available : Numeral)
  | transitionShortened (kind : TransitionKind) (wanted fitted : Numeral)
  | durationMismatch (segments target : Numeral)

namespace Finding

def category : Finding → Category
  | unknownKind _ => .unknownKind
  | unknownDirection _ => .unknownDirection
  | conflictingDirections _ => .conflictingDirections
  | emptyDirections => .emptyDirections
  | degenerateZoom _ => .degenerateZoom
  | zeroIntensityPan => .zeroIntensityPan
  | unknownSlide _ | unknownPulse _ => .unknownOption
  | speedNotPositive _ | tooManySegments _ _ | segmentTooShort _ _ | transitionOutOfRange _ _ _ =>
      .valueClamped
  | viewMissing _ | viewNotPositive _ _ => .missingField
  | unknownTransition _ => .unknownTransition
  | transitionWithoutPredecessor | transitionDropped _ _ => .transitionDropped
  | transitionShortened _ _ _ => .transitionClamped
  | durationMismatch _ _ => .durationMismatch

/-- The wording of a finding. -/
def message : Finding → String
  | unknownKind label => s!"unknown animation type '{label}'; no animation applied"
  | unknownDirection token => s!"unknown direction '{token}' ignored"
  | conflictingDirections lost =>
      "'" ++ lost.name ++ "' conflicts with another direction and was ignored"
  | emptyDirections => "no usable direction; using static zoom"
  | degenerateZoom scale =>
      "zoom requested but start and end scale are both " ++ plainText scale
        ++ "; using static zoom"
  | zeroIntensityPan => "pan requested with zero intensity; using static zoom"
  | unknownSlide token => s!"unknown parallax direction '{token}'; using left-to-right"
  | unknownPulse token => s!"unknown cinemagraph motion '{token}'; using subtle-zoom"
  | speedNotPositive speed =>
      "parallax speed " ++ plainText speed ++ " is not positive; using 0.5"
  | viewMissing name => s!"dolly zoom {name} is missing; using pass-through"
  | viewNotPositive name view =>
      s!"dolly zoom {name} " ++ plainText view ++ " is not positive; using pass-through"
  | unknownTransition name => s!"unknown transition '{name}'; using fade"
  | tooManySegments count limit =>
      s!"timeline has {count} segments; keeping the first {limit}"
  | segmentTooShort duration raised =>
      "segment duration " ++ duration.text ++ " raised to " ++ raised.text
  | transitionOutOfRange duration low high =>
      "transition duration " ++ duration.text ++ " moved into [" ++ low.text ++ ", "
        ++ high.text ++ "]"
  | transitionWithoutPredecessor =>
      "the first segment has no predecessor; transition ignored"
  | transitionDropped kind available =>
      kind.name ++ " transition cannot fit (" ++ available.text ++ "s available); using a cut"
  | transitionShortened kind wanted fitted =>
      kind.name ++ " transition shortened from " ++ wanted.text ++ "s to " ++ fitted.text ++ "s"
  | durationMismatch segments target =>
      "segments last " ++ segments.text ++ "s but the target is " ++ target.text ++ "s"

end Finding

/-- A finding and the segment it belongs to, if any. -/
structure Diagnostic where
  segment : Option Nat := none
  finding : Finding

/-- The same finding at a segment. -/
def Diagnostic.located (index : Nat) (d : Diagnostic) : Diagnostic :=
  { d with segment := some index }

/-- A value that can always be used, and what was repaired on the way to it. -/
structure Outcome (α : Type) where
  value : α
  diagnostics : List Diagnostic := []

namespace Outcome

variable {α β : Type}

/-- The value, and the diagnostics of both steps in their order. -/
def andThen (o : Outcome α) (f : α → Outcome β) : Outcome β :=
  let next := f o.value
  ⟨next.value, o.diagnostics ++ next.diagnostics⟩

instance : Monad Outcome where
  pure a := ⟨a, []⟩
  bind := andThen

/-- Report a finding that belongs to no segment. -/
def report (f : Finding) : Outcome Unit := ⟨(), [{ finding := f }]⟩

/-- Report some findings that belong to no segment. -/
def reportAll (fs : List Finding) : Outcome Unit := ⟨(), fs.map (fun f => { finding := f })⟩

/-- The same outcome, its diagnostics placed at a segment. -/
def located (index : Nat) (o : Outcome α) : Outcome α :=
  { o with diagnostics := o.diagnostics.map (Diagnostic.located index) }

end Outcome

end Montage
