/-
# Montage.Effect.Check -- effects that can be shown

An effect is brought within its bounds before anything is built from it.  Three
things make a pan or zoom pointless: no direction, a zoom from a scale to the
same scale, a pan without strength.  They are looked for in that order, on the
values within bounds, and the first one found replaces the effect by a constant
zoom at its first scale (`Fallback`).
-/
import Montage.Effect.Settings

namespace Montage

set_option autoImplicit false

/-- Why a pan or zoom was replaced by a constant zoom. -/
inductive Fallback.Reason where
  | emptyDirections
  | degenerateZoom
  | zeroIntensityPan
  deriving DecidableEq, Repr

namespace Fallback.Reason

/-- Every reason, in the order they are looked for. -/
def all : List Fallback.Reason := [emptyDirections, degenerateZoom, zeroIntensityPan]

/-- The name of a reason in reports. -/
def name : Fallback.Reason → String
  | emptyDirections => "empty_directions"
  | degenerateZoom => "degenerate_zoom"
  | zeroIntensityPan => "zero_intensity_pan"

/-- What is reported for a reason, given the scale that remains. -/
def finding (scale : Float) : Fallback.Reason → Finding
  | emptyDirections => .emptyDirections
  | degenerateZoom => .degenerateZoom scale
  | zeroIntensityPan => .zeroIntensityPan

end Fallback.Reason

/-- A constant zoom at the centre of the image. -/
structure Fallback where
  scale : Float
  reason : Fallback.Reason

/-- An effect within its bounds, or the constant zoom in its place. -/
inductive Checked where
  | effect (e : Effect)
  | fallback (f : Fallback)

namespace KenBurns

/-- The same pan or zoom with both scales within their bounds. -/
def clamped (p : KenBurns) : KenBurns :=
  { p with startScale := clampScale p.startScale, endScale := clampScale p.endScale }

/-- What makes a pan or zoom pointless, if anything does. -/
def pointless? (p : KenBurns) : Option Fallback.Reason :=
  if p.directions.isEmpty then some .emptyDirections
  else if p.directions.hasZoom && p.startScale == p.endScale then some .degenerateZoom
  else if p.directions.hasPan && intensityFactor p.intensity ≤ 0.0 then some .zeroIntensityPan
  else none

/-- A pan or zoom that shows, or the constant zoom in its place. -/
def check (p : KenBurns) : Outcome Checked :=
  match p.clamped.pointless? with
  | none => pure (.effect (.kenBurns p.clamped))
  | some reason => do
      Outcome.report (reason.finding p.clamped.startScale)
      return .fallback ⟨p.clamped.startScale, reason⟩

end KenBurns

namespace Effect

/-- The effect within its bounds. -/
def check : Effect → Outcome Checked
  | .kenBurns p => p.check
  | .parallax p =>
      if Seconds.isUsable p.speed then pure (.effect (.parallax p))
      else do
        Outcome.report (.speedNotPositive p.speed)
        return .effect (.parallax { p with speed := 0.5 })
  | .cinemagraph p =>
      pure (.effect (.cinemagraph { p with period := Seconds.usable? p.period }))
  | .dollyZoom p => pure (.effect (.dollyZoom p))
  | .still => pure (.effect .still)

end Effect

/-- The effect that settings ask for, within its bounds. -/
def Settings.check (s : Settings) : Outcome (Option Checked) := do
  match ← s.effect with
  | none => return none
  | some effect =>
      let checked ← effect.check
      return some checked

end Montage
