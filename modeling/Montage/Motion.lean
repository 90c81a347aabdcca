/-
# Montage.Motion -- the filters that an effect comes to

Every effect comes to a fragment, whatever its parameters: what cannot be shown
has become a constant zoom or, at worst, a still that is scaled to fit.
`sceneFilter` is the whole text for a single scene, and there is none for a
scene that does not move.
-/
import Montage.Motion.Slide

namespace Montage.Motion

set_option autoImplicit false

variable {τ : Type} [Seconds τ]

/-- A still, scaled to fit and filled up to the size of the clip. -/
def passThrough (clip : Clip τ) : Fragment :=
  let clip := clip.sanitized
  { steps := [.fit clip.canvas, .pad clip.canvas, .setRate clip.rate]
    family := .passThrough
    span := .whole clip.frames
    canvas := clip.canvas }

/-- The fragment of an effect within its bounds. -/
def build (clip : Clip τ) (checked : Checked) : Outcome Fragment :=
  let clip := clip.sanitized
  match checked with
  | .fallback f => pure (constantZoom clip f.scale)
  | .effect (.kenBurns p) => pure (kenBurns clip p)
  | .effect (.parallax p) => pure (parallax clip p)
  | .effect (.cinemagraph p) => pure (cinemagraph clip p)
  | .effect (.dollyZoom p) => match dollyZoom clip p with
    | .ok fragment => pure fragment
    | .error finding => do
        Outcome.report finding
        return passThrough clip
  | .effect .still => pure (passThrough clip)

def fragment (clip : Clip τ) (effect : Effect) : Outcome Fragment := do
  build clip (← effect.check)

/-- The filter for a single scene, if it moves. -/
def sceneFilter (clip : Clip τ) (settings : Settings) : Outcome (Option String) := do
  match ← settings.check with
  | none => return none
  | some (.effect .still) => return none
  | some checked =>
      let fragment ← build clip checked
      return some fragment.safeChain.text

end Montage.Motion
