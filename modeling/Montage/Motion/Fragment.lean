/-
# Montage.Motion.Fragment -- the filters of one effect

A fragment is the steps that give one still its motion and bring it to the size
of the clip.  It advances in one of three ways (`Family`), which matters when it
becomes a segment of a timeline, because there each still is a single frame.
-/
import Montage.Filter.Step

namespace Montage

set_option autoImplicit false

/-- How a fragment advances. -/
inductive Family where
  /-- A zoom and an offset per frame; the fragment says how long an image is held. -/
  | zoomPan
  /-- Formulas over the time of frames that keep coming. -/
  | timeExpression
  /-- Not at all. -/
  | passThrough
  deriving DecidableEq, Repr

/-- The name of a family in reports. -/
def Family.name : Family → String
  | zoomPan => "zoom_pan"
  | timeExpression => "time_expression"
  | passThrough => "pass_through"

/-- What the fragment counts as one pass. -/
inductive Span where
  /-- Every frame that goes out. -/
  | eachFrame
  /-- All the frames of the clip. -/
  | whole (frames : Nat)
  deriving DecidableEq, Repr

/-- The frames of one pass. -/
def Span.frames : Span → Nat
  | eachFrame => 1
  | whole n => n

/-- The steps of one effect. -/
structure Fragment where
  steps : List Step
  family : Family
  span : Span
  /-- The size that comes out. -/
  canvas : Canvas
  deriving DecidableEq, Repr

namespace Fragment

/-- The filters of a fragment. -/
def chain (f : Fragment) : Chain := .ofSteps f.steps

/-- The filters of a fragment, and one that makes both sides even. -/
def safeChain (f : Fragment) : Chain := .ofSteps (f.steps ++ [.evenOut])

end Fragment

end Montage
