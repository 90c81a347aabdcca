/-
# Montage.Timeline.Piece -- segments ready to be joined

Each segment is fed by a single frame, its image.  A piece is the chain that
turns that frame into exactly the length of the segment, at the size and the rate
of the timeline, with stamps that start at zero and square pixels, so that pieces
of whatever kind can be joined.

How the frame becomes many depends on the family of its effect: a zoom holds it
for as many frames as the segment has, a formula over time gets it repeated, and
a still is held at its end.
-/
import Montage.Motion
import Montage.Timeline.Fit

namespace Montage

set_option autoImplicit false

/-- A segment ready to be joined. -/
structure Piece (τ : Type) where
  /-- The position in the timeline, which is also the number of the input. -/
  index : Nat
  /-- The image that is fed in. -/
  image : String
  chain : Chain
  family : Family
  /-- Seconds. -/
  duration : τ
  frames : Nat
  /-- The transition from the piece before. -/
  transition : Option (Transition τ)
  diagnostics : List Diagnostic

/-- The steps with the first zoom held for a number of frames. -/
def holdFor (frames : Nat) : List Step → List Step
  | [] => []
  | .zoompan z x y _ size rate :: rest => .zoompan z x y frames size rate :: rest
  | step :: rest => step :: holdFor frames rest

variable {τ : Type} [Seconds τ]

/-- The steps that turn the single frame of a segment into its length. -/
def pieceSteps (clip : Clip τ) (fragment : Fragment) : List Step :=
  let length := Seconds.numeral clip.duration
  let moving := match fragment.family with
    | .zoomPan => holdFor clip.frames fragment.steps
    | .timeExpression => .again (clip.frames - 1) :: .stamp clip.rate :: fragment.steps
    | .passThrough => fragment.steps ++ [.hold length]
  moving ++ [.trim length, .restart, .square]

namespace Timeline

/-- What the segment at a position is rendered with. -/
def clip (t : Timeline τ) (s : Segment τ) : Clip τ :=
  Clip.sanitized ⟨s.duration, t.canvas, t.rate⟩

def fragment (t : Timeline τ) (s : Segment τ) : Outcome Fragment :=
  Motion.fragment (t.clip s) (s.effect.getD .still)

/-- The image of the segment at a position: the first one shows the image of the
scene, and so does any without an image of its own. -/
def imageAt (scene : String) (index : Nat) (s : Segment τ) : String :=
  if index = 0 then scene else s.image.getD scene

/-- The piece at a position.  It fails outside of the timeline, and without an
image of the scene. -/
def piece (t : Timeline τ) (index : Nat) : Except Failure (Piece τ) := do
  let some s := t.segments[index]? | throw (.segmentOutOfRange index t.segments.length)
  let some scene := t.image | throw (.noPrimaryImage index)
  let clip := t.clip s
  let built := (t.fragment s).located index
  return {
    index := index
    image := imageAt scene index s
    chain := .ofSteps (pieceSteps clip built.value)
    family := built.value.family
    duration := clip.duration
    frames := clip.frames
    transition := if index = 0 then none else s.transition
    diagnostics := built.diagnostics }

end Timeline

end Montage
