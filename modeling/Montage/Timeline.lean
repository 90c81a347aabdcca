/-
# Montage.Timeline -- stills in a row, with their times

A timeline is the segments of one scene in the order they are shown, and what
they share: the size, the rate, the image of the scene, and how long the whole
is meant to last.  The lengths may be of any type that seconds are counted in.

The lengths of the segments need not add up to the target.  That is reported,
not repaired; `redistributed` is the repair, for those who want it.
-/
import Montage.Effect.Settings

namespace Montage

set_option autoImplicit false

/-- The reference to an image, without white space around it; none if it is blank. -/
def imageReference? (s : String) : Option String :=
  if trim s = "" then none else some (trim s)

/-- A still, and how long it is shown. -/
structure Segment (τ : Type) where
  /-- A segment without an effect is a still. -/
  effect : Option Effect := none
  /-- Seconds. -/
  duration : τ
  /-- Its own image; the first segment always shows the image of the scene. -/
  image : Option String := none
  /-- The transition from the segment before; the first segment has none before. -/
  transition : Option (Transition τ) := none

/-- The segments of a scene. -/
structure Timeline (τ : Type) where
  segments : List (Segment τ)
  /-- Frames a second. -/
  rate : Nat := defaultRate
  canvas : Canvas := .hd
  /-- The image of the scene. -/
  image : Option String := none
  /-- How long the whole is meant to last. -/
  target : Option τ := none

/-- What the segments add up to, and what they were meant to. -/
structure Mismatch (τ : Type) where
  segments : τ
  target : τ

section

variable {τ : Type} [Seconds τ]

/-- By how much the segments are too long. -/
def Mismatch.delta (m : Mismatch τ) : τ := m.segments - m.target

/-- The largest difference from the target that is not reported. -/
def tolerance : τ := 0.05

def minSegment : τ := 0.1

end

namespace Timeline

variable {τ : Type} [Seconds τ]

/-- The lengths of the segments, added up. -/
def segmentSum (t : Timeline τ) : τ := Seconds.total (t.segments.map Segment.duration)

/-- How long the whole lasts: the target, or what the segments add up to. -/
def total (t : Timeline τ) : τ := (Seconds.usable? t.target).getD t.segmentSum

/-- The mismatch between the segments and the target, if it is to be reported. -/
def mismatch? (t : Timeline τ) : Option (Mismatch τ) :=
  match Seconds.usable? t.target with
  | none => none
  | some target =>
      let sum := t.segmentSum
      if (tolerance : τ) < sum - target ∨ (tolerance : τ) < target - sum then some ⟨sum, target⟩
      else none

/-- The same timeline with `total` shared equally among its segments. -/
def redistributed (total : τ) (t : Timeline τ) : Timeline τ :=
  if t.segments.isEmpty ∨ !Seconds.isUsable total then t
  else
    let each := Seconds.greatest (total / Seconds.ofNat t.segments.length) minSegment
    { t with segments := t.segments.map (fun s => { s with duration := each }) }

end Timeline

end Montage
