/-
# Montage.Timeline.Fit -- timelines within their limits

A timeline has at most ten segments, none shorter than a tenth of a second, and
its transitions must fit.  A transition overlaps the end of one segment with the
beginning of the next, so it may take half of its own segment and whatever the
segment before has left after its own transition.  The requested length is first
moved into its range; what then fits is kept if it is long enough to be seen, and
otherwise the transition becomes a cut.

Segments are fitted from the first to the last, and each decision depends only on
the segment before (`Segment.remaining`), so later segments never change earlier
ones.  Everything that is changed is reported.
-/
import Montage.Timeline

namespace Montage

set_option autoImplicit false

/-- The most segments of a timeline. -/
def maxSegments : Nat := 10

variable {τ : Type} [Seconds τ]

def minTransition : τ := 0.1

def maxTransition : τ := 2.0

/-- The length of a transition that states none. -/
def defaultTransition : τ := 0.5

/-- The requested length of a transition, moved into its range. -/
def boundedTransition (requested : τ) : τ :=
  Seconds.clamp minTransition maxTransition
    (if Seconds.isFinite requested then requested else defaultTransition)

namespace Segment

/-- What a segment has left for the transition that follows it. -/
def remaining (s : Segment τ) : τ :=
  match s.transition with
  | some t => s.duration - t.duration
  | none => s.duration

def isLongEnough (s : Segment τ) : Bool :=
  Seconds.isFinite s.duration && decide ((minSegment : τ) ≤ s.duration)

/-- The segment at a position, made long enough. -/
def raised (index : Nat) (s : Segment τ) : Outcome (Segment τ) :=
  if s.isLongEnough then pure s
  else
    Outcome.located index do
      Outcome.report
        (.segmentTooShort (Seconds.numeral s.duration) (Seconds.numeral (minSegment : τ)))
      return { s with duration := minSegment }

/-- The transition of a segment, fitted to the segment and to the room that the
segment before has left; none if it is too short to be seen. -/
def fittedTransition (s : Segment τ) (room : τ) (t : Transition τ) :
    Outcome (Option (Transition τ)) := do
  let wanted := boundedTransition t.duration
  if wanted != t.duration then
    Outcome.report (.transitionOutOfRange (Seconds.numeral t.duration)
      (Seconds.numeral (minTransition : τ)) (Seconds.numeral (maxTransition : τ)))
  let fit := Seconds.least (Seconds.least wanted (s.duration / 2.0)) room
  if fit < minTransition then
    Outcome.report (.transitionDropped t.kind (Seconds.numeral (Seconds.greatest fit (0.0 : τ))))
    return none
  else
    if fit < wanted then
      Outcome.report
        (.transitionShortened t.kind (Seconds.numeral wanted) (Seconds.numeral fit))
    return some { t with duration := fit }

/-- The segment at a position with its transition fitted; `room` is what the
segment before has left, if there is one. -/
def fitted (index : Nat) (room : Option τ) (s : Segment τ) : Outcome (Segment τ) :=
  Outcome.located index do
    match s.transition, room with
    | none, _ => return s
    | some _, none => do
        Outcome.report .transitionWithoutPredecessor
        return { s with transition := none }
    | some t, some room => do
        let transition ← s.fittedTransition room t
        return { s with transition := transition }

/-- Segments from a position on, made long enough. -/
def raisedAll (index : Nat) : List (Segment τ) → Outcome (List (Segment τ))
  | [] => pure []
  | s :: rest => do
      let s ← s.raised index
      let rest ← raisedAll (index + 1) rest
      return s :: rest

/-- Segments from a position on, with their transitions fitted. -/
def fittedAll (index : Nat) (room : Option τ) : List (Segment τ) → Outcome (List (Segment τ))
  | [] => pure []
  | s :: rest => do
      let s ← s.fitted index room
      let rest ← fittedAll (index + 1) (some s.remaining) rest
      return s :: rest

end Segment

namespace Timeline

/-- The first segments, as many as there may be. -/
def truncated (t : Timeline τ) : Outcome (List (Segment τ)) := do
  if maxSegments < t.segments.length then
    Outcome.report (.tooManySegments t.segments.length maxSegments)
  return t.segments.take maxSegments

/-- The timeline within its limits. -/
def normalized (t : Timeline τ) : Outcome (Timeline τ) := do
  let segments ← t.truncated
  let segments ← Segment.raisedAll 0 segments
  let segments ← Segment.fittedAll 0 none segments
  let fitted := { t with segments := segments }
  match fitted.mismatch? with
  | some m =>
      Outcome.report (.durationMismatch (Seconds.numeral m.segments) (Seconds.numeral m.target))
  | none => pure ()
  return fitted

end Timeline

end Montage
