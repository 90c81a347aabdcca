/-
# Montage.Timeline.Job -- jobs as an authoring tool stores them

A job is the loose form of a timeline: frames with their settings, names of
transitions, and paths, most of it optional.  `Job.timeline` is the timeline it
asks for.  Names of unknown effects leave a still, names of unknown transitions a
fade, and sizes or rates that will not do leave the defaults.
-/
import Montage.Timeline.Fit

namespace Montage

set_option autoImplicit false

structure JobFrame where
  /-- An identifier that nothing depends on. -/
  id : Option Nat := none
  /-- Seconds. -/
  duration : Float := 0.0
  /-- The name of a transition; blank for none. -/
  transition : Option String := none
  transitionDuration : Option Float := none
  image : Option String := none
  settings : Option Settings := none

structure Job where
  frames : List JobFrame := []
  /-- How long the whole is meant to last. -/
  duration : Option Float := none
  rate : Option Nat := none
  width : Option Nat := none
  height : Option Nat := none
  /-- The image of the scene. -/
  image : Option String := none
  /-- The narration. -/
  audio : Option String := none
  /-- Where the video goes. -/
  output : Option String := none

namespace JobFrame

/-- The kind of transition a name stands for. -/
def transitionKind (name : String) : Outcome TransitionKind :=
  match TransitionKind.parse? name with
  | some kind => pure kind
  | none => do
      Outcome.report (.unknownTransition name)
      return .fade

/-- The transition a frame asks for. -/
def transition? (f : JobFrame) : Outcome (Option (Transition Float)) :=
  match (f.transition.map trim).filter (· ≠ "") with
  | none => pure none
  | some name => do
      let kind ← transitionKind name
      return some ⟨kind, f.transitionDuration.getD defaultTransition⟩

/-- The effect a frame asks for. -/
def effect? (f : JobFrame) : Outcome (Option Effect) :=
  match f.settings with
  | none => pure none
  | some settings => settings.effect

/-- The segment a frame asks for. -/
def segment (f : JobFrame) : Outcome (Segment Float) := do
  let effect ← f.effect?
  let transition ← f.transition?
  return ⟨effect, f.duration, f.image.bind imageReference?, transition⟩

/-- The segments of frames from a position on. -/
def segments (index : Nat) : List JobFrame → Outcome (List (Segment Float))
  | [] => pure []
  | f :: rest => do
      let s ← f.segment.located index
      let rest ← segments (index + 1) rest
      return s :: rest

end JobFrame

namespace Job

/-- The timeline that a job asks for. -/
def timeline (job : Job) : Outcome (Timeline Float) := do
  let segments ← JobFrame.segments 0 job.frames
  return {
    segments := segments
    rate := (job.rate.filter (· ≠ 0)).getD defaultRate
    canvas := (Canvas.requested? job.width job.height).getD .hd
    image := job.image.bind imageReference?
    target := Seconds.finite? job.duration }

end Job

end Montage
