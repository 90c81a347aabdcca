/-
# Montage.CommandLine.Timeline -- the command for a timeline

It prints the graph of a timeline, or the command that renders it if its output
has a name, and runs that if asked.  What the command line says goes before what
the job says, and that before what follows from the identifier of a scene.

A job that does not say how long the whole is to last is as long as its
narration, if that can be measured, and else as long as its segments.
-/
import Montage.CommandLine.Scene
import Montage.Json.Codec
import Montage.Json.Timeline

namespace Montage.CommandLine

set_option autoImplicit false

namespace TimelineRequest

/-- The files of the scene that a timeline belongs to, if it is named. -/
def files? (r : TimelineRequest) : Option SceneFiles := sceneFiles? r.directory r.scene

/-- A job with what the command line says in place of what it says itself. -/
def amended (r : TimelineRequest) (job : Job) : Job :=
  { job with
    width := r.width <|> job.width
    height := r.height <|> job.height
    rate := r.rate <|> job.rate
    image := r.image <|> job.image <|> r.files?.map SceneFiles.image }

/-- The narration of a job. -/
def audio? (r : TimelineRequest) (job : Job) : Option String :=
  r.audio <|> job.audio <|> r.files?.map SceneFiles.narration

def output? (r : TimelineRequest) (job : Job) : Option String :=
  r.output <|> job.output <|> r.files?.map SceneFiles.multiframeVideo

end TimelineRequest

/-- A job that lasts as long as was measured, unless it says itself how long. -/
def lasting (job : Job) (measured : Option Float) : Job :=
  { job with duration := job.duration <|> measured }

/-- The timeline of a job, given the length of its narration where it was measured. -/
def timelineOf (job : Job) (measured : Option Float) : Timeline Float :=
  (lasting job measured).timeline.value

variable {m : Type → Type} [Monad m] [Host m]

/-- The length of a narration, if there is one and a job does not say itself how
long it lasts. -/
def jobNarration? (job : Job) (audio : Option String) : m (Option Float) :=
  match job.duration, audio with
  | none, some path => Media.length? path
  | _, _ => return none

/-- Print the command that renders a compiled timeline, and run it if asked. -/
def TimelineRequest.render (r : TimelineRequest) (compiled : Compiled Float)
    (audio : Option String) (output : String) : Attempt m Unit := do
  let command ← accept (compiled.command audio output .timeline)
  if !r.json then print command.line
  if r.toRun then
    attempt command.run
    announce command.output

/-- Do what a request asks for. -/
def TimelineRequest.run (r : TimelineRequest) : Attempt m Unit := do
  let job := r.amended (← readDocument .job Job.ofJson? r.job)
  let audio := r.audio? job
  let measured ← ExceptT.lift (jobNarration? job audio)
  let compiled ← accept ((timelineOf job measured).compile audio.isSome)
  if r.json then print (Json.Codec.pretty.write Compiled.toJson compiled)
  match r.output? job with
  | some output => r.render compiled audio output
  | none =>
      if !r.json then print compiled.graph.text
      if r.toRun then throw .outputUnnamed

end Montage.CommandLine
