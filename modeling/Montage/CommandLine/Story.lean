/-
# Montage.CommandLine.Story -- the command for a story

It prints the commands that join the videos of scenes, in the order in which they
are to be run, and runs them if asked.  Videos are measured before anything is
brought to another layout, which leaves their lengths as they are.
-/
import Montage.CommandLine.Fault
import Montage.CommandLine.Request
import Montage.Media
import Montage.Render

namespace Montage.CommandLine

set_option autoImplicit false

namespace StoryRequest

/-- The merge that a request asks for, with the lengths that were measured. -/
def merge (r : StoryRequest) (lengths : List (Option Float)) : Merge where
  takes := List.zipWith Take.mk r.videos lengths
  list := r.list
  output := r.output
  normalize := r.normalize

variable {m : Type → Type} [Monad m] [Host m]

/-- How long each video is to be held open. -/
def lengths (r : StoryRequest) : m (List (Option Float)) :=
  if r.complete then r.videos.mapM Media.completion? else return r.videos.map (fun _ => none)

/-- Do what a request asks for. -/
def run (r : StoryRequest) : Attempt m Unit := do
  let merge := r.merge (← ExceptT.lift r.lengths)
  let plan ← accept merge.plan
  for command in merge.steps do
    print command.line
  print plan.command.line
  if r.toRun then
    for command in merge.steps do
      attempt command.run
    attempt plan.writeList
    attempt plan.command.run
    announce r.output

end StoryRequest

end Montage.CommandLine
