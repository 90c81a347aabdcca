/-
# Montage.Proofs.CommandLine.Story -- what the command for a story prints

Videos are measured first, and measuring changes nothing, so the lengths are those that the
machine measures from the start (`StoryRequest.held`).  From there on everything is decided.
The steps and the join are printed in their order, and whatever running them comes to, it
prints nothing more.
-/
import Montage.CommandLine.Story
import Montage.Proofs.CommandLine.Work
import Montage.Proofs.Media
import Montage.Proofs.Merge.Flow

namespace Montage

set_option autoImplicit false

namespace CommandLine

open Workspace (Silent silent_pure)

namespace StoryRequest

/-- How long a video is held open, as it is measured on a workspace. -/
def held (r : StoryRequest) (w : Workspace) (video : String) : Option Float :=
  if r.complete then w.answer (Media.completion? video) else none

theorem lengths_spec (r : StoryRequest) (w : Workspace) :
    w.answer r.lengths = r.videos.map (r.held w)
      ∧ Workspace.Asks (r.lengths : StateM Workspace (List (Option Float))) := by
  unfold lengths held
  split
  · exact ⟨Workspace.answer_mapM Workspace.asks_completion? w r.videos,
      Workspace.asks_mapM Workspace.asks_completion? r.videos⟩
  · exact ⟨rfl, Workspace.asks_pure _⟩

theorem run_prints {r : StoryRequest} {w : Workspace} {plan : MergePlan}
    (planned : (r.merge (r.videos.map (r.held w))).plan = .ok plan) :
    (w.after (r.run : Working Unit).run).printed = w.printed
      ++ ((r.merge (r.videos.map (r.held w))).steps ++ [plan.command]).map Command.line := by
  obtain ⟨answer, asks⟩ := r.lengths_spec w
  obtain ⟨calls, measured⟩ := run_asks asks w
  rw [answer] at measured
  show ((r.run : Working Unit).run.run w).2.printed = _
  unfold run
  rw [run_bind_ok measured]
  dsimp only
  generalize r.merge (r.videos.map (r.held w)) = merge at planned ⊢
  -- What is done with a merge once its commands are printed.
  have quiet : Silent (if r.toRun = true then do
        forIn merge.steps PUnit.unit fun command _ => do
          attempt command.run
          pure (.yield PUnit.unit)
        attempt plan.writeList
        attempt plan.command.run
        announce r.output
      else pure () : Working Unit).run := by
    split
    · refine (silent_commands merge.steps).bindExcept fun _ => ?_
      refine (silent_attempt (Workspace.silent_writeList plan)).bindExcept fun _ => ?_
      refine (silent_attempt (Workspace.silent_run plan.command)).bindExcept fun _ => ?_
      intro w
      rfl
    · exact silent_pure _
  rw [run_bind_ok (run_accept_ok planned), run_bind_ok (run_lines _ _), run_bind_ok (run_print _ _),
    printing_append]
  exact (quiet _).trans (by simp [printing])

/-- How long a request holds a video open: as long as the longer of its two streams, as
they are measured on a workspace. -/
structure Holds (r : StoryRequest) (w : Workspace) (video : String) (length : Float) : Prop where
  wanted : r.complete = true
  positive : 0.0 < length
  longer : ∃ s : Media.Streams,
    w.answer (Media.streams video : Workspace.Failing Media.Streams).run = .ok s
      ∧ length = s.longest ∧ (length = s.picture ∨ length = s.sound)
      ∧ s.picture ≤ length ∧ s.sound ≤ length

theorem held_iff {r : StoryRequest} {w : Workspace} {video : String} {length : Float} :
    r.held w video = some length ↔ r.Holds w video length := by
  unfold held
  split
  · rename_i wanted
    rw [Media.completion?_eq_some_iff]
    constructor
    · rintro ⟨s, measured, rfl, positive⟩
      obtain ⟨picture, sound⟩ := Media.streams_finite measured
      obtain ⟨one, bounds⟩ := Media.longest_spec picture sound
      exact ⟨wanted, positive, s, measured, rfl, one, bounds⟩
    · rintro ⟨-, positive, s, measured, longest, -⟩
      exact ⟨s, measured, longest, positive⟩
  · rename_i unwanted
    constructor
    · intro none
      cases none
    · intro holds
      exact absurd holds.wanted unwanted

/-- The merge that a request comes to on a workspace. -/
def story (r : StoryRequest) (w : Workspace) : Merge := r.merge (r.videos.map (r.held w))

theorem story_takes (r : StoryRequest) (w : Workspace) :
    (r.story w).takes = r.videos.map fun v => ⟨v, r.held w v⟩ := by
  show List.zipWith Take.mk r.videos (r.videos.map (r.held w)) = _
  rw [List.zipWith_map_right, List.zipWith_self]

theorem run_flows {r : StoryRequest} (some : r.videos ≠ []) (w : Workspace) :
    ∃ plan, (r.story w).plan = .ok plan
      ∧ (r.story w).takes = (r.videos.map fun v => ⟨v, r.held w v⟩)
      ∧ (∀ video length, r.held w video = Option.some length ↔ r.Holds w video length)
      ∧ (r.story w).Flows plan
      ∧ (w.after (r.run : Working Unit).run).printed
        = w.printed ++ ((r.story w).steps ++ [plan.command]).map Command.line := by
  have takes : (r.story w).takes ≠ [] := by
    rw [story_takes]
    simpa using some
  obtain ⟨plan, planned, flows⟩ := Merge.plan_flows takes
  exact ⟨plan, planned, r.story_takes w, fun _ _ => held_iff, flows, run_prints planned⟩

/-- Two videos of which only one is there. -/
def narrated : StoryRequest where
  videos := ["s1.mp4", "s2.mp4"]
  list := defaultList
  output := "story.mp4"
  normalize := true
  complete := true
  toRun := true

/-- A workspace with one video, whose narration outlasts its pictures. -/
def measured : Workspace where
  entries := [(["work".toList, "s1.mp4".toList], .file ""), (["work".toList], .directory)]
  tools := [("ffprobe", fun args => ⟨0, if "a:0" ∈ args then "6.5\n" else "4\n", ""⟩)]

theorem narrated_flows :
    narrated.held measured "s1.mp4" = some 6.5 ∧ narrated.held measured "s2.mp4" = none
      ∧ narrated.videos ≠ []
      ∧ ∃ plan, (narrated.story measured).plan = .ok plan
        ∧ (narrated.story measured).Flows plan
        ∧ (measured.after (narrated.run : Working Unit).run).printed
          = ((narrated.story measured).steps ++ [plan.command]).map Command.line := by
  refine ⟨by decide +kernel, by decide +kernel, by simp [narrated], ?_⟩
  obtain ⟨plan, planned, -, -, flows, printed⟩ := run_flows (r := narrated) (by simp [narrated]) measured
  exact ⟨plan, planned, flows, printed⟩

/-- A video that is written where the story goes. -/
def clashing : StoryRequest where
  videos := ["a.mp4"]
  list := defaultList
  output := "normalized_0.mp4"
  normalize := true
  complete := false
  toRun := false

/-- Two of the commands that it prints write to one path. -/
theorem clashing_clashes :
    ∃ plan, (clashing.story {}).plan = .ok plan
      ∧ (Workspace.after {} (clashing.run : Working Unit).run).printed
        = ((clashing.story {}).steps ++ [plan.command]).map Command.line
      ∧ ((clashing.story {}).steps ++ [plan.command]).map Command.output
        = ["normalized_0.mp4", "normalized_0.mp4"] := by
  refine ⟨_, rfl, ?_, ?_⟩
  · exact run_prints rfl
  · decide +kernel

end StoryRequest

end CommandLine

end Montage
