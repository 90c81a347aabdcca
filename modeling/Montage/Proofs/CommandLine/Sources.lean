/-
# Montage.Proofs.CommandLine.Sources -- whether a story leaves its videos as they were

What is done for a story writes over a video only where that has the name of a file in
between, in the directory of the list, or where the request sends the list or the story itself.
Nothing looks for such names, so a video can have one (`resumed_overwrites`).
-/
import Montage.Proofs.CommandLine.Story
import Montage.Proofs.Merge.Sources

namespace Montage

set_option autoImplicit false

namespace CommandLine

open Montage.Path (placeFrom)

namespace StoryRequest

/-- **A story spares its videos** but those that have the name of a file in between. -/
theorem run_spares {r : StoryRequest} (some : r.videos ≠ []) (w : Workspace) :
    ∃ plan, (r.story w).plan = .ok plan
      ∧ (w.after (r.run : Working Unit).run).printed
        = w.printed ++ ((r.story w).steps ++ [plan.command]).map Command.line
      ∧ (r.story w).takes = (r.videos.map fun v => ⟨v, r.held w v⟩)
      ∧ (r.story w).Spares w.here plan := by
  have takes : (r.story w).takes ≠ [] := by
    rw [story_takes]
    simpa using some
  obtain ⟨plan, planned, spares⟩ := Merge.plan_spares takes w.here
  exact ⟨plan, planned, run_prints planned, r.story_takes w, spares⟩

/-- Two videos with a directory for what comes between; one of them has a name of that kind, but
not in that directory. -/
def tidy : StoryRequest where
  videos := ["s1.mp4", "normalized_1.mp4"]
  list := "scratch/list.txt"
  output := "story.mp4"
  normalize := true
  complete := true
  toRun := true

theorem tidy_spares :
    tidy.videos ≠ []
      ∧ (∀ video ∈ tidy.videos, ¬ (tidy.story measured).Reserves measured.here video
          ∧ placeFrom measured.here tidy.list ≠ placeFrom measured.here video
          ∧ placeFrom measured.here tidy.output ≠ placeFrom measured.here video)
      ∧ ∃ plan, (tidy.story measured).plan = .ok plan ∧ (tidy.story measured).steps.length = 3
        ∧ ∀ (κ : Type) (encode : Command → List (Option κ) → κ) (files : Place → Option κ)
          (list : κ), ∀ video ∈ tidy.videos,
            plan.finish encode measured.here (tidy.story measured).steps list files
              (placeFrom measured.here video) = files (placeFrom measured.here video) := by
  have apart : ∀ video ∈ tidy.videos,
      placeFrom measured.here tidy.list ≠ placeFrom measured.here video
        ∧ placeFrom measured.here tidy.output ≠ placeFrom measured.here video := by decide +kernel
  have free : ∀ video ∈ tidy.videos, ¬ (tidy.story measured).Reserves measured.here video := by
    -- What comes between lies one level deeper than the videos do.
    have level : ∀ video ∈ tidy.videos, (placeFrom measured.here video).length
        = (placeFrom measured.here (tidy.story measured).directory).length := by decide +kernel
    rintro video member ⟨stage, i, _, -, -, same⟩
    have longer := congrArg List.length same
    rw [level video member] at longer
    simp at longer
  obtain ⟨plan, planned, -, -, spares⟩ := run_spares (r := tidy) (by simp [tidy]) measured
  refine ⟨by simp [tidy], fun video member => ⟨free video member, apart video member⟩, plan,
    planned, by decide +kernel, ?_⟩
  intro κ encode files list video member
  obtain ⟨shelf, output⟩ := apart video member
  exact spares.ends video (free video member) shelf output κ encode files list

/-- A story that is made again, of a video and of what it was made into the last time. -/
def resumed : StoryRequest where
  videos := ["a.mp4", "normalized_0.mp4"]
  list := defaultList
  output := "story.mp4"
  normalize := true
  complete := false
  toRun := false

/-- The first command writes over the second video, which is read only then. -/
theorem resumed_overwrites :
    ∃ plan first second, (resumed.story {}).plan = .ok plan
      ∧ (resumed.story {}).steps = [first, second]
      ∧ (Workspace.after {} (resumed.run : Working Unit).run).printed
        = [first, second, plan.command].map Command.line
      ∧ first.encoding.overwrite = true
      ∧ first.output = "normalized_0.mp4" ∧ "normalized_0.mp4" ∈ resumed.videos
      ∧ second.inputs = [.media "normalized_0.mp4"] := by
  refine ⟨_, _, _, rfl, rfl, run_prints rfl, rfl, ?_, ?_, ?_⟩
  · decide +kernel
  · decide
  · decide +kernel

end StoryRequest

end CommandLine

end Montage
