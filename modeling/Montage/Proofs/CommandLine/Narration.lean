/-
# Montage.Proofs.CommandLine.Narration -- what the length of a narration counts for

A scene and a timeline last as long as they say, or else as long as their narration.  Whether
a narration is measured is decided by what is said, but whether that is followed is decided by
whether it can be used.  So a length that is said and cannot be used is not followed, and yet
it keeps the narration from being measured (`heard`): then, and only then, a narration that
could have been measured counts for nothing (`narration_counts`).
-/
import Montage.CommandLine.Timeline
import Montage.Proofs.Command.Feed
import Montage.Proofs.CommandLine.Work
import Montage.Proofs.Media

namespace Montage

set_option autoImplicit false

theorem Seconds.usable?_finite? {τ : Type} [Seconds τ] (length : Option τ) :
    usable? (finite? length) = usable? length := by
  unfold usable? finite?
  rw [Option.filter_filter]
  congr 1
  funext t
  unfold isUsable
  cases isFinite t <;> rfl

namespace CommandLine

open Workspace (Silent silent_pure)

/-! ## What goes before what -/

/-- A length that is said if it can be used, or else that of a narration, or else another. -/
def lengthOf (said narration : Option Float) (other : Float) : Float :=
  (Seconds.usable? said).getD (narration.getD other)

/-- What is heard of the length that a narration measures: nothing, once a length is said. -/
def heard (said measured : Option Float) : Option Float :=
  if said.isSome then none else measured

/-- A length that is said but cannot be used. -/
def Misstated (said : Option Float) : Prop :=
  ∃ length, said = some length ∧ Seconds.isUsable length = false

section

variable {length : Float} (narration : Option Float) (other : Float)

theorem lengthOf_of_usable (usable : Seconds.isUsable length = true) :
    lengthOf (some length) narration other = length := by
  rw [lengthOf, Seconds.usable?, Option.filter_some_pos usable, Option.getD_some]

theorem lengthOf_of_useless (useless : Seconds.isUsable length = false) :
    lengthOf (some length) narration other = narration.getD other := by
  rw [lengthOf, Seconds.usable?, Option.filter_some_neg useless, Option.getD_none]

end

/-- Not hearing a narration makes a difference where what is said cannot be used instead. -/
theorem lengthOf_heard_iff (said measured : Option Float) (other : Float) :
    lengthOf said (heard said measured) other = lengthOf said measured other
      ↔ ¬ (Misstated said ∧ ∃ length, measured = some length ∧ length ≠ other) := by
  cases said with
  | none => simp [heard, Misstated]
  | some said =>
      cases usable : Seconds.isUsable said with
      | true =>
          rw [lengthOf_of_usable _ _ usable, lengthOf_of_usable _ _ usable]
          simp [Misstated, usable]
      | false =>
          rw [lengthOf_of_useless _ _ usable, lengthOf_of_useless _ _ usable]
          have misstated : Misstated (some said) := ⟨said, rfl, usable⟩
          cases measured with
          | none => simp [heard]
          | some length => simp [heard, misstated, eq_comm]

/-! ## Scenes -/

namespace SceneRequest

/-- What the length of a clip falls back on: what the command line gives, as far as it can be
used, or else the narration. -/
def standIn (given narration : Option Float) : Option Float :=
  if given.isSome then Seconds.usable? given else narration

/-- How long the clip of a scene lasts, given the length of its narration. -/
def lasting (r : SceneRequest) (settings : Settings) (narration : Option Float) : Float :=
  lengthOf settings.duration (standIn r.duration narration) Clip.defaultDuration

/-- The clip of a scene of a given length. -/
def clipOf (r : SceneRequest) (settings : Settings) (canvas : Canvas) (length : Float) :
    Clip Float :=
  { r.clip settings none canvas r.rate with duration := length }

/-- The lines that are printed for a clip: its filter if it moves, or the command that makes it. -/
def lines (r : SceneRequest) (settings : Settings) (files : SceneFiles) (clip : Clip Float) :
    List String :=
  let filter := (Motion.sceneFilter clip settings).value
  if !r.command && !r.toRun then filter.toList
  else [(Command.ofScene files.image files.narration filter clip.rate files.video).line]

variable {r : SceneRequest} {settings : Settings} {files : SceneFiles} {canvas : Canvas}

/-- A clip that falls back on what cannot be used has the standard length. -/
theorem baseLength_sanitized {measured : Option Float}
    (usable : ∀ length, measured = some length → Seconds.isUsable length = true) :
    (if Seconds.isUsable (baseLength r.duration measured) then baseLength r.duration measured
        else Clip.defaultDuration)
      = (standIn r.duration measured).getD Clip.defaultDuration := by
  unfold baseLength
  cases r.duration with
  | some given =>
      show (if Seconds.isUsable given then given else _) = (Seconds.usable? (some given)).getD _
      rw [Seconds.usable?, Option.filter_some]
      split <;> rfl
  | none =>
      cases measured with
      | none => rfl
      | some length => exact if_pos (usable length rfl)

/-- A clip lasts as long as it is to last with what is heard of its narration. -/
theorem clip_heard {measured : Option Float}
    (usable : ∀ length, measured = some length → Seconds.isUsable length = true) :
    r.clip settings (if r.needsNarration settings then measured else none) canvas r.rate
      = r.clipOf settings canvas (r.lasting settings (heard settings.duration measured)) := by
  let asked := if r.needsNarration settings then measured else none
  -- What is not asked for is not heard, or else the command line goes before it.
  have alike : standIn r.duration asked = standIn r.duration (heard settings.duration measured) := by
    cases given : r.duration with
    | some given => rfl
    | none =>
        cases said : settings.duration <;>
          simp [asked, standIn, heard, needsNarration, given, said]
  have usable : ∀ length, asked = some length → Seconds.isUsable length = true := by
    intro length known
    refine usable length ?_
    by_cases needed : r.needsNarration settings = true
    · rwa [show asked = measured from if_pos needed] at known
    · rw [show asked = none from if_neg needed] at known
      cases known
  have length : (r.clip settings asked canvas r.rate).duration
      = r.lasting settings (heard settings.duration measured) := by
    rw [lasting, lengthOf, ← alike, ← baseLength_sanitized usable]
    show (if Seconds.isUsable ((Seconds.usable? settings.duration).getD _) then _ else _) = _
    cases said : Seconds.usable? settings.duration with
    | some length => exact if_pos (Option.filter_eq_some_iff.mp said).2
    | none => rfl
  show r.clip settings asked canvas r.rate = _
  rw [clipOf, ← length]
  rfl

/-- The narration of a scene is measured where it is needed. -/
theorem narration?_spec (r : SceneRequest) (settings : Settings) (w : Workspace)
    (named : sceneFiles? r.directory r.scene = some files) :
    w.answer (r.narration? settings)
        = (if r.needsNarration settings then w.answer (Media.length? files.narration) else none)
      ∧ Workspace.Asks (r.narration? settings : StateM Workspace (Option Float)) := by
  unfold narration?
  rw [named]
  dsimp only
  split
  · exact ⟨rfl, Workspace.asks_length? _⟩
  · exact ⟨rfl, Workspace.asks_pure _⟩

theorem run_prints {w : Workspace}
    (reads : w.document? Settings.ofJson? r.settings = some settings)
    (sized : r.canvas = .ok canvas) (runs : r.rate ≠ 0)
    (named : sceneFiles? r.directory r.scene = some files) :
    (w.after (r.run : Working Unit).run).printed = w.printed
      ++ r.lines settings files (r.clipOf settings canvas
        (r.lasting settings (heard settings.duration (w.answer (Media.length? files.narration))))) := by
  obtain ⟨answer, asks⟩ := r.narration?_spec settings w named
  obtain ⟨calls, measured⟩ := run_asks asks w
  have rate : checkedRate r.rate = .ok r.rate := if_neg runs
  rw [← clip_heard fun _ => Media.usable_of_length?, ← answer]
  show ((r.run : Working Unit).run.run w).2.printed = _
  unfold run
  rw [run_bind_ok (run_readDocument _ reads), run_bind_ok (run_accept_ok sized), run_bind_ok measured,
    run_bind_ok (run_accept_ok rate)]
  dsimp only
  generalize r.clip settings (w.answer (r.narration? settings)) canvas r.rate = clip
  unfold lines
  rw [named]
  generalize (Motion.sceneFilter clip settings).value = filter
  split
  · cases filter with
    | none => exact (List.append_nil _).symm
    | some chain => rfl
  · dsimp only
    rw [run_bind_ok (run_print _ _)]
    exact silent_rendering _ _ _

end SceneRequest

/-! ## Timelines -/

namespace TimelineRequest

/-- The command that renders a compiled timeline together with its narration. -/
def rendering (c : Compiled Float) (audio output : String) : Command where
  inputs := Source.ofMedia c.images (some audio)
  filter := some (.graph c.graph)
  encoding := .timeline
  duration := some c.total
  shortest := true
  output := output

/-- The line that is printed for a compiled timeline: its data, or the command that renders it
if its output has a name, or else its graph. -/
def line (r : TimelineRequest) (job : Job) (audio : String) (c : Compiled Float) : String :=
  if r.json then c.toJson.pretty
  else match r.output? job with
    | some output => (rendering c audio output).line
    | none => c.graph.text

/-- How long a timeline lasts, given the length of its narration. -/
def lasting (r : TimelineRequest) (job : Job) (narration : Option Float) : Float :=
  lengthOf job.duration narration (r.amended job).timeline.value.normalized.value.segmentSum

variable {r : TimelineRequest} {job : Job} {audio : String}

theorem command_timelineOf {measured : Option Float} {c : Compiled Float}
    (compiled : (timelineOf job measured).compile true = .ok c) (output : String) :
    c.command (some audio) output .timeline = .ok (rendering c audio output) := by
  obtain ⟨-, pieces, -, -, rfl⟩ := Timeline.exists_pieces compiled
  exact Timeline.command_compiledOf _ pieces (some audio) output .timeline

/-- The segments do not depend on how long the whole is meant to last. -/
theorem segmentSum_timelineOf (job : Job) (measured : Option Float) :
    (timelineOf job measured).normalized.value.segmentSum
      = job.timeline.value.normalized.value.segmentSum := by
  rw [Timeline.normalized_value, Timeline.normalized_value]
  rfl

/-- A timeline lasts as long as it is to last with what is heard of its narration. -/
theorem total_timelineOf {measured : Option Float} {c : Compiled Float}
    (usable : ∀ length, measured = some length → Seconds.isUsable length = true)
    (compiled : (timelineOf (r.amended job) (heard job.duration measured)).compile true = .ok c) :
    c.total = r.lasting job (heard job.duration measured) := by
  obtain ⟨-, pieces, -, -, rfl⟩ := Timeline.exists_pieces compiled
  show (Seconds.usable? (timelineOf (r.amended job) _).normalized.value.target).getD _ = _
  rw [segmentSum_timelineOf, Timeline.normalized_value, lasting, lengthOf]
  show (Seconds.usable? (Seconds.finite? (job.duration <|> heard job.duration measured))).getD _ = _
  rw [Seconds.usable?_finite?]
  cases job.duration with
  | some said => rfl
  | none =>
      cases measured with
      | none => rfl
      | some length =>
          show (Seconds.usable? (some length)).getD _ = length
          rw [Seconds.usable?, Option.filter_some_pos (usable length rfl), Option.getD_some]

/-- The narration of a timeline is measured where it is heard. -/
theorem jobNarration?_spec (job : Job) (audio : String) (w : Workspace) :
    w.answer (jobNarration? job (some audio)) = heard job.duration (w.answer (Media.length? audio))
      ∧ Workspace.Asks (jobNarration? job (some audio) : StateM Workspace (Option Float)) := by
  unfold jobNarration? heard
  cases job.duration with
  | some said => exact ⟨rfl, Workspace.asks_pure _⟩
  | none => exact ⟨rfl, Workspace.asks_length? _⟩

/-- What is done with a compiled timeline. -/
def deliver (r : TimelineRequest) (job : Job) (audio : String) (c : Compiled Float) :
    Working Unit := do
  if r.json then print c.toJson.pretty
  match r.output? job with
  | some output => r.render c (some audio) output
  | none =>
      if !r.json then print c.graph.text
      if r.toRun then throw .outputUnnamed

theorem deliver_prints (w : Workspace) {c : Compiled Float}
    (commanded : ∀ output, c.command (some audio) output .timeline = .ok (rendering c audio output)) :
    (w.after (r.deliver job audio c).run).printed = w.printed ++ [r.line job audio c] := by
  show ((r.deliver job audio c).run.run w).2.printed = _
  have unnamed : Silent (if r.toRun = true then throw .outputUnnamed else pure () : Working Unit).run := by
    split <;> exact fun _ => rfl
  unfold deliver line render
  cases r.json <;> cases r.output? job <;> dsimp only
  case true.none =>
    rw [if_pos rfl, if_pos rfl, run_bind_ok (run_print _ _)]
    exact unnamed _
  case true.some output =>
    rw [if_pos rfl, if_pos rfl, run_bind_ok (run_print _ _),
      run_bind_ok (run_accept_ok (commanded output))]
    exact silent_rendering _ _ _
  case false.none =>
    rw [if_neg Bool.false_ne_true, if_neg Bool.false_ne_true, if_pos Bool.not_false,
      run_bind_ok (run_print _ _)]
    exact unnamed _
  case false.some output =>
    rw [if_neg Bool.false_ne_true, if_neg Bool.false_ne_true,
      run_bind_ok (run_accept_ok (commanded output)), if_pos Bool.not_false,
      run_bind_ok (run_print _ _)]
    exact silent_rendering _ _ _

/-- A request with a narration comes to its timeline, and then to what is done with that. -/
theorem run_compiles {w : Workspace} (reads : w.document? Job.ofJson? r.job = some job)
    (narrated : r.audio? (r.amended job) = some audio) :
    ∃ calls, (r.run : Working Unit).run.run w
      = (accept ((timelineOf (r.amended job)
            (heard job.duration (w.answer (Media.length? audio)))).compile true)
          >>= r.deliver (r.amended job) audio : Working Unit).run.run { w with calls := calls } := by
  obtain ⟨answer, asks⟩ := jobNarration?_spec (r.amended job) audio w
  obtain ⟨calls, measured⟩ := run_asks asks w
  rw [answer] at measured
  refine ⟨calls, ?_⟩
  unfold run
  rw [run_bind_ok (run_readDocument _ reads)]
  dsimp only
  rw [narrated, run_bind_ok measured]
  rfl

/-- A request with a narration prints one line for what its timeline compiles to, and nothing
if that fails. -/
theorem run_prints {w : Workspace} (reads : w.document? Job.ofJson? r.job = some job)
    (narrated : r.audio? (r.amended job) = some audio) :
    match (timelineOf (r.amended job)
        (heard job.duration (w.answer (Media.length? audio)))).compile true with
    | .error f => w.answer (r.run : Working Unit).run = .error (.failure f)
        ∧ (w.after (r.run : Working Unit).run).printed = w.printed
    | .ok c => (w.after (r.run : Working Unit).run).printed
        = w.printed ++ [r.line (r.amended job) audio c] := by
  obtain ⟨calls, comes⟩ := run_compiles reads narrated
  split
  · rename_i f failed
    rw [run_bind_error (run_accept_error failed)] at comes
    exact ⟨congrArg (·.1) comes, congrArg (·.2.printed) comes⟩
  · rename_i c compiled
    rw [run_bind_ok (run_accept_ok compiled)] at comes
    exact (congrArg (·.2.printed) comes).trans (deliver_prints _ (command_timelineOf compiled))

end TimelineRequest

/-- **When a narration counts.**  What is printed for a scene is of a clip, and what is printed
for a timeline is of a graph, that lasts as long as it is to last with what is heard of its
narration, whatever the narration measures or whether it measures at all.  That is as long as it
is to last with all that the narration measures, unless a length is said that cannot be used. -/
theorem narration_counts (w : Workspace) :
    (∀ (r : SceneRequest) (settings : Settings) (files : SceneFiles) (canvas : Canvas),
      w.document? Settings.ofJson? r.settings = some settings →
      sceneFiles? r.directory r.scene = some files → r.canvas = .ok canvas → r.rate ≠ 0 →
      let measured := w.answer (Media.length? files.narration)
      let length := r.lasting settings (heard settings.duration measured)
      (w.after (r.run : Working Unit).run).printed
          = w.printed ++ r.lines settings files (r.clipOf settings canvas length)
        ∧ (length = r.lasting settings measured
          ↔ ¬ (r.duration = none ∧ Misstated settings.duration
            ∧ ∃ seconds, measured = some seconds ∧ seconds ≠ Clip.defaultDuration)))
    ∧ ∀ (r : TimelineRequest) (job : Job) (audio : String),
      w.document? Job.ofJson? r.job = some job → r.audio? (r.amended job) = some audio →
      let measured := w.answer (Media.length? audio)
      let sum := (r.amended job).timeline.value.normalized.value.segmentSum
      match (timelineOf (r.amended job) (heard job.duration measured)).compile true with
      | .error f => w.answer (r.run : Working Unit).run = .error (.failure f)
          ∧ (w.after (r.run : Working Unit).run).printed = w.printed
      | .ok c => (w.after (r.run : Working Unit).run).printed
            = w.printed ++ [r.line (r.amended job) audio c]
          ∧ c.total = r.lasting job (heard job.duration measured)
          ∧ (c.total = r.lasting job measured
            ↔ ¬ (Misstated job.duration ∧ ∃ seconds, measured = some seconds ∧ seconds ≠ sum)) := by
  constructor
  · intro r settings files canvas reads named sized runs measured length
    refine ⟨SceneRequest.run_prints reads sized runs named, ?_⟩
    unfold length SceneRequest.lasting
    cases r.duration with
    | some given => simp [SceneRequest.standIn]
    | none => simpa [SceneRequest.standIn] using lengthOf_heard_iff settings.duration measured _
  · intro r job audio reads narrated measured sum
    have prints := TimelineRequest.run_prints reads narrated
    split
    · rename_i f failed
      rw [failed] at prints
      exact prints
    · rename_i c compiled
      rw [compiled] at prints
      have total := TimelineRequest.total_timelineOf (fun _ => Media.usable_of_length?) compiled
      refine ⟨prints, total, ?_⟩
      rw [total]
      exact lengthOf_heard_iff job.duration measured sum

/-- A workspace with settings, a job, and a narration of eight seconds. -/
def narrated (settings job : String) : Workspace where
  entries := [(["work".toList, "settings.json".toList], .file settings),
    (["work".toList, "job.json".toList], .file job), (["work".toList, "1.mp3".toList], .file ""),
    (["work".toList], .directory)]
  tools := [(Media.prober, fun _ => ⟨0, "8\n", ""⟩)]

/-- The filter of the first scene. -/
def firstScene : SceneRequest where
  settings := "settings.json"
  duration := none
  preset := .hd720
  width := none
  height := none
  rate := 25
  directory := none
  scene := some "1"
  command := false
  toRun := false

/-- The graph of the timeline of the first scene. -/
def firstTimeline : TimelineRequest where
  job := "job.json"
  image := some "1.png"
  audio := some "1.mp3"
  output := none
  width := none
  height := none
  rate := none
  directory := none
  scene := none
  json := false
  toRun := false

def zooming (duration : Option Float) : Settings where
  label := "Ken Burns"
  direction := some (.one "zoom-in")
  duration := duration

/-- A single still of two seconds. -/
def brief (duration : Option Float) : Job where
  frames := [{ duration := 2.0 }]
  duration := duration

def firstFiles : SceneFiles := ⟨"", "1"⟩

theorem unsaid_counts :
    ∃ w : Workspace, w.document? Settings.ofJson? firstScene.settings = some (zooming none)
      ∧ w.document? Job.ofJson? firstTimeline.job = some (brief none)
      ∧ (w.after (firstScene.run : Working Unit).run).printed
        = firstScene.lines (zooming none) firstFiles (firstScene.clipOf (zooming none) .hd 8.0)
      ∧ ∃ c, (timelineOf (firstTimeline.amended (brief none)) (some 8.0)).compile true = .ok c
        ∧ c.total = 8.0
        ∧ (w.after (firstTimeline.run : Working Unit).run).printed = [c.graph.text] := by
  let w := narrated "\x7b\"type\": \"Ken Burns\", \"direction\": \"zoom-in\"\x7d"
    "\x7b\"frames\": [\x7b\"duration\": 2\x7d]\x7d"
  have settings : w.document? Settings.ofJson? firstScene.settings = some (zooming none) := rfl
  have job : w.document? Job.ofJson? firstTimeline.job = some (brief none) := rfl
  have measured : w.answer (Media.length? "1.mp3") = some 8.0 := by decide +kernel
  obtain ⟨scene, timeline⟩ := narration_counts w
  obtain ⟨c, compiled⟩ := (timelineOf (firstTimeline.amended (brief none)) (some 8.0)).exists_compile
    true (by decide +kernel) (by decide +kernel)
  refine ⟨w, settings, job, ?_, c, compiled, ?_⟩
  · obtain ⟨printed, -⟩ := scene firstScene (zooming none) firstFiles .hd settings rfl rfl (by decide)
    have narration : firstFiles.narration = "1.mp3" := by decide
    have length : firstScene.lasting (zooming none) (heard none (some 8.0)) = 8.0 := by decide +kernel
    rw [narration, measured] at printed
    rw [printed, ← length]
    rfl
  · have counts := timeline firstTimeline (brief none) "1.mp3" job rfl
    dsimp only at counts
    rw [measured] at counts
    have compiled : (timelineOf (firstTimeline.amended (brief none))
        (heard (brief none).duration (some 8.0))).compile true = .ok c := compiled
    rw [compiled] at counts
    obtain ⟨printed, total, -⟩ := counts
    refine ⟨?_, printed⟩
    rw [total]
    decide +kernel

/-- Where the settings and the job say a length of zero seconds, a narration of eight is there
to be measured, and counts for nothing. -/
theorem zero_silences :
    ∃ w : Workspace, w.document? Settings.ofJson? firstScene.settings = some (zooming (some 0.0))
      ∧ w.document? Job.ofJson? firstTimeline.job = some (brief (some 0.0))
      ∧ w.answer (Media.length? "1.mp3") = some 8.0
      ∧ firstScene.lasting (zooming (some 0.0)) (some 8.0) = 8.0
      ∧ (w.after (firstScene.run : Working Unit).run).printed
        ≠ firstScene.lines (zooming (some 0.0)) firstFiles
          (firstScene.clipOf (zooming (some 0.0)) .hd 8.0)
      ∧ firstTimeline.lasting (brief (some 0.0)) (some 8.0) = 8.0
      ∧ ∃ c, (w.after (firstTimeline.run : Working Unit).run).printed = [c.graph.text]
        ∧ (timelineOf (firstTimeline.amended (brief (some 0.0))) none).compile true = .ok c
        ∧ c.total = 2.0 := by
  let w := narrated "\x7b\"type\": \"Ken Burns\", \"direction\": \"zoom-in\", \"duration\": 0\x7d"
    "\x7b\"frames\": [\x7b\"duration\": 2\x7d], \"totalDuration\": 0\x7d"
  have settings : w.document? Settings.ofJson? firstScene.settings = some (zooming (some 0.0)) := rfl
  have job : w.document? Job.ofJson? firstTimeline.job = some (brief (some 0.0)) := rfl
  obtain ⟨c, compiled⟩ := (timelineOf (firstTimeline.amended (brief (some 0.0))) none).exists_compile
    true (by decide +kernel) (by decide +kernel)
  refine ⟨w, settings, job, by decide +kernel, by decide +kernel, ?_, by decide +kernel, c, ?_,
    compiled, ?_⟩
  · have named : sceneFiles? firstScene.directory firstScene.scene = some firstFiles := rfl
    rw [SceneRequest.run_prints settings rfl (by decide) named]
    decide +kernel
  · have known : firstTimeline.audio? (firstTimeline.amended (brief (some 0.0))) = some "1.mp3" := rfl
    have printed := TimelineRequest.run_prints job known
    have compiled : (timelineOf (firstTimeline.amended (brief (some 0.0)))
        (heard (brief (some 0.0)).duration (w.answer (Media.length? "1.mp3")))).compile true = .ok c :=
      compiled
    rw [compiled] at printed
    exact printed
  · obtain ⟨-, pieces, -, -, rfl⟩ := Timeline.exists_pieces compiled
    show (timelineOf (firstTimeline.amended (brief (some 0.0))) none).normalized.value.total = 2.0
    decide +kernel

end CommandLine

end Montage
