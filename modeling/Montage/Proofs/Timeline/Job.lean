/-
# Montage.Proofs.Timeline.Job -- whatever a job says, it compiles

A job is as loose as people leave it, and two things only can keep it from becoming a
video: it has no frames, or it has no image.  Everything else is repaired on the way, by
the timeline it asks for, by the limits, or piece by piece, and each repair is reported.

What is reported of a compiled timeline belongs to a segment that is left, or to the
timeline as a whole.  Of the latter there is at most the number of segments, and whether
they add up to the target, which is reported exactly if the result says so too.
-/
import Montage.Proofs.Command.Feed
import Montage.Proofs.Finding
import Montage.Proofs.Text.Blank
import Montage.Timeline.Job

namespace Montage

set_option autoImplicit false

open Outcome

/-! ## Blank texts -/

/-- There is no image where a text holds nothing but white space. -/
theorem imageReference?_eq_none_iff (s : String) :
    imageReference? s = none ↔ ∀ c ∈ s.toList, isBlank c = true := by
  have empty : trim s = "" ↔ trimChars s.toList = [] := by
    rw [trim, ← String.toList_inj, String.toList_ofList]
    rfl
  unfold imageReference?
  rw [← trimChars_eq_nil_iff, ← empty]
  split <;> simp_all

/-! ## The timeline of a job -/

namespace Job

/-- A job with an image, which is any text that is not blank. -/
def HasImage (job : Job) : Prop :=
  ∃ image, job.image = some image ∧ ∃ c ∈ image.toList, isBlank c = false

theorem segments_length (index : Nat) (frames : List JobFrame) :
    (JobFrame.segments index frames).value.length = frames.length := by
  induction frames generalizing index with
  | nil => rfl
  | cons f rest ih => simp [JobFrame.segments, ih]

theorem timeline_segments_length (job : Job) :
    job.timeline.value.segments.length = job.frames.length := segments_length 0 job.frames

theorem timeline_image (job : Job) : job.timeline.value.image = job.image.bind imageReference? := rfl

theorem hasImage_iff (job : Job) : job.HasImage ↔ job.timeline.value.image.isSome = true := by
  rw [timeline_image, ← Option.ne_none_iff_isSome, HasImage]
  cases given : job.image with
  | none => simp
  | some image => simp [imageReference?_eq_none_iff]

end Job

/-! ## What can fail -/

namespace Timeline

variable {τ : Type} [Seconds τ]

/-- Without an image of the scene the first piece fails. -/
theorem pieces_of_no_image {t : Timeline τ} (segments : t.segments ≠ []) (blank : t.image = none) :
    t.pieces = .error (.noPrimaryImage 0) := by
  obtain ⟨s, rest, form⟩ := List.exists_cons_of_ne_nil segments
  have first : t.piece 0 = .error (.noPrimaryImage 0) := by
    unfold piece
    rw [form, blank]
    rfl
  unfold pieces
  rw [form, List.length_cons, List.range_succ_eq_map, List.mapM_cons, first]
  rfl

variable [Seconds.Lawful τ]

theorem compile_of_no_image {t : Timeline τ} (withAudio : Bool) (segments : t.segments ≠ [])
    (blank : t.image = none) : t.compile withAudio = .error (.noPrimaryImage 0) := by
  have fits := t.fits_normalized
  have left : t.normalized.value.segments ≠ [] := by
    have first := List.length_pos_iff.mpr segments
    have length := fits.length
    rw [← List.length_pos_iff]
    omega
  rw [compile_of_segments withAudio segments,
    pieces_of_no_image left (by rw [fits.image, blank])]
  rfl

/-- Two causes keep a timeline from compiling, and no other. -/
theorem compile_eq_error_iff {t : Timeline τ} {withAudio : Bool} {e : Failure} :
    t.compile withAudio = .error e ↔
      t.segments = [] ∧ e = .noSegments
        ∨ t.segments ≠ [] ∧ t.image = none ∧ e = .noPrimaryImage 0 := by
  by_cases segments : t.segments = []
  · simp [compile_of_empty withAudio segments, segments, eq_comm]
  · cases image : t.image with
    | none => simp [compile_of_no_image withAudio segments image, segments, eq_comm]
    | some scene =>
        obtain ⟨c, compiled⟩ := t.exists_compile withAudio segments (by simp [image])
        simp [compiled, segments]

/-! ## What is reported -/

omit [Seconds.Lawful τ] in
theorem raisedAll_length (index : Nat) (segments : List (Segment τ)) :
    (Segment.raisedAll index segments).value.length = segments.length := by
  induction segments generalizing index with
  | nil => rfl
  | cons s rest ih => simp [Segment.raisedAll, ih]

omit [Seconds τ] [Seconds.Lawful τ] in
/-- A timeline is cut off as a whole. -/
theorem truncated_diagnostics (t : Timeline τ) {d : Diagnostic}
    (member : d ∈ t.truncated.diagnostics) :
    d.segment = none ∧ d.finding.category ≠ .durationMismatch := by
  unfold truncated at member
  split at member
  · obtain rfl := List.mem_singleton.mp member
    exact ⟨rfl, by simp [Finding.category]⟩
  · cases member

/-- What is reported of the sum of the segments, if anything. -/
def sumReports (t : Timeline τ) : List Diagnostic :=
  (t.mismatch?.map fun m => (⟨none,
    .durationMismatch (Seconds.numeral m.segments) (Seconds.numeral m.target)⟩ : Diagnostic)).toList

omit [Seconds.Lawful τ] in
theorem normalized_diagnostics (t : Timeline τ) :
    t.normalized.diagnostics = t.truncated.diagnostics
      ++ ((Segment.raisedAll 0 (t.segments.take maxSegments)).diagnostics
      ++ ((Segment.fittedAll 0 none
        (Segment.raisedAll 0 (t.segments.take maxSegments)).value).diagnostics
      ++ t.normalized.value.sumReports)) := by
  rw [sumReports, normalized_value]
  unfold normalized
  rw [diagnostics_bind, diagnostics_bind, diagnostics_bind, truncated_value]
  dsimp only
  split <;> rename_i found <;> rw [found] <;> rfl

omit [Seconds.Lawful τ] in
/-- Everything that is said of one piece is placed where it stands. -/
theorem piece_diagnostics {t : Timeline τ} {index : Nat} {p : Piece τ}
    (made : t.piece index = .ok p) {d : Diagnostic} (member : d ∈ p.diagnostics) :
    d.segment = some index ∧ d.finding.category ≠ .durationMismatch := by
  obtain ⟨s, scene, makes⟩ := exists_makes made
  rw [makes.diagnostics] at member
  have quiet : (t.fragment s).Local := Motion.fragment_local _ _
  exact ⟨segment_located member, quiet.located index d member⟩

omit [Seconds.Lawful τ] in
/-- The lengths do not add up exactly if that is reported. -/
theorem mismatch_iff (t : Timeline τ) : t.mismatch?.isSome = true ↔ t.sumReports ≠ [] := by
  unfold sumReports
  cases t.mismatch? <;> simp

omit [Seconds.Lawful τ] in
theorem sumReports_whole (t : Timeline τ) {d : Diagnostic} (member : d ∈ t.sumReports) :
    d.segment = none ∧ d.finding.category = .durationMismatch := by
  unfold sumReports at member
  obtain ⟨m, -, rfl⟩ := Option.map_eq_some_iff.mp (Option.mem_toList.mp member)
  exact ⟨rfl, rfl⟩

/-- A report of a compiled timeline is on the sum of its segments, or else it is on
something other than that and placed, if anywhere, at a segment that is left. -/
theorem report_cases {t : Timeline τ} {pieces : List (Piece τ)} {withAudio : Bool}
    (made : t.normalized.value.pieces = .ok pieces) {d : Diagnostic}
    (member : d ∈ (t.compiledOf withAudio pieces).diagnostics) :
    d ∈ t.normalized.value.sumReports
      ∨ d.finding.category ≠ .durationMismatch ∧ ∀ i, d.segment = some i → i < pieces.length := by
  have left : (t.segments.take maxSegments).length = pieces.length := by
    rw [pieces_length made, List.length_take, maxSegments]
  have atPlace : ∀ {j}, d.segment = some j → j < pieces.length →
      ∀ i, d.segment = some i → i < pieces.length := by
    intro j there inside i found
    rw [there] at found
    exact Option.some.inj found ▸ inside
  have placed : Segment.Places 0 pieces.length d → d.finding.category ≠ .durationMismatch
      ∧ ∀ i, d.segment = some i → i < pieces.length := by
    rintro ⟨⟨j, there, -, inside⟩, quiet⟩
    exact ⟨quiet, atPlace there (by omega)⟩
  rcases List.mem_append.mp member with fitting | showing
  · -- What was done to fit the timeline: cut off, raised, fitted, and measured.
    rw [normalized_diagnostics] at fitting
    simp only [List.mem_append] at fitting
    rcases fitting with cutOff | raised | fitted | sum
    · obtain ⟨whole, quiet⟩ := truncated_diagnostics t cutOff
      refine .inr ⟨quiet, fun i found => ?_⟩
      rw [whole] at found
      cases found
    · exact .inr (placed (left ▸ Segment.raisedAll_places _ _ d raised))
    · have places := Segment.fittedAll_places _ _ _ d fitted
      rw [raisedAll_length, left] at places
      exact .inr (placed places)
    · exact .inl sum
  · -- What was done to show its segments.
    obtain ⟨p, among, member⟩ := List.mem_flatMap.mp showing
    obtain ⟨k, inside, rfl⟩ := List.mem_iff_getElem.mp among
    obtain ⟨there, quiet⟩ :=
      piece_diagnostics (pieces_getElem? made (List.getElem?_eq_getElem inside)) member
    exact .inr ⟨quiet, atPlace there inside⟩

end Timeline

/-! ## Compiled jobs -/

/-- What a compiled timeline tells of its own: no report is about a segment that is not
there, and the reports and the result agree on whether its lengths add up. -/
structure Compiled.Accounts {τ : Type} (c : Compiled τ) : Prop where
  placed : ∀ d ∈ c.diagnostics, ∀ i, d.segment = some i → i < c.images.length
  mismatch : c.mismatch.isSome = true ↔
    ∃ d ∈ c.diagnostics, d.finding.category = .durationMismatch

theorem Timeline.compile_accounts {τ : Type} [Seconds τ] [Seconds.Lawful τ] {t : Timeline τ}
    {withAudio : Bool} {c : Compiled τ} (compiled : t.compile withAudio = .ok c) : c.Accounts := by
  obtain ⟨-, pieces, made, -, rfl⟩ := exists_pieces compiled
  have images : (t.compiledOf withAudio pieces).images.length = pieces.length := List.length_map ..
  constructor
  case placed =>
    intro d member i found
    rw [images]
    rcases report_cases made member with sum | ⟨-, placed⟩
    · rw [(sumReports_whole _ sum).1] at found
      cases found
    · exact placed i found
  case mismatch =>
    refine (mismatch_iff _).trans ⟨fun reported => ?_, ?_⟩
    · obtain ⟨d, member⟩ := List.exists_mem_of_ne_nil _ reported
      refine ⟨d, List.mem_append_left _ ?_, (sumReports_whole _ member).2⟩
      rw [normalized_diagnostics]
      simp [member]
    · rintro ⟨d, member, about⟩
      rcases report_cases made member with sum | ⟨other, -⟩
      · exact List.ne_nil_of_mem sum
      · exact absurd about other

namespace Job

/-- **Malformed settings never keep a job from compiling.**  Whatever a job says, it
becomes a video exactly if it has a frame and an image, and then one with ten segments at
most, which accounts for all that was repaired.  A job with no frame is invalid; one with
frames and no image fails at the first of them; and that is all that can go wrong. -/
theorem compile_spec (job : Job) (withAudio : Bool) :
    ((∃ c, job.timeline.value.compile withAudio = .ok c) ↔ job.frames ≠ [] ∧ job.HasImage)
      ∧ (∀ e, job.timeline.value.compile withAudio = .error e ↔
        job.frames = [] ∧ e = .noSegments
          ∨ job.frames ≠ [] ∧ ¬ job.HasImage ∧ e = .noPrimaryImage 0)
      ∧ (∀ e, job.timeline.value.compile withAudio = .error e →
        e.category = if job.frames = [] then .validation else .unrenderable)
      ∧ ∀ c, job.timeline.value.compile withAudio = .ok c →
        c.images.length = min job.frames.length 10 ∧ c.Accounts := by
  have frames : job.timeline.value.segments = [] ↔ job.frames = [] := by
    rw [← List.length_eq_zero_iff, timeline_segments_length, List.length_eq_zero_iff]
  have image : job.timeline.value.image = none ↔ ¬ job.HasImage := by
    rw [hasImage_iff, Option.isSome_iff_ne_none, not_not]
  have failure : ∀ e, job.timeline.value.compile withAudio = .error e ↔
      job.frames = [] ∧ e = .noSegments
        ∨ job.frames ≠ [] ∧ ¬ job.HasImage ∧ e = .noPrimaryImage 0 := by
    intro e
    rw [Timeline.compile_eq_error_iff, ne_eq, frames, image]
  refine ⟨⟨?_, ?_⟩, failure, ?_, ?_⟩
  · rintro ⟨c, compiled⟩
    have works : ∀ e, job.timeline.value.compile withAudio ≠ .error e := by
      intro e failed
      rw [compiled] at failed
      cases failed
    have some : job.frames ≠ [] := fun none => works _ ((failure _).mpr (.inl ⟨none, rfl⟩))
    refine ⟨some, ?_⟩
    by_contra blank
    exact works _ ((failure _).mpr (.inr ⟨some, blank, rfl⟩))
  · rintro ⟨some, shows⟩
    cases outcome : job.timeline.value.compile withAudio with
    | ok c => exact ⟨c, rfl⟩
    | error e =>
        rcases (failure e).mp outcome with ⟨none, -⟩ | ⟨-, blank, -⟩
        · exact absurd none some
        · exact absurd shows blank
  · intro e failed
    rcases (failure e).mp failed with ⟨none, rfl⟩ | ⟨some, -, rfl⟩
    · rw [if_pos none, Failure.category]
    · rw [if_neg some, Failure.category]
  · intro c compiled
    obtain ⟨-, pieces, made, -, rfl⟩ := Timeline.exists_pieces compiled
    have count := Timeline.pieces_length made
    rw [timeline_segments_length] at count
    refine ⟨?_, Timeline.compile_accounts compiled⟩
    rw [min_comm, ← count]
    exact List.length_map ..

/-- Eleven frames of impossible lengths with effects and transitions that do not exist, at
no rate and of no height, to last for minus infinity. -/
def unruly : Job where
  frames := ⟨none, 0.0 / 0.0, some "swirl", some (1.0 / 0.0), some " ", some { label := "wobble" }⟩
    :: List.replicate 10 ⟨none, -1.0, some "fade", some (0.0 / 0.0), none,
        some { label := "dolly-zoom", startView := some (-5.0) }⟩
  duration := some (-1.0 / 0.0)
  rate := some 0
  width := some 4000000000
  height := some 0
  image := some "scene.png"

theorem unruly_compiles :
    (∃ c, unruly.timeline.value.compile true = .ok c ∧ c.images.length = 10 ∧ c.Accounts)
      ∧ { unruly with image := some " \t" }.timeline.value.compile false
        = .error (.noPrimaryImage 0) := by
  constructor
  · have shows : unruly.HasImage := ⟨"scene.png", rfl, 's', by decide, by decide⟩
    obtain ⟨c, compiled⟩ := (compile_spec unruly true).1.mpr ⟨by simp [unruly], shows⟩
    exact ⟨c, compiled, (compile_spec unruly true).2.2.2 c compiled⟩
  · refine ((compile_spec _ false).2.1 _).mpr (.inr ⟨by simp [unruly], ?_, rfl⟩)
    rintro ⟨image, given, visible⟩
    obtain rfl := Option.some.inj given
    obtain ⟨c, member, visible⟩ := visible
    have blank : ∀ c ∈ [' ', '\t'], isBlank c = true := by simp [isBlank]
    rw [blank c member] at visible
    cases visible

end Job

end Montage
