/-
# Montage.Proofs.Finding -- where findings are placed, and what they are about

What is reported on the way to a value is reported in order, one step after the other
(`Outcome.diagnostics_bind`).  Two things about reports are followed through all steps
here.  A step at a segment places all that it reports there (`Outcome.segment_located`).
And each step has a subject of its own, an effect, a length or a transition, which all its
findings are about (`Outcome.About`).  Only a timeline as a whole is measured against a target,
so nothing that is said about one segment is about the sum (`Outcome.Local`).
-/
import Montage.Motion
import Montage.Timeline.Fit

namespace Montage

set_option autoImplicit false

/-! ## Subjects -/

namespace Finding

/-- What a finding is about. -/
inductive Subject where
  /-- An effect, or the settings of one. -/
  | effect
  /-- The length of one segment. -/
  | length
  | transition
  /-- A timeline as a whole. -/
  | whole
  deriving DecidableEq, Repr

def subject : Finding → Subject
  | unknownKind _ | unknownDirection _ | conflictingDirections _ | emptyDirections
  | degenerateZoom _ | zeroIntensityPan | unknownSlide _ | unknownPulse _ | speedNotPositive _
  | viewMissing _ | viewNotPositive _ _ => .effect
  | segmentTooShort _ _ => .length
  | unknownTransition _ | transitionOutOfRange _ _ _ | transitionWithoutPredecessor
  | transitionDropped _ _ | transitionShortened _ _ _ => .transition
  | tooManySegments _ _ | durationMismatch _ _ => .whole

theorem subject_of_mismatch {f : Finding} (sum : f.category = .durationMismatch) :
    f.subject = .whole := by
  cases f <;> first | rfl | cases sum

end Finding

namespace Outcome

variable {α β : Type}

@[simp] theorem diagnostics_pure (a : α) : (pure a : Outcome α).diagnostics = [] := rfl

@[simp] theorem diagnostics_bind (o : Outcome α) (f : α → Outcome β) :
    (o >>= f).diagnostics = o.diagnostics ++ (f o.value).diagnostics := rfl

theorem segment_located {index : Nat} {o : Outcome α} {d : Diagnostic}
    (member : d ∈ (o.located index).diagnostics) : d.segment = some index := by
  obtain ⟨_, -, rfl⟩ := List.mem_map.mp member
  rfl

/-- Whatever is reported is about the same subject. -/
def About (subject : Finding.Subject) (o : Outcome α) : Prop :=
  ∀ d ∈ o.diagnostics, d.finding.subject = subject

section

variable {subject : Finding.Subject}

theorem about_pure (a : α) : (pure a : Outcome α).About subject := fun _ member => by cases member

theorem About.bind {o : Outcome α} {f : α → Outcome β} (first : o.About subject)
    (next : (f o.value).About subject) : (o >>= f).About subject := by
  intro d member
  rw [diagnostics_bind] at member
  rcases List.mem_append.mp member with early | late
  · exact first d early
  · exact next d late

theorem about_report {f : Finding} (same : f.subject = subject) : (report f).About subject := by
  intro d member
  obtain rfl := List.mem_singleton.mp member
  exact same

/-- A report in front of a value. -/
theorem about_report_then {f : Finding} (same : f.subject = subject) (a : α) :
    (report f >>= fun _ => pure a : Outcome α).About subject :=
  (about_report same).bind (about_pure a)

/-- A report that is only made in some cases. -/
theorem about_when {c : Prop} [Decidable c] {f : Finding} {o : Outcome α}
    (same : f.subject = subject) (rest : o.About subject) :
    (if c then report f >>= fun _ => o else o).About subject := by
  split
  · exact (about_report same).bind rest
  · exact rest

theorem About.located {o : Outcome α} (about : o.About subject) (index : Nat) :
    (o.located index).About subject := by
  intro d member
  obtain ⟨e, early, rfl⟩ := List.mem_map.mp member
  exact about e early

end

/-- Nothing that is reported is about what the segments add up to. -/
def Local (o : Outcome α) : Prop :=
  ∀ d ∈ o.diagnostics, d.finding.category ≠ .durationMismatch

/-- Only what is about the whole is about its sum. -/
theorem About.local {subject : Finding.Subject} {o : Outcome α} (about : o.About subject)
    (part : subject ≠ .whole) : o.Local := fun d member sum =>
  part ((about d member).symm.trans (Finding.subject_of_mismatch sum))

theorem Local.located {o : Outcome α} (quiet : o.Local) (index : Nat) : (o.located index).Local := by
  intro d member
  obtain ⟨e, early, rfl⟩ := List.mem_map.mp member
  exact quiet e early

end Outcome

open Outcome

/-! ## Effects -/

theorem KenBurns.check_about (p : KenBurns) : p.check.About .effect := by
  unfold check
  split
  · exact about_pure _
  · rename_i reason _
    refine about_report_then ?_ _
    cases reason <;> rfl

theorem Effect.check_about (e : Effect) : e.check.About .effect := by
  cases e with
  | kenBurns p => exact p.check_about
  | parallax p =>
      simp only [check]
      split
      · exact about_pure _
      · exact about_report_then rfl _
  | cinemagraph p => exact about_pure _
  | dollyZoom p => exact about_pure _
  | still => exact about_pure _

variable {τ : Type} [Seconds τ]

namespace Motion

theorem view_subject {name : String} {v : Option Float} {f : Finding} (wrong : view name v = .error f) :
    f.subject = .effect := by
  unfold view at wrong
  split at wrong
  · cases wrong
    rfl
  · split at wrong <;> cases wrong
    rfl

theorem dollyZoom_subject {clip : Clip τ} {p : DollyZoom} {f : Finding}
    (wrong : dollyZoom clip p = .error f) : f.subject = .effect := by
  unfold dollyZoom at wrong
  cases first : view "startFov" p.startView with
  | error g =>
      rw [first] at wrong
      cases wrong
      exact view_subject first
  | ok a =>
      cases last : view "endFov" p.endView with
      | error g =>
          rw [first, last] at wrong
          cases wrong
          exact view_subject last
      | ok b =>
          rw [first, last] at wrong
          cases wrong

theorem build_about (clip : Clip τ) (checked : Checked) : (build clip checked).About .effect := by
  cases checked with
  | fallback f => exact about_pure _
  | effect e =>
      cases e with
      | dollyZoom p =>
          unfold build
          cases made : dollyZoom clip.sanitized p with
          | ok fragment => simpa only [made] using about_pure fragment
          | error finding => simpa only [made] using about_report_then (dollyZoom_subject made) _
      | kenBurns p => exact about_pure _
      | parallax p => exact about_pure _
      | cinemagraph p => exact about_pure _
      | still => exact about_pure _

theorem fragment_about (clip : Clip τ) (effect : Effect) : (fragment clip effect).About .effect :=
  effect.check_about.bind (build_about clip _)

theorem fragment_local (clip : Clip τ) (effect : Effect) : (fragment clip effect).Local :=
  (fragment_about clip effect).local (by decide)

end Motion

/-! ## Segments -/

namespace Segment

theorem raised_about (index : Nat) (s : Segment τ) : (s.raised index).About .length := by
  unfold raised
  split
  · exact about_pure _
  · exact (about_report_then rfl _).located index

theorem fittedTransition_about (s : Segment τ) (room : τ) (t : Transition τ) :
    (s.fittedTransition room t).About .transition := by
  -- Up to two findings: one about the requested length, and one about what fits of it.
  unfold fittedTransition
  refine about_when rfl ?_
  dsimp only
  split
  · exact about_report_then rfl _
  · exact about_when rfl (about_pure _)

theorem fitted_about (index : Nat) (room : Option τ) (s : Segment τ) :
    (s.fitted index room).About .transition := by
  refine About.located ?_ index
  split
  · exact about_pure _
  · exact about_report_then rfl _
  · exact (s.fittedTransition_about _ _).bind (about_pure _)

theorem fittedAll_about (index : Nat) (room : Option τ) (segments : List (Segment τ)) :
    (fittedAll index room segments).About .transition := by
  induction segments generalizing index room with
  | nil => exact about_pure _
  | cons s rest ih => exact (s.fitted_about index room).bind ((ih (index + 1) _).bind (about_pure _))

/-- A diagnostic about one of some segments, and not about their sum. -/
structure Places (first count : Nat) (d : Diagnostic) : Prop where
  segment : ∃ i, d.segment = some i ∧ first ≤ i ∧ i < first + count
  quiet : d.finding.category ≠ .durationMismatch

theorem Places.later {first count : Nat} {d : Diagnostic} (places : Places (first + 1) count d) :
    Places first (count + 1) d := by
  obtain ⟨⟨i, found, low, high⟩, quiet⟩ := places
  exact ⟨⟨i, found, by omega, by omega⟩, quiet⟩

theorem segment_raised {index : Nat} {s : Segment τ} {d : Diagnostic}
    (member : d ∈ (s.raised index).diagnostics) : d.segment = some index := by
  unfold raised at member
  split at member
  · cases member
  · exact segment_located member

theorem raisedAll_places (index : Nat) (segments : List (Segment τ)) :
    ∀ d ∈ (raisedAll index segments).diagnostics, Places index segments.length d := by
  induction segments generalizing index with
  | nil => intro d member; cases member
  | cons s rest ih =>
      intro d member
      rw [raisedAll, diagnostics_bind, diagnostics_bind, diagnostics_pure, List.append_nil] at member
      rcases List.mem_append.mp member with here | later
      · have room : index < index + (s :: rest).length := by simp
        have quiet := (s.raised_about index).local (by decide)
        exact ⟨⟨index, segment_raised here, Nat.le_refl _, room⟩, quiet d here⟩
      · exact (ih (index + 1) d later).later

theorem fittedAll_places (index : Nat) (room : Option τ) (segments : List (Segment τ)) :
    ∀ d ∈ (fittedAll index room segments).diagnostics, Places index segments.length d := by
  induction segments generalizing index room with
  | nil => intro d member; cases member
  | cons s rest ih =>
      intro d member
      rw [fittedAll, diagnostics_bind, diagnostics_bind, diagnostics_pure, List.append_nil] at member
      rcases List.mem_append.mp member with here | later
      · have room' : index < index + (s :: rest).length := by simp
        have quiet := (s.fitted_about index room).local (by decide)
        exact ⟨⟨index, segment_located here, Nat.le_refl _, room'⟩, quiet d here⟩
      · exact (ih (index + 1) _ d later).later

end Segment

end Montage
