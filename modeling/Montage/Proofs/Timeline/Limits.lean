/-
# Montage.Proofs.Timeline.Limits -- what is reported is what is changed

`Timeline.WithinLimits` says what a timeline has to be like to be left alone, without
saying how it is brought there.  It is a normal form: every timeline is brought within
the limits, and one that is within them already is kept and passed over in silence.

The other direction is about reports.  A segment is changed exactly if something is reported
of it, which is decided one segment at a time: each step either reports and changes, or does
neither.  The room that a segment leaves is the same before and after a step that changes
nothing, so a run that reports nothing changes nothing.
-/
import Montage.Proofs.Timeline.Job

namespace Montage

set_option autoImplicit false

open Outcome
open Seconds (isFinite Lawful)

/-! ## Limits -/

section

variable {τ : Type} [Seconds τ]

/-- A segment within its limits, where the segment before leaves it some room; there is none
before the first. -/
structure Segment.WithinLimits (room : Option τ) (s : Segment τ) : Prop where
  finite : isFinite s.duration = true
  long : (0.1 : τ) ≤ s.duration
  transition : ∀ t, s.transition = some t → ∃ r, room = some r
    ∧ (0.1 : τ) ≤ t.duration ∧ t.duration ≤ 2.0 ∧ t.duration ≤ s.duration / 2.0 ∧ t.duration ≤ r

/-- A timeline within its limits: ten segments at most, each within those that the room left
by the segment before sets it. -/
structure Timeline.WithinLimits (t : Timeline τ) : Prop where
  length : t.segments.length ≤ 10
  segment : ∀ i s, t.segments[i]? = some s →
    Segment.WithinLimits (Segment.roomBefore none t.segments i) s

/-- A diagnostic about the segment at a position, of something that was moved into its range,
dropped or shortened. -/
def Diagnostic.Adjusts (i : Nat) (d : Diagnostic) : Prop :=
  d.segment = some i ∧ (d.finding.category = .valueClamped
    ∨ d.finding.category = .transitionDropped ∨ d.finding.category = .transitionClamped)

/-- Nothing is reported, or only that the segments do not add up. -/
def OnlyMismatch (ds : List Diagnostic) : Prop :=
  ds = [] ∨ ∃ d, ds = [d] ∧ d.finding.category = .durationMismatch

theorem OnlyMismatch.category {ds : List Diagnostic} (only : OnlyMismatch ds) :
    ∀ d ∈ ds, d.finding.category = .durationMismatch := by
  intro d member
  rcases only with rfl | ⟨e, rfl, mismatch⟩
  · cases member
  · obtain rfl := List.mem_singleton.mp member
    exact mismatch

end

variable {τ : Type} [Seconds τ]

/-! ## What one step reports -/

namespace Segment

theorem raised_diagnostics (index : Nat) (s : Segment τ) :
    (s.raised index).diagnostics = if s.isLongEnough then [] else
      [⟨some index, .segmentTooShort (Seconds.numeral s.duration)
        (Seconds.numeral (minSegment : τ))⟩] := by
  unfold raised
  split <;> rfl

/-- At most two things are reported of a transition: that it was moved into its range, and what
became of it then. -/
theorem fittedTransition_diagnostics (s : Segment τ) (room : τ) (t : Transition τ) :
    (s.fittedTransition room t).diagnostics
      = (if boundedTransition t.duration != t.duration then
          [⟨none, .transitionOutOfRange (Seconds.numeral t.duration)
            (Seconds.numeral (minTransition : τ)) (Seconds.numeral (maxTransition : τ))⟩]
        else [])
        ++ if s.allowance room t < 0.1 then
          [⟨none, .transitionDropped t.kind
            (Seconds.numeral (Seconds.greatest (s.allowance room t) (0.0 : τ)))⟩]
        else if s.allowance room t < boundedTransition t.duration then
          [⟨none, .transitionShortened t.kind (Seconds.numeral (boundedTransition t.duration))
            (Seconds.numeral (s.allowance room t))⟩]
        else [] := by
  have shown : (0.1 : τ) = minTransition := rfl
  rw [shown]
  unfold fittedTransition allowance
  dsimp only
  split <;> split <;> first | rfl | (split <;> rfl)

theorem fitted_diagnostics (index : Nat) (room : Option τ) (s : Segment τ) :
    (s.fitted index room).diagnostics = match s.transition, room with
      | none, _ => []
      | some _, none => [⟨some index, .transitionWithoutPredecessor⟩]
      | some t, some r => (s.fittedTransition r t).diagnostics.map (Diagnostic.located index) := by
  unfold fitted
  rcases s with ⟨effect, duration, image, _ | t⟩
  · rfl
  · cases room with
    | none => rfl
    | some r => simp [Outcome.located]

/-- What is said of a step is about its segment, and about something that was done to it. -/
theorem raised_adjusts {index : Nat} {s : Segment τ} {d : Diagnostic}
    (member : d ∈ (s.raised index).diagnostics) : d.Adjusts index := by
  rw [raised_diagnostics] at member
  split at member
  · cases member
  · obtain rfl := List.mem_singleton.mp member
    exact ⟨rfl, .inl rfl⟩

theorem fitted_adjusts {index : Nat} {room : Option τ} {s : Segment τ} {d : Diagnostic}
    (member : d ∈ (s.fitted index room).diagnostics) : d.Adjusts index := by
  refine ⟨segment_located member, ?_⟩
  rw [fitted_diagnostics] at member
  split at member
  · cases member
  · obtain rfl := List.mem_singleton.mp member
    exact .inr (.inl rfl)
  · obtain ⟨e, among, rfl⟩ := List.mem_map.mp member
    rw [fittedTransition_diagnostics] at among
    rcases List.mem_append.mp among with moved | fit
    · split at moved
      · obtain rfl := List.mem_singleton.mp moved
        exact .inl rfl
      · cases moved
    · split at fit
      · obtain rfl := List.mem_singleton.mp fit
        exact .inr (.inl rfl)
      · split at fit
        · obtain rfl := List.mem_singleton.mp fit
          exact .inr (.inr rfl)
        · cases fit

end Segment

variable [Lawful τ]

/-! ## One step -/

/-- A length is left where it is exactly if it is in the range of transitions. -/
theorem boundedTransition_of_range {asked : τ} (low : (0.1 : τ) ≤ asked) (high : asked ≤ 2.0) :
    boundedTransition asked = asked := by
  have finite := Lawful.finite_of_le (Seconds.nonneg_of_tenth_le low) high Lawful.two_finite
  have moved := boundedTransition_moved asked
  generalize boundedTransition asked = bounded at moved
  cases moved with
  | absent absent => rw [finite] at absent; cases absent
  | raised _ below => exact absurd below (Seconds.not_lt_of_le low)
  | lowered _ above => exact absurd above (Seconds.not_lt_of_le high)
  | kept => rfl

/-- What compares as if it had not been moved has not been moved. -/
theorem boundedTransition_of_beq {asked : τ}
    (same : (boundedTransition asked == asked) = true) : boundedTransition asked = asked := by
  obtain ⟨le, ge⟩ := Lawful.beq_iff.mp same
  obtain ⟨low, high⟩ := (boundedTransition_moved asked).within
  exact boundedTransition_of_range (Lawful.le_trans low le) (Lawful.le_trans ge high)

namespace Segment

variable {room : Option τ} {s : Segment τ}

omit [Lawful τ] in
/-- **What a segment becomes is within its limits.** -/
theorem Fits.withinLimits {asked kept : Segment τ} (fits : Fits room asked kept) :
    kept.WithinLimits room where
  finite := fits.finite
  long := fits.long
  transition t some := by
    obtain ⟨low, high, half, fit⟩ := fits.within t some
    cases leaves : room with
    | none =>
        rw [fits.none (.inr leaves)] at some
        cases some
    | some r => exact ⟨r, rfl, low, high, half, fit r leaves⟩

omit [Lawful τ] in
/-- The allowance is all that is wanted if neither the segment nor the room is too short. -/
theorem allowance_eq {r : τ} {t : Transition τ}
    (half : ¬ s.duration / 2.0 < boundedTransition t.duration)
    (enough : ¬ r < boundedTransition t.duration) :
    s.allowance r t = boundedTransition t.duration := by
  unfold allowance Seconds.least
  rw [if_neg half, if_neg enough]

/-- If the allowance is not short of what is wanted, it is what is wanted. -/
theorem allowance_eq_of_not_lt {r : τ} {t : Transition τ}
    (enough : ¬ s.allowance r t < boundedTransition t.duration) :
    s.allowance r t = boundedTransition t.duration := by
  have trans {a b c : τ} (first : a < b) (second : b < c) : a < c :=
    Seconds.lt_of_lt_of_le first (Seconds.le_of_lt second)
  unfold allowance Seconds.least at *
  split_ifs at enough ⊢ with half room room
  · exact absurd (trans room half) enough
  · exact absurd half enough
  · exact absurd room enough
  · rfl

/-- A segment within its limits is left alone in silence. -/
theorem WithinLimits.quiet (index : Nat) (within : s.WithinLimits room) :
    (s.raised index).value = s ∧ (s.raised index).diagnostics = []
      ∧ (s.fitted index room).value = s ∧ (s.fitted index room).diagnostics = [] := by
  have long : isFinite s.duration = true ∧ (0.1 : τ) ≤ s.duration := ⟨within.finite, within.long⟩
  refine ⟨?_, ?_, ?_⟩
  · rw [raised_value, if_pos long]
  · rw [raised_diagnostics, if_pos (s.isLongEnough_iff.mpr long)]
  · rw [fitted_value, fitted_diagnostics]
    cases wanted : s.transition with
    | none => exact ⟨by rw [Option.bind_none, ← wanted], rfl⟩
    | some t =>
        obtain ⟨r, rfl, low, high, half, enough⟩ := within.transition t wanted
        have bounded := boundedTransition_of_range low high
        have allowed : s.allowance r t = t.duration := by
          rw [allowance_eq (by rw [bounded]; exact Seconds.not_lt_of_le half)
            (by rw [bounded]; exact Seconds.not_lt_of_le enough), bounded]
        have self := (Lawful.le_self low).2
        constructor
        · rw [Option.bind_some, Option.bind_some, fittedTransition_value, allowed,
            if_neg (Seconds.not_lt_of_le low), ← wanted]
        · have equal : (t.duration == t.duration) = true := Lawful.beq_iff.mpr ⟨self, self⟩
          dsimp only
          rw [fittedTransition_diagnostics, allowed, bounded, if_neg (by simp [bne, equal]),
            if_neg (Seconds.not_lt_of_le low), if_neg (Seconds.not_lt_of_le self)]
          rfl

/-- A step that reports nothing changes nothing. -/
theorem unchanged_of_quiet (index position : Nat) (s : Segment τ)
    (raised : (s.raised index).diagnostics = [])
    (fitted : ((s.raised index).value.fitted position room).diagnostics = []) :
    ((s.raised index).value.fitted position room).value = s := by
  have long : s.isLongEnough = true := by
    by_contra short
    rw [raised_diagnostics, if_neg short] at raised
    cases raised
  have same : (s.raised index).value = s := by
    rw [raised_value, if_pos (s.isLongEnough_iff.mp long)]
  rw [same] at fitted ⊢
  rw [fitted_value]
  rw [fitted_diagnostics] at fitted
  cases wanted : s.transition with
  | none => rw [Option.bind_none, ← wanted]
  | some t =>
      rw [wanted] at fitted
      cases room with
      | none => cases fitted
      | some r =>
          have quiet := List.map_eq_nil_iff.mp fitted
          rw [fittedTransition_diagnostics, List.append_eq_nil_iff] at quiet
          obtain ⟨moved, fit⟩ := quiet
          have bounded : boundedTransition t.duration = t.duration := by
            refine boundedTransition_of_beq (by_contra fun differs => ?_)
            rw [if_pos (by simpa [bne] using differs)] at moved
            cases moved
          have shown : ¬ s.allowance r t < 0.1 := by
            intro short
            rw [if_pos short] at fit
            cases fit
          have whole : ¬ s.allowance r t < boundedTransition t.duration := by
            intro short
            rw [if_neg shown, if_pos short] at fit
            cases fit
          rw [Option.bind_some, Option.bind_some, fittedTransition_value, if_neg shown,
            allowance_eq_of_not_lt whole, bounded, ← wanted]

/-- **A step changes a segment exactly if it reports something of it.** -/
theorem changed_iff (index : Nat) (asked : Segment τ)
    (roomy : ∀ r, room = some r → (0.0 : τ) ≤ r) :
    ((asked.raised index).value.fitted index room).value ≠ asked
      ↔ ∃ d ∈ (asked.raised index).diagnostics
        ++ ((asked.raised index).value.fitted index room).diagnostics, d.Adjusts index := by
  constructor
  · intro changed
    by_contra quiet
    refine changed (unchanged_of_quiet index index asked ?_ ?_)
    · refine List.eq_nil_iff_forall_not_mem.mpr fun d member => quiet ⟨d, ?_, raised_adjusts member⟩
      exact List.mem_append_left _ member
    · refine List.eq_nil_iff_forall_not_mem.mpr fun d member => quiet ⟨d, ?_, fitted_adjusts member⟩
      exact List.mem_append_right _ member
  · rintro ⟨d, member, -⟩ same
    have within := (fitted_fits index index asked roomy).withinLimits
    rw [same] at within
    obtain ⟨kept, quiet, -, silent⟩ := within.quiet index
    rw [kept, quiet, silent] at member
    cases member

/-! ## The run over all segments -/

/-- Segments from a position on, as they are left. -/
def settledAll (index : Nat) (room : Option τ) (segments : List (Segment τ)) : List (Segment τ) :=
  (fittedAll index room (raisedAll index segments).value).value

/-- What is reported of segments from a position on. -/
def reportsOf (index : Nat) (room : Option τ) (segments : List (Segment τ)) : List Diagnostic :=
  (raisedAll index segments).diagnostics
    ++ (fittedAll index room (raisedAll index segments).value).diagnostics

omit [Lawful τ] in
theorem settledAll_cons (index : Nat) (room : Option τ) (s : Segment τ) (rest : List (Segment τ)) :
    settledAll index room (s :: rest) = ((s.raised index).value.fitted index room).value
      :: settledAll (index + 1) (some ((s.raised index).value.fitted index room).value.remaining)
        rest :=
  rfl

omit [Lawful τ] in
/-- A report is about the first segment or about a later one. -/
theorem mem_reportsOf_cons (index : Nat) (room : Option τ) (s : Segment τ)
    (rest : List (Segment τ)) (d : Diagnostic) :
    d ∈ reportsOf index room (s :: rest)
      ↔ d ∈ (s.raised index).diagnostics ++ ((s.raised index).value.fitted index room).diagnostics
        ∨ d ∈ reportsOf (index + 1)
          (some ((s.raised index).value.fitted index room).value.remaining) rest := by
  simp only [reportsOf, raisedAll, fittedAll, diagnostics_bind, value_bind, diagnostics_pure,
    value_pure, List.append_nil, List.mem_append]
  tauto

omit [Lawful τ] in
theorem reportsOf_places (index : Nat) (room : Option τ) (segments : List (Segment τ)) :
    ∀ d ∈ reportsOf index room segments, Places index segments.length d := by
  intro d member
  rcases List.mem_append.mp member with raised | fitted
  · exact raisedAll_places index segments d raised
  · have places := fittedAll_places index room _ d fitted
    rwa [Timeline.raisedAll_length] at places

/-- **Of a run, exactly the segments change that something is reported of**, however long the
run is: what is reported of the others is about another position. -/
theorem settledAll_changed_iff (index : Nat) (segments : List (Segment τ))
    (roomy : ∀ r, room = some r → (0.0 : τ) ≤ r) (i : Nat) {asked kept : Segment τ}
    (before : segments[i]? = some asked) (after : (settledAll index room segments)[i]? = some kept) :
    kept ≠ asked ↔ ∃ d ∈ reportsOf index room segments, d.Adjusts (index + i) := by
  induction segments generalizing index room i with
  | nil => cases before
  | cons s rest ih =>
      rw [settledAll_cons] at after
      simp only [mem_reportsOf_cons]
      cases i with
      | zero =>
          obtain rfl := Option.some.inj before
          obtain rfl := Option.some.inj after
          refine (changed_iff index s roomy).trans ⟨?_, ?_⟩
          · rintro ⟨d, member, adjusts⟩
            exact ⟨d, .inl member, adjusts⟩
          · rintro ⟨d, member | later, adjusts⟩
            · exact ⟨d, member, adjusts⟩
            · obtain ⟨⟨j, there, low, -⟩, -⟩ := reportsOf_places _ _ _ d later
              have here := Option.some.inj (there.symm.trans adjusts.1)
              omega
      | succ i =>
          have roomyRest : ∀ r, some ((s.raised index).value.fitted index room).value.remaining
              = some r → (0.0 : τ) ≤ r := by
            rintro r leaves
            obtain rfl := Option.some.inj leaves
            exact (fitted_fits index index s roomy).remaining_nonneg
          refine (ih (index + 1) roomyRest i before after).trans ⟨?_, ?_⟩
          · rintro ⟨d, member, adjusts⟩
            refine ⟨d, .inr member, ?_⟩
            rwa [show index + (i + 1) = index + 1 + i by omega]
          · rintro ⟨d, here | later, adjusts⟩
            · have there : d.segment = some index := by
                rcases List.mem_append.mp here with raised | fitted
                · exact (raised_adjusts raised).1
                · exact (fitted_adjusts fitted).1
              have here := Option.some.inj (there.symm.trans adjusts.1)
              omega
            · refine ⟨d, later, ?_⟩
              rwa [show index + 1 + i = index + (i + 1) by omega]

/-- **A run over segments within their limits leaves them alone in silence.** -/
theorem settledAll_quiet (index : Nat) (segments : List (Segment τ))
    (within : ∀ i a, segments[i]? = some a → WithinLimits (roomBefore room segments i) a) :
    settledAll index room segments = segments ∧ reportsOf index room segments = [] := by
  induction segments generalizing index room with
  | nil => exact ⟨rfl, rfl⟩
  | cons s rest ih =>
      have first : s.WithinLimits room := within 0 s rfl
      obtain ⟨long, silent, fit, quiet⟩ := first.quiet index
      have later : settledAll (index + 1) (some s.remaining) rest = rest
          ∧ reportsOf (index + 1) (some s.remaining) rest = [] := by
        refine ih (index + 1) fun i a found => ?_
        have limits := within (i + 1) a found
        cases i <;> exact limits
      constructor
      · rw [settledAll_cons, long, fit, later.1]
      · refine List.eq_nil_iff_forall_not_mem.mpr fun d member => ?_
        rw [mem_reportsOf_cons, long, fit, silent, quiet, later.2] at member
        rcases member with member | member <;> cases member

omit [Lawful τ] in
theorem settledAll_length (index : Nat) (room : Option τ) (segments : List (Segment τ)) :
    (settledAll index room segments).length = segments.length := by
  induction segments generalizing index room with
  | nil => rfl
  | cons s rest ih => rw [settledAll_cons, List.length_cons, List.length_cons, ih]

/-- A run that reports nothing changes nothing. -/
theorem settledAll_of_quiet (index : Nat) (segments : List (Segment τ))
    (roomy : ∀ r, room = some r → (0.0 : τ) ≤ r) (quiet : reportsOf index room segments = []) :
    settledAll index room segments = segments := by
  have length := settledAll_length index room segments
  refine List.ext_getElem length fun i there before => ?_
  by_contra changed
  obtain ⟨d, member, -⟩ := (settledAll_changed_iff index segments roomy i
    (List.getElem?_eq_getElem before) (List.getElem?_eq_getElem there)).mp changed
  rw [quiet] at member
  cases member

end Segment

/-! ## The timeline -/

namespace Timeline

omit [Seconds τ] [Lawful τ] in
theorem truncated_quiet_iff (t : Timeline τ) :
    t.truncated.diagnostics = [] ↔ t.segments.length ≤ maxSegments := by
  unfold truncated
  split
  · rename_i long
    refine ⟨fun quiet => ?_, fun short => absurd long (Nat.not_lt.mpr short)⟩
    cases quiet
  · rename_i short
    exact ⟨fun _ => Nat.not_lt.mp short, fun _ => rfl⟩

omit [Lawful τ] in
theorem normalized_segments (t : Timeline τ) :
    t.normalized.value = { t with
      segments := Segment.settledAll 0 none (t.segments.take maxSegments) } := t.normalized_value

omit [Lawful τ] in
/-- First that the timeline was cut off, then what was done to its segments, then what they
add up to. -/
theorem normalized_reports (t : Timeline τ) :
    t.normalized.diagnostics = t.truncated.diagnostics
      ++ Segment.reportsOf 0 none (t.segments.take maxSegments)
      ++ t.normalized.value.sumReports := by
  rw [normalized_diagnostics, Segment.reportsOf]
  simp only [List.append_assoc]

omit [Lawful τ] in
theorem sumReports_onlyMismatch (t : Timeline τ) : OnlyMismatch t.sumReports := by
  unfold sumReports
  cases t.mismatch? with
  | none => exact .inl rfl
  | some m => exact .inr ⟨_, rfl, rfl⟩

/-- Every timeline is brought within the limits. -/
theorem normalized_withinLimits (t : Timeline τ) : t.normalized.value.WithinLimits where
  length := by rw [t.fits_normalized.length]; exact Nat.min_le_left ..
  segment i s found := by
    obtain ⟨a, -, fits⟩ := t.fits_normalized.segment i s found
    exact fits.withinLimits

/-- A timeline within its limits is kept, and only its sum is reported. -/
theorem WithinLimits.settled {t : Timeline τ} (within : t.WithinLimits) :
    t.normalized.value = t ∧ t.normalized.diagnostics = t.sumReports := by
  have all : t.segments.take maxSegments = t.segments := List.take_of_length_le within.length
  obtain ⟨same, quiet⟩ := Segment.settledAll_quiet 0 t.segments within.segment
  have kept : t.normalized.value = t := by rw [normalized_segments, all, same]
  have whole : t.truncated.diagnostics = [] := t.truncated_quiet_iff.mpr within.length
  refine ⟨kept, ?_⟩
  rw [normalized_reports, whole, all, quiet, kept]
  rfl

/-- A timeline of which nothing is reported but its sum is kept. -/
theorem normalized_of_quiet {t : Timeline τ}
    (quiet : ∀ d ∈ t.normalized.diagnostics, d.finding.category = .durationMismatch) :
    t.normalized.value = t := by
  rw [normalized_reports] at quiet
  have whole : t.truncated.diagnostics = [] := by
    refine List.eq_nil_iff_forall_not_mem.mpr fun d member => (truncated_diagnostics t member).2 ?_
    exact quiet d (List.mem_append_left _ (List.mem_append_left _ member))
  have all : t.segments.take maxSegments = t.segments :=
    List.take_of_length_le (t.truncated_quiet_iff.mp whole)
  have silent : Segment.reportsOf 0 none t.segments = [] := by
    refine List.eq_nil_iff_forall_not_mem.mpr fun d member => ?_
    have other := (Segment.reportsOf_places 0 none t.segments d member).quiet
    rw [all] at quiet
    exact other (quiet d (List.mem_append_left _ (List.mem_append_right _ member)))
  rw [normalized_segments, all]
  congr 1
  exact Segment.settledAll_of_quiet 0 t.segments (fun r none => by cases none) silent

/-- A segment that is kept is changed exactly if there is a report that adjusts it: neither that
the timeline was cut off nor what it adds up to is about one segment. -/
theorem segment_changed_iff (t : Timeline τ) (i : Nat) {asked kept : Segment τ}
    (before : t.segments[i]? = some asked) (after : t.normalized.value.segments[i]? = some kept) :
    kept ≠ asked ↔ ∃ d ∈ t.normalized.diagnostics, d.Adjusts i := by
  have inside : i < maxSegments := by
    have fewer : t.normalized.value.segments.length ≤ 10 := t.normalized_withinLimits.length
    exact Nat.lt_of_lt_of_le (List.getElem?_eq_some_iff.mp after).1 fewer
  have before : (t.segments.take maxSegments)[i]? = some asked := by
    rw [List.getElem?_take_of_lt inside, before]
  rw [normalized_segments] at after
  have run := Segment.settledAll_changed_iff 0 _ (fun r none => by cases none) i before after
  rw [Nat.zero_add] at run
  rw [run, normalized_reports]
  refine ⟨fun ⟨d, member, adjusts⟩ => ⟨d, ?_, adjusts⟩, ?_⟩
  · exact List.mem_append_left _ (List.mem_append_right _ member)
  · rintro ⟨d, member, adjusts⟩
    rcases List.mem_append.mp member with member | sum
    · rcases List.mem_append.mp member with cutOff | here
      · have nowhere := (truncated_diagnostics t cutOff).1
        rw [adjusts.1] at nowhere
        cases nowhere
      · exact ⟨d, here, adjusts⟩
    · have nowhere := (sumReports_whole _ sum).1
      rw [adjusts.1] at nowhere
      cases nowhere

omit [Lawful τ] in
/-- What a timeline that was fitted adds up to is the only report on its sum. -/
theorem filter_mismatch (t : Timeline τ) :
    t.normalized.diagnostics.filter (fun d => d.finding.category = .durationMismatch)
      = t.normalized.value.sumReports := by
  have none (ds : List Diagnostic) (other : ∀ d ∈ ds, d.finding.category ≠ .durationMismatch) :
      ds.filter (fun d => d.finding.category = .durationMismatch) = [] :=
    List.filter_eq_nil_iff.mpr fun d member => by simpa using other d member
  rw [normalized_reports, List.filter_append, List.filter_append,
    none _ fun d member => (truncated_diagnostics t member).2,
    none _ fun d member => (Segment.reportsOf_places _ _ _ d member).quiet,
    List.nil_append, List.nil_append, List.filter_eq_self]
  intro d member
  simpa using (sumReports_whole _ member).2

/-- **Exactly what is changed is reported, and once is enough.**  A timeline is left as it is
exactly if nothing is reported of it, but at most that its segments do not add up, and exactly
if it is within its limits.  A segment that is kept differs from the one asked for exactly if
there is a report that adjusts it.  So what a timeline becomes stays what it is, and nothing
is reported of it again but its sum, and that as before. -/
theorem normalized_settles (t : Timeline Float) :
    (t.normalized.value = t ↔ OnlyMismatch t.normalized.diagnostics)
      ∧ (t.normalized.value = t ↔ t.WithinLimits)
      ∧ (∀ i s, t.normalized.value.segments[i]? = some s → ∃ a, t.segments[i]? = some a
        ∧ (s ≠ a ↔ ∃ d ∈ t.normalized.diagnostics, d.Adjusts i))
      ∧ t.normalized.value.normalized.value = t.normalized.value
      ∧ t.normalized.value.normalized.diagnostics
        = t.normalized.diagnostics.filter (fun d => d.finding.category = .durationMismatch)
      ∧ OnlyMismatch t.normalized.value.normalized.diagnostics := by
  obtain ⟨again, reports⟩ := t.normalized_withinLimits.settled
  have limits : t.normalized.value = t → t.WithinLimits := fun same =>
    same ▸ t.normalized_withinLimits
  refine ⟨⟨?_, ?_⟩, ⟨limits, fun within => within.settled.1⟩, ?_, again, ?_, ?_⟩
  · intro same
    rw [(limits same).settled.2]
    exact t.sumReports_onlyMismatch
  · intro only
    exact normalized_of_quiet only.category
  · intro i s found
    obtain ⟨a, there, -⟩ := t.fits_normalized.segment i s found
    refine ⟨a, there, ?_⟩
    exact t.segment_changed_iff i there found
  · rw [reports, t.filter_mismatch]
  · rw [reports]
    exact sumReports_onlyMismatch _

/-- Lengths that are exactly at their limits are left alone, and a length that is none is not. -/
example :
    let edge : Timeline Float :=
      { segments := [⟨none, 0.1, none, none⟩, ⟨none, 0.2, none, some ⟨.fade, 0.1⟩⟩,
          ⟨none, 4.0, none, some ⟨.radial, 0.1⟩⟩] }
    let odd : Timeline Float := { segments := [⟨none, 0.0 / 0.0, none, none⟩, ⟨none, 1.0, none, none⟩] }
    edge.normalized.diagnostics.map Diagnostic.segment = []
      ∧ odd.normalized.diagnostics.map Diagnostic.segment = [some 0]
      ∧ odd.normalized.value.normalized.diagnostics.map Diagnostic.segment = [] := by
  decide +kernel

end Timeline

end Montage
