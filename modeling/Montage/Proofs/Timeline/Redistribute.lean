/-
# Montage.Proofs.Timeline.Redistribute -- what an equal share repairs

A target that is shared equally among segments, where it is long enough for all of them, leaves
segments that add up to it, and nothing but their lengths is changed.  In exact arithmetic there
is no more to repair then, unless the timeline has more segments than it may: those are cut off,
what is left falls short of the target by their share, and that is reported again.

A length is reported where it is raised and nowhere else, since that is what its findings are
about (`Finding.Subject`).
-/
import Montage.Proofs.Timeline.Limits
import Montage.Proofs.Timeline.Placement

namespace Montage

set_option autoImplicit false

open Outcome

/-! ## Lengths that are long enough -/

section

variable {τ : Type} [Seconds τ]

namespace Segment

/-- Segments that are long enough are left alone in silence. -/
theorem raisedAll_of_long (index : Nat) {segments : List (Segment τ)}
    (long : ∀ s ∈ segments, s.isLongEnough = true) : raisedAll index segments = pure segments := by
  induction segments generalizing index with
  | nil => rfl
  | cons s rest ih =>
      have first : s.raised index = pure s := if_pos (long s (List.mem_cons_self ..))
      rw [raisedAll, first, ih (index + 1) fun r member => long r (List.mem_cons_of_mem _ member)]
      rfl

/-- Fitting transitions leaves the lengths of segments alone. -/
theorem fittedAll_durations (index : Nat) (room : Option τ) (segments : List (Segment τ)) :
    (fittedAll index room segments).value.map duration = segments.map duration := by
  induction segments generalizing index room with
  | nil => rfl
  | cons s rest ih =>
      rw [fittedAll, value_bind, value_bind, value_pure, List.map_cons, List.map_cons, ih]
      rw [fitted_value]

end Segment

namespace Timeline

variable {t : Timeline τ}

/-- What is left of a timeline keeps its lengths, if they are long enough. -/
theorem normalized_durations
    (long : ∀ s ∈ t.segments.take maxSegments, s.isLongEnough = true) :
    t.normalized.value.segments.map Segment.duration
      = (t.segments.take maxSegments).map Segment.duration := by
  rw [normalized_value, Segment.raisedAll_of_long 0 long]
  exact Segment.fittedAll_durations 0 none _

/-- No length is reported of a timeline whose lengths are long enough. -/
theorem normalized_subject
    (long : ∀ s ∈ t.segments.take maxSegments, s.isLongEnough = true) :
    ∀ d ∈ t.normalized.diagnostics, d.finding.subject ≠ .length := by
  intro d member
  rw [normalized_diagnostics, Segment.raisedAll_of_long 0 long] at member
  simp only [List.mem_append] at member
  rcases member with cutOff | raised | fitted | sum
  · unfold truncated at cutOff
    split at cutOff
    · obtain rfl := List.mem_singleton.mp cutOff
      exact fun length => by cases length
    · cases cutOff
  · cases raised
  · rw [Segment.fittedAll_about 0 none _ d fitted]
    decide
  · rw [Finding.subject_of_mismatch (sumReports_whole _ sum).2]
    decide

/-- No length is reported of what it compiles to either: pieces are about their effects. -/
theorem compile_subject {withAudio : Bool} {c : Compiled τ}
    (compiled : t.compile withAudio = .ok c)
    (long : ∀ s ∈ t.segments.take maxSegments, s.isLongEnough = true) :
    ∀ d ∈ c.diagnostics, d.finding.subject ≠ .length := by
  obtain ⟨-, pieces, made, -, rfl⟩ := exists_pieces compiled
  intro d member
  rcases List.mem_append.mp member with fitting | showing
  · exact normalized_subject long d fitting
  · obtain ⟨p, among, member⟩ := List.mem_flatMap.mp showing
    obtain ⟨k, made⟩ := exists_piece_of_mem made among
    obtain ⟨s, scene, makes⟩ := exists_makes made
    rw [makes.diagnostics] at member
    rw [(Motion.fragment_about _ _).located k d member]
    decide

end Timeline

end

/-! ## Exact shares -/

namespace Timeline

variable {t : Timeline Rat} {total : Rat}

/-- The timeline with the same length for each of its segments. -/
def even (each : Rat) (t : Timeline Rat) : Timeline Rat :=
  { t with segments := t.segments.map fun s => { s with duration := each } }

theorem length_pos (some : t.segments ≠ []) : (0 : Rat) < t.segments.length := by
  exact_mod_cast List.length_pos_iff.mpr some

/-- A share of a target that is long enough for all segments is long enough for one. -/
theorem tenth_le_share (some : t.segments ≠ []) (enough : 0.1 * t.segments.length ≤ total) :
    1 / 10 ≤ total / t.segments.length := by
  rw [le_div_iff₀ (length_pos some)]
  norm_num at enough ⊢
  exact enough

theorem length_mul_share (some : t.segments ≠ []) (total : Rat) :
    t.segments.length * (total / t.segments.length) = total :=
  mul_div_cancel₀ total (length_pos some).ne'

theorem target_pos (some : t.segments ≠ []) (enough : 0.1 * t.segments.length ≤ total) :
    0 < total := by
  rw [← length_mul_share some total]
  exact mul_pos (length_pos some) (by linarith [tenth_le_share some enough])

/-- A target that is long enough for all segments is shared among them as it is. -/
theorem redistributed_eq (some : t.segments ≠ []) (enough : 0.1 * t.segments.length ≤ total) :
    t.redistributed total = t.even (total / t.segments.length) := by
  have share := tenth_le_share some enough
  have positive := target_pos some enough
  have shared : ¬ (t.segments.isEmpty = true ∨ (!Seconds.isUsable total) = true) := by
    simp [some, Seconds.isUsable_of_pos positive]
  have greatest : Seconds.greatest (total / t.segments.length) (minSegment : Rat)
      = total / t.segments.length := by
    unfold Seconds.greatest
    refine if_neg (not_lt.mpr ?_)
    show (0.1 : Rat) ≤ _
    norm_num
    exact share
  unfold redistributed
  rw [if_neg shared]
  show t.even (Seconds.greatest (total / t.segments.length) minSegment) = _
  rw [greatest]

theorem even_long {each : Rat} (long : 1 / 10 ≤ each) :
    ∀ s ∈ (t.even each).segments, s.isLongEnough = true := by
  intro s member
  obtain ⟨a, -, rfl⟩ := List.mem_map.mp member
  refine (Segment.isLongEnough_iff _).mpr ⟨rfl, ?_⟩
  show (0.1 : Rat) ≤ each
  norm_num
  exact long

/-- Equal lengths add up to one for each segment. -/
theorem segmentSum_even (each : Rat) (t : Timeline Rat) :
    (t.even each).segmentSum = t.segments.length * each := by
  rw [segmentSum, total_eq_sum, even, List.map_map]
  show (t.segments.map fun _ => each).sum = _
  rw [List.map_const', List.sum_replicate, nsmul_eq_mul]

/-- What is left of a timeline of equal lengths has as many of them as it may have segments. -/
theorem segmentSum_normalized_even {each : Rat} (long : 1 / 10 ≤ each) (t : Timeline Rat) :
    (t.even each).normalized.value.segmentSum = min 10 t.segments.length * each := by
  have kept := normalized_durations (t := t.even each) fun s member =>
    even_long long s (List.mem_of_mem_take member)
  have cut : (t.even each).segments.take maxSegments = (({ t with
      segments := t.segments.take maxSegments } : Timeline Rat).even each).segments := by
    rw [even, even, List.map_take]
  have sum := segmentSum_even each { t with segments := t.segments.take maxSegments }
  rw [segmentSum, kept, cut]
  rw [segmentSum] at sum
  rw [sum, List.length_take, maxSegments]

/-- A mismatch is reported of a sum that is more than a twentieth away from its target. -/
theorem mismatch?_eq_none_iff (target : t.target = some total) (positive : 0 < total) :
    t.mismatch? = none ↔ |t.segmentSum - total| ≤ 1 / 20 := by
  have usable : Seconds.usable? t.target = some total := by
    rw [target]
    exact Option.filter_some_pos (Seconds.isUsable_of_pos positive)
  have tolerance : (tolerance : Rat) = 1 / 20 := by
    show (0.05 : Rat) = 1 / 20
    norm_num
  have far : (1 / 20 < t.segmentSum - total ∨ 1 / 20 < total - t.segmentSum)
      ↔ ¬ |t.segmentSum - total| ≤ 1 / 20 := by
    rw [not_le, lt_abs, neg_sub]
  unfold mismatch?
  rw [usable]
  dsimp only
  rw [tolerance]
  split
  · rename_i reported
    exact ⟨fun none => (by cases none), fun near => absurd near (far.mp reported)⟩
  · rename_i quiet
    exact ⟨fun _ => by_contra fun away => quiet (far.mpr away), fun _ => rfl⟩

/-- Shared equally, a target is missed by what is left exactly if something is cut off. -/
theorem mismatch?_normalized_redistributed (some : t.segments ≠ [])
    (target : t.target = Option.some total) (enough : 0.1 * t.segments.length ≤ total) :
    (t.redistributed total).normalized.value.mismatch? = none ↔ t.segments.length ≤ 10 := by
  have share := tenth_le_share some enough
  have product := length_mul_share some total
  rw [redistributed_eq some enough, mismatch?_eq_none_iff _ (target_pos some enough),
    segmentSum_normalized_even share]
  · generalize total / t.segments.length = each at share product
    rw [← product]
    constructor
    · intro near
      by_contra crowded
      have eleven : (11 : Rat) ≤ t.segments.length := by exact_mod_cast Nat.lt_of_not_le crowded
      rw [min_eq_left (by linarith), abs_le] at near
      nlinarith [near.1]
    · intro fits
      rw [min_eq_right (by exact_mod_cast fits), sub_self, abs_zero]
      norm_num
  · rw [normalized_value]
    exact target

/-- The sum is reported exactly if the timeline that was fitted misses its target. -/
theorem normalized_mismatch_iff (t : Timeline Rat) :
    (∃ d ∈ t.normalized.diagnostics, d.finding.category = .durationMismatch)
      ↔ t.normalized.value.mismatch? ≠ none := by
  rw [← Option.isSome_iff_ne_none, mismatch_iff, ← filter_mismatch, ne_eq, List.filter_eq_nil_iff]
  simp

/-- **A target that is shared equally is met, as far as there is room for the segments.**  Where
it is long enough for all of them, the segments are as they were but for their lengths, which
are the same and add up to it.  No length is reported when they are fitted or compiled, and
their sum is reported exactly if there are more than ten segments, since those are cut off. -/
theorem redistributed_meets (some : t.segments ≠ []) (target : t.target = Option.some total)
    (enough : 0.1 * t.segments.length ≤ total) :
    (∃ each, t.redistributed total = t.even each ∧ (t.redistributed total).segmentSum = total
        ∧ (t.redistributed total).mismatch? = none)
      ∧ (∀ d ∈ (t.redistributed total).normalized.diagnostics,
        ∀ asked raised, d.finding ≠ .segmentTooShort asked raised)
      ∧ ((∃ d ∈ (t.redistributed total).normalized.diagnostics,
        d.finding.category = .durationMismatch) ↔ 10 < t.segments.length)
      ∧ ∀ withAudio c, (t.redistributed total).compile withAudio = .ok c →
        (∀ d ∈ c.diagnostics, ∀ asked raised, d.finding ≠ .segmentTooShort asked raised)
          ∧ ((∃ d ∈ c.diagnostics, d.finding.category = .durationMismatch)
            ↔ 10 < t.segments.length)
          ∧ (c.mismatch = none ↔ t.segments.length ≤ 10) := by
  have shares := redistributed_eq some enough
  have share := tenth_le_share some enough
  have misses := mismatch?_normalized_redistributed some target enough
  have long : ∀ s ∈ (t.redistributed total).segments.take maxSegments, s.isLongEnough = true := by
    intro s member
    rw [shares] at member
    exact even_long share s (List.mem_of_mem_take member)
  have length {d : Diagnostic} (other : d.finding.subject ≠ .length) (asked raised : Numeral) :
      d.finding ≠ .segmentTooShort asked raised := by
    intro short
    rw [short] at other
    exact other rfl
  have sum : (t.redistributed total).segmentSum = total := by
    rw [shares, segmentSum_even, length_mul_share some]
  have met : (t.redistributed total).mismatch? = none := by
    refine (mismatch?_eq_none_iff ?_ (target_pos some enough)).mpr ?_
    · rw [shares]
      exact target
    · rw [sum, sub_self, abs_zero]
      norm_num
  refine ⟨⟨_, shares, sum, met⟩, ?_, ?_, ?_⟩
  · exact fun d member => length (normalized_subject long d member)
  · rw [normalized_mismatch_iff, ne_eq, misses, not_le]
  · intro withAudio c compiled
    have accounts := (compile_accounts compiled).mismatch
    have kept : c.mismatch = (t.redistributed total).normalized.value.mismatch? := by
      obtain ⟨-, pieces, -, -, rfl⟩ := exists_pieces compiled
      rfl
    refine ⟨fun d member => length (compile_subject compiled long d member), ?_, ?_⟩
    · rw [← accounts, Option.isSome_iff_ne_none, kept, ne_eq, misses, not_le]
    · rw [kept, misses]

/-- Three segments of which one is too short and one has no length, and a transition. -/
def lopsided : Timeline Rat where
  segments := [⟨none, 0, none, none⟩, ⟨none, 1 / 20, none, some ⟨.fade, 3⟩⟩, ⟨none, 90, none, none⟩]
  image := some "scene.png"
  target := some 1

theorem lopsided_meets :
    lopsided.segments ≠ [] ∧ lopsided.target = some 1 ∧ 0.1 * lopsided.segments.length ≤ (1 : Rat)
      ∧ (lopsided.redistributed 1).segments.map Segment.duration = [1 / 3, 1 / 3, 1 / 3]
      ∧ ∃ c, (lopsided.redistributed 1).compile true = .ok c ∧ c.mismatch = none
        ∧ ∀ d ∈ c.diagnostics, ∀ asked raised, d.finding ≠ .segmentTooShort asked raised := by
  have some : lopsided.segments ≠ [] := by simp [lopsided]
  have enough : 0.1 * lopsided.segments.length ≤ (1 : Rat) := by norm_num [lopsided]
  have meets := redistributed_meets some rfl enough
  have lengths : (lopsided.redistributed 1).segments.map Segment.duration = [1 / 3, 1 / 3, 1 / 3] := by
    decide +kernel
  obtain ⟨c, compiled⟩ := (lopsided.redistributed 1).exists_compile true
    (by rw [redistributed_eq some enough]; simp [even, lopsided])
    (by rw [redistributed_eq some enough]; rfl)
  obtain ⟨quiet, -, whole⟩ := meets.2.2.2 true c compiled
  exact ⟨some, rfl, enough, lengths, c, compiled, whole.mpr (by simp [lopsided]), quiet⟩

/-- Eleven segments that are to last for eleven seconds. -/
def crowded : Timeline Rat where
  segments := List.replicate 11 ⟨none, 4, none, none⟩
  image := some "scene.png"
  target := some 11

/-- The eleventh is cut off with its share, and the others are reported to fall short. -/
theorem crowded_falls_short :
    crowded.segments ≠ [] ∧ crowded.target = some 11
      ∧ 0.1 * crowded.segments.length ≤ (11 : Rat)
      ∧ (crowded.redistributed 11).segments.map Segment.duration = List.replicate 11 1
      ∧ (∃ d ∈ (crowded.redistributed 11).normalized.diagnostics,
        d.finding.category = .durationMismatch)
      ∧ ∃ c, (crowded.redistributed 11).compile false = .ok c ∧ c.mismatch ≠ none := by
  have some : crowded.segments ≠ [] := by simp [crowded]
  have enough : 0.1 * crowded.segments.length ≤ (11 : Rat) := by norm_num [crowded]
  have lengths : (crowded.redistributed 11).segments.map Segment.duration
      = List.replicate 11 1 := by
    decide +kernel
  have misses : (crowded.redistributed 11).normalized.value.mismatch? ≠ none := by
    rw [ne_eq, mismatch?_normalized_redistributed some rfl enough]
    simp [crowded]
  obtain ⟨c, compiled⟩ := (crowded.redistributed 11).exists_compile false
    (by rw [redistributed_eq some enough]; simp [even, crowded])
    (by rw [redistributed_eq some enough]; rfl)
  refine ⟨some, rfl, enough, lengths, (normalized_mismatch_iff _).mpr misses, c, compiled, ?_⟩
  obtain ⟨-, pieces, -, -, rfl⟩ := exists_pieces compiled
  exact misses

end Timeline

end Montage
