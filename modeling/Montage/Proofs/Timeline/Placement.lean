/-
# Montage.Proofs.Timeline.Placement -- when each segment is shown

The plan of a compiled timeline says where each segment begins: at the offset of
its transition, or at the end of what comes before.  `slots` reads the plan that
way, and here it is shown, in exact arithmetic, that nothing is missing and that
never more than two segments are shown.

The slots are followed from the first to the last.  What is carried along is where
the slot before the last one ends (`past`): the next slot begins no earlier, since
its transition takes no more than what the last slot has left for it.
-/
import Montage.Proofs.Timeline.Compile

namespace Montage

set_option autoImplicit false

/-! ## Slots -/

/-- When a segment is shown: from the start on, and no longer at the stop. -/
structure Slot where
  start : Rat
  stop : Rat

namespace Slot

/-- For how long a segment is shown. -/
def length (s : Slot) : Rat := s.stop - s.start

/-- Whether a segment is shown at an instant. -/
def Shows (x : Rat) (s : Slot) : Prop := s.start ≤ x ∧ x < s.stop

instance (x : Rat) : DecidablePred (Shows x) := fun _ => inferInstanceAs (Decidable (_ ∧ _))

end Slot

/-- Where a segment begins behind one that stops at `stop`. -/
def Boundary.start (stop : Rat) : Boundary Rat → Rat
  | .cut _ => stop
  | .transition _ _ _ offset => offset

/-- When a transition is shown. -/
def Boundary.span? : Boundary Rat → Option Slot
  | .cut _ => none
  | .transition _ _ duration offset => some ⟨offset, offset + duration⟩

/-- The slots of segments of some lengths, behind a slot that stops at `stop`. -/
def slotsFrom (stop : Rat) : List (Boundary Rat) → List Rat → List Slot
  | b :: bs, d :: ds =>
      ⟨b.start stop, b.start stop + d⟩ :: slotsFrom (b.start stop + d) bs ds
  | _, _ => []

/-- The slots of segments of some lengths, the first of which begins at zero. -/
def slots (bs : List (Boundary Rat)) : List Rat → List Slot
  | [] => []
  | d :: ds => ⟨0, d⟩ :: slotsFrom d bs ds

/-- Slots that show at least one and at most two segments from zero to the end. -/
structure Seamless (bs : List (Boundary Rat)) (ss : List Slot) (stop : Rat) : Prop where
  /-- Two slots overlap for as long as is planned, inside both of them. -/
  joined : ∀ i b p s, bs[i]? = some b → ss[i]? = some p → ss[i + 1]? = some s →
    p.stop - s.start = b.overlap ∧ s.start ≤ p.stop ∧ p.start ≤ s.start ∧ p.stop ≤ s.stop
  /-- They overlap at transitions and nowhere else. -/
  transition : ∀ b ∈ bs, b.isTransition = true ↔ 0 < b.overlap
  /-- A slot ends before the second one after it begins. -/
  apart : ∀ i p s, ss[i]? = some p → ss[i + 2]? = some s → p.stop ≤ s.start
  /-- A transition ends before the next one begins. -/
  spans : (bs.filterMap Boundary.span?).Pairwise (fun a b => a.stop ≤ b.start)
  /-- Transitions begin one after the other. -/
  offsets : (bs.filterMap Boundary.span?).Pairwise (fun a b => a.start < b.start)
  atLeastOne : ∀ x, 0 ≤ x → x < stop → ∃ s ∈ ss, s.Shows x
  atMostTwo : ∀ x, (ss.filter (Slot.Shows x)).length ≤ 2
  last : ss.getLast?.map Slot.stop = some stop

/-! ## Slots laid one behind the other -/

/-- A slot behind another one, which begins no earlier than at `past`. -/
structure Joined (past : Rat) (p : Slot) (b : Boundary Rat) (s : Slot) : Prop where
  begun : p.start ≤ past
  free : past ≤ s.start
  overlap : p.stop - s.start = b.overlap
  nonneg : 0 ≤ b.overlap
  transition : b.isTransition = true ↔ 0 < b.overlap
  span : ∀ u, b.span? = some u → u = ⟨s.start, p.stop⟩
  longer : p.stop < s.stop

/-- Slots behind a slot `p`, none of which begins before `past`. -/
inductive Laid : Rat → Slot → List (Boundary Rat) → List Slot → Prop
  | nil (past : Rat) (p : Slot) : Laid past p [] []
  | cons {past : Rat} {p s : Slot} {b : Boundary Rat} {bs : List (Boundary Rat)} {ss : List Slot} :
      Joined past p b s → Laid p.stop s bs ss → Laid past p (b :: bs) (s :: ss)

namespace Laid

variable {past : Rat} {p : Slot} {bs : List (Boundary Rat)} {ss : List Slot}

/-- No slot begins before `past`. -/
theorem le_start (laid : Laid past p bs ss) : ∀ s ∈ ss, past ≤ s.start := by
  induction laid with
  | nil => simp
  | @cons past p s b bs ss joined _ ih =>
      intro later member
      rcases List.mem_cons.mp member with rfl | member
      · exact joined.free
      · have := ih later member
        have := joined.free
        have := joined.overlap
        have := joined.nonneg
        linarith

/-- Every slot but the first is joined to the one before it. -/
theorem joined (laid : Laid past p bs ss) (i : Nat) (b : Boundary Rat) (q s : Slot)
    (between : bs[i]? = some b) (before : (p :: ss)[i]? = some q) (after : ss[i]? = some s) :
    ∃ past, Joined past q b s := by
  induction laid generalizing i with
  | nil => simp at after
  | @cons past p _ _ bs ss joined _ ih =>
      cases i with
      | zero =>
          obtain rfl := Option.some.inj between
          obtain rfl := Option.some.inj before
          obtain rfl := Option.some.inj after
          exact ⟨past, joined⟩
      | succ i => exact ih i between before after

/-- A slot ends before the second one after it begins. -/
theorem apart (laid : Laid past p bs ss) (i : Nat) (q s : Slot) (before : (p :: ss)[i]? = some q)
    (after : (p :: ss)[i + 2]? = some s) : q.stop ≤ s.start := by
  induction laid generalizing i with
  | nil => simp at after
  | cons _ laid ih =>
      cases i with
      | zero =>
          obtain rfl := Option.some.inj before
          exact laid.le_start s (List.mem_of_getElem? after)
      | succ i => exact ih i before after

theorem transition (laid : Laid past p bs ss) : ∀ b ∈ bs, b.isTransition = true ↔ 0 < b.overlap := by
  induction laid with
  | nil => simp
  | cons joined _ ih =>
      intro b member
      rcases List.mem_cons.mp member with rfl | member
      · exact joined.transition
      · exact ih b member

/-- No transition begins before `past`, and all of them last. -/
theorem le_span (laid : Laid past p bs ss) :
    ∀ u ∈ bs.filterMap Boundary.span?, past ≤ u.start ∧ u.start < u.stop := by
  induction laid with
  | nil => simp
  | @cons past p s b bs ss joined _ ih =>
      intro u member
      have := joined.free
      have := joined.overlap
      obtain ⟨b', among, span⟩ := List.mem_filterMap.mp member
      rcases List.mem_cons.mp among with rfl | among
      · obtain rfl := joined.span u span
        have positive : 0 < b'.overlap := by
          rw [← joined.transition]
          cases b' with
          | cut _ => cases span
          | transition _ _ _ _ => rfl
        exact ⟨joined.free, show s.start < p.stop by linarith⟩
      · obtain ⟨later, lasts⟩ := ih u (List.mem_filterMap.mpr ⟨b', among, span⟩)
        have := joined.nonneg
        exact ⟨by linarith, lasts⟩

/-- One transition ends before the next one begins. -/
theorem spans (laid : Laid past p bs ss) :
    (bs.filterMap Boundary.span?).Pairwise (fun a b => a.stop ≤ b.start) := by
  induction laid with
  | nil => simp
  | @cons past p s b bs ss joined laid ih =>
      cases span : b.span? with
      | none => simpa [List.filterMap_cons, span] using ih
      | some u =>
          obtain rfl := joined.span u span
          rw [List.filterMap_cons, span]
          exact .cons (fun v member => (laid.le_span v member).1) ih

theorem offsets (laid : Laid past p bs ss) :
    (bs.filterMap Boundary.span?).Pairwise (fun a b => a.start < b.start) :=
  laid.spans.imp_of_mem (fun member _ apart => lt_of_lt_of_le (laid.le_span _ member).2 apart)

/-- At any instant at most two segments are shown. -/
theorem atMostTwo (laid : Laid past p bs ss) (x : Rat) :
    ((p :: ss).filter (Slot.Shows x)).length ≤ 2 := by
  induction laid with
  | nil past p => exact (List.length_filter_le _ _).trans (by simp)
  | @cons past p s b bs ss _ laid ih =>
      by_cases shows : p.Shows x
      · -- The slots after the next one begin when the first one is gone.
        have later : ss.filter (Slot.Shows x) = [] := by
          rw [List.filter_eq_nil_iff]
          intro s member
          have := laid.le_start s member
          have := shows.2
          rw [decide_eq_true_eq]
          rintro ⟨reached, -⟩
          linarith
        rw [List.filter_cons, List.filter_cons, later]
        split <;> split <;> simp
      · rw [List.filter_cons, if_neg (by simpa using shows)]
        exact ih

/-- Until the last slot stops a segment is shown. -/
theorem atLeastOne (laid : Laid past p bs ss) {x : Rat} (begun : p.start ≤ x)
    (notOver : ∀ last, (p :: ss).getLast? = some last → x < last.stop) :
    ∃ s ∈ p :: ss, s.Shows x := by
  induction laid with
  | nil past p => exact ⟨p, by simp, begun, notOver p rfl⟩
  | @cons past p s b bs ss joined laid ih =>
      by_cases early : x < p.stop
      · exact ⟨p, by simp, begun, early⟩
      · have next : s.start ≤ x := by
          have := joined.overlap
          have := joined.nonneg
          linarith
        obtain ⟨shown, member, shows⟩ := ih next (by simpa using notOver)
        exact ⟨shown, by simp [member], shows⟩

/-- The last slot stops after all lengths less what is shown twice. -/
theorem last (laid : Laid past p bs ss) :
    (p :: ss).getLast?.map Slot.stop
      = some (p.stop + (ss.map Slot.length).sum - (bs.map Boundary.overlap).sum) := by
  induction laid with
  | nil past p => simp
  | @cons past p s b bs ss joined _ ih =>
      rw [List.getLast?_cons_cons, ih]
      have := joined.overlap
      simp only [List.map_cons, List.sum_cons, Slot.length]
      congr 1
      linarith

/-- Slots that are laid from zero on are seamless. -/
theorem seamless (laid : Laid past p bs ss) (first : p.start = 0) :
    Seamless bs (p :: ss) (p.stop + (ss.map Slot.length).sum - (bs.map Boundary.overlap).sum) where
  joined i b q s between before after := by
    obtain ⟨past, joined⟩ := laid.joined i b q s between before (by simpa using after)
    have := joined.overlap
    have := joined.nonneg
    refine ⟨joined.overlap, by linarith, joined.begun.trans joined.free, joined.longer.le⟩
  transition := laid.transition
  apart := laid.apart
  spans := laid.spans
  offsets := laid.offsets
  atLeastOne x nonneg notOver := by
    refine laid.atLeastOne (first.trans_le nonneg) (fun last found => ?_)
    have stops := laid.last
    rw [found] at stops
    rw [Option.some.inj stops]
    exact notOver
  atMostTwo := laid.atMostTwo
  last := laid.last

end Laid

/-! ## The plan of a timeline lays slots -/

/-- What overlaps in exact arithmetic, and what is left of it. -/
theorem Segment.Fits.overlap_exact {room : Rat} {asked kept : Segment Rat} {t : Transition Rat}
    (fits : Segment.Fits (some room) asked kept) (some : kept.transition = some t) :
    0 < t.duration ∧ t.duration ≤ room ∧ t.duration < kept.duration := by
  obtain ⟨low, -, half, fit⟩ := fits.within t some
  change (0.1 : Rat) ≤ t.duration at low
  change t.duration ≤ kept.duration / (2.0 : Rat) at half
  norm_num at low half
  refine ⟨by linarith, fit room rfl, by linarith⟩

theorem Segment.Fits.duration_pos {room : Option Rat} {asked kept : Segment Rat}
    (fits : Segment.Fits room asked kept) : 0 < kept.duration := by
  have long := fits.long
  change (0.1 : Rat) ≤ kept.duration at long
  norm_num at long
  linarith

theorem overlap_cut (index : Nat) : (Boundary.cut index : Boundary Rat).overlap = 0 := by
  show (0.0 : Rat) = 0
  norm_num

/-- A slot behind another one, of a segment that is put behind it. -/
theorem joined_cut {past duration : Rat} {p : Slot} (index : Nat) (begun : p.start ≤ past)
    (free : past ≤ p.stop) (positive : 0 < duration) :
    Joined past p (.cut index) ⟨p.stop, p.stop + duration⟩ where
  begun := begun
  free := free
  overlap := by
    rw [overlap_cut]
    exact sub_self _
  nonneg := (overlap_cut index).ge
  transition := by simp [overlap_cut, Boundary.isTransition]
  span u none := by cases none
  longer := by
    show p.stop < p.stop + duration
    linarith

/-- A slot behind another one, of a segment that overlaps it. -/
theorem joined_transition {past duration overlap : Rat} {p : Slot} (index : Nat)
    (kind : TransitionKind) (begun : p.start ≤ past) (free : past ≤ p.stop - overlap)
    (shown : 0 < overlap) (shorter : overlap < duration) :
    Joined past p (.transition index kind overlap (p.stop - overlap))
      ⟨p.stop - overlap, p.stop - overlap + duration⟩ where
  begun := begun
  free := free
  overlap := sub_sub_cancel _ _
  nonneg := shown.le
  transition := by simp [Boundary.isTransition, Boundary.overlap, shown]
  span u span := by
    obtain rfl := Option.some.inj span
    rw [sub_add_cancel]
  longer := by
    show p.stop < p.stop - overlap + duration
    linarith

/-- A run over segments that fit lays their slots, behind one that leaves some room. -/
theorem laid_boundariesFrom {index : Nat} {room past : Rat} {p : Slot}
    {asked kept : List (Segment Rat)} {pieces : List (Piece Rat)}
    (fits : Segment.FitsAll (some room) asked kept)
    (renders : List.Forall₂ Piece.Renders kept pieces) (roomy : 0 ≤ room) (nonneg : 0 ≤ past)
    (begun : p.start ≤ past) (left : past + room = p.stop) :
    Laid past p (Piece.boundariesFrom index p.stop pieces)
      (slotsFrom p.stop (Piece.boundariesFrom index p.stop pieces)
        (kept.map Segment.duration)) := by
  -- The room is carried along as the part of the last slot that is shown alone.
  induction renders generalizing index room past p asked with
  | nil => exact .nil past p
  | @cons s piece kept pieces render _ ih =>
      obtain ⟨duration, transition⟩ := render
      cases fits with
      | cons fit rest =>
      have positive := fit.duration_pos
      cases wanted : s.transition with
      | none =>
          have whole : s.remaining = s.duration := by rw [Segment.remaining, wanted]
          rw [whole] at rest
          rw [Piece.boundariesFrom_cut pieces (transition.trans wanted), duration]
          exact .cons (joined_cut index begun (by linarith) positive)
            (ih rest positive.le (by linarith) le_rfl rfl)
      | some t =>
          have part : s.remaining = s.duration - t.duration := by rw [Segment.remaining, wanted]
          rw [part] at rest
          obtain ⟨shown, before, shorter⟩ := fit.overlap_exact wanted
          obtain ⟨positive, -, -, -, after⟩ := fit.overlap wanted
          have enough : t.duration ≤ p.stop := by linarith
          have running : p.stop + (s.duration - t.duration) = p.stop - t.duration + s.duration := by
            ring
          rw [Piece.boundariesFrom_transition pieces (transition.trans wanted) positive enough
            (duration ▸ after), duration]
          refine .cons (joined_transition index t.kind begun (by linarith) shown shorter) ?_
          change Laid p.stop _
            (Piece.boundariesFrom (index + 1) (p.stop + (s.duration - t.duration)) pieces)
            (slotsFrom (p.stop - t.duration + s.duration)
              (Piece.boundariesFrom (index + 1) (p.stop + (s.duration - t.duration)) pieces) _)
          rw [running]
          refine ih rest ?_ ?_ ?_ ?_
          · exact (sub_pos.mpr shorter).le
          · show 0 ≤ p.stop
            linarith
          · show p.stop - t.duration ≤ p.stop
            linarith
          · show p.stop + (s.duration - t.duration) = p.stop - t.duration + s.duration
            ring

theorem slotsFrom_length (stop : Rat) (bs : List (Boundary Rat)) (ds : List Rat)
    (one : bs.length = ds.length) : (slotsFrom stop bs ds).map Slot.length = ds := by
  induction ds generalizing bs stop with
  | nil =>
      rw [List.eq_nil_of_length_eq_zero one]
      rfl
  | cons d ds ih =>
      cases bs with
      | nil => cases one
      | cons b bs =>
          rw [slotsFrom, List.map_cons, ih _ bs (by simpa using one)]
          congr 1
          exact add_sub_cancel_left _ _

theorem total_eq_sum (ts : List Rat) : Seconds.total ts = ts.sum := by
  have from_zero (a : Rat) : ts.foldl (· + ·) a = a + ts.sum := by
    induction ts generalizing a with
    | nil => simp
    | cons t ts ih => rw [List.foldl_cons, ih, List.sum_cons, add_assoc]
  exact (from_zero 0).trans (zero_add _)

theorem durations_eq {kept : List (Segment Rat)} {pieces : List (Piece Rat)}
    (renders : List.Forall₂ Piece.Renders kept pieces) :
    pieces.map Piece.duration = kept.map Segment.duration := by
  induction renders with
  | nil => rfl
  | cons render _ ih => rw [List.map_cons, List.map_cons, render.1, ih]

theorem joinedLength_eq (pieces : List (Piece Rat)) :
    Piece.joinedLength pieces = (pieces.map Piece.duration).sum
      - ((Piece.boundaries pieces).map Boundary.overlap).sum := by
  unfold Piece.joinedLength
  rw [total_eq_sum, total_eq_sum]

namespace Timeline

/-- **The plan of a compiled timeline is seamless** in exact arithmetic: its slots have the
lengths of the segments, they show one or two segments at any time, two of them exactly
during the transitions, and they end when the video does, which lasts as long as the
segments less what overlaps. -/
theorem compile_seamless {t : Timeline Rat} {withAudio : Bool} {c : Compiled Rat}
    (compiled : t.compile withAudio = .ok c) :
    let durations := t.normalized.value.segments.map Segment.duration
    Seamless c.boundaries (slots c.boundaries durations) c.video
      ∧ (slots c.boundaries durations).map Slot.length = durations
      ∧ c.video = durations.sum - (c.boundaries.map Boundary.overlap).sum := by
  obtain ⟨segments, pieces, made, boundaries, video⟩ := compile_eq_ok compiled
  have renders := pieces_render made
  have fits := t.fitsAll_normalized
  have some : t.segments.take maxSegments ≠ [] := by simpa [maxSegments] using segments
  rw [video, boundaries]
  generalize t.normalized.value.segments = kept at renders fits
  generalize t.segments.take maxSegments = asked at some fits
  cases renders with
  | nil =>
      cases fits
      exact absurd rfl some
  | @cons s p kept pieces render renders =>
      cases fits with
      | cons fit rest =>
      have whole : s.remaining = s.duration := by rw [Segment.remaining, fit.none (.inr rfl)]
      rw [whole] at rest
      have planned : Piece.boundaries (p :: pieces) = Piece.boundariesFrom 1 s.duration pieces := by
        rw [← render.1]
        rfl
      have one : (Piece.boundaries (p :: pieces)).length = (kept.map Segment.duration).length := by
        rw [Piece.boundaries_length, List.length_map, renders.length_eq]
      have laid : Laid 0 ⟨0, s.duration⟩ (Piece.boundaries (p :: pieces))
          (slotsFrom s.duration (Piece.boundaries (p :: pieces)) (kept.map Segment.duration)) := by
        rw [planned]
        exact laid_boundariesFrom rest renders fit.duration_pos.le le_rfl le_rfl (zero_add _)
      have lengths := slotsFrom_length s.duration _ _ one
      have sum := joinedLength_eq (p :: pieces)
      rw [durations_eq (.cons render renders), List.map_cons] at sum
      refine ⟨?_, ?_, sum⟩
      · have seamless := laid.seamless rfl
        rw [lengths] at seamless
        rw [sum, List.sum_cons]
        exact seamless
      · show (s.duration - 0) :: _ = _
        rw [lengths, sub_zero]
        rfl

/-- Three segments chained by transitions, the second of which is shown alone at no
time, and one behind them. -/
def chained : Timeline Rat where
  segments := [⟨none, 4, none, none⟩, ⟨none, 2, none, some ⟨.fade, 1⟩⟩,
    ⟨none, 2, none, some ⟨.wipeLeft, 2⟩⟩, ⟨none, 3, none, none⟩]
  image := some "scene.png"

theorem chained_seamless :
    ∃ c, chained.compile false = .ok c
      ∧ (slots c.boundaries [4, 2, 2, 3]).map Slot.start = [0, 3, 4, 6] ∧ c.video = 9
      ∧ Seamless c.boundaries
          (slots c.boundaries (chained.normalized.value.segments.map Segment.duration)) c.video := by
  obtain ⟨c, compiled⟩ := chained.exists_compile false (by simp [chained]) rfl
  have planned : (chained.compile false).toOption.map
        (fun c => ((slots c.boundaries [4, 2, 2, 3]).map Slot.start, c.video))
      = some ([0, 3, 4, 6], 9) := by
    decide +kernel
  rw [compiled] at planned
  obtain ⟨starts, video⟩ := Prod.mk.inj (Option.some.inj planned)
  exact ⟨c, compiled, starts, video, (compile_seamless compiled).1⟩

end Timeline

end Montage
