/-
# Montage.Proofs.Timeline.Fit -- what is left of a timeline within its limits

`Segment.Fits` says what a segment becomes, given the room that the segment before
leaves: which lengths are raised, and which of the wanted length, half of the
segment and the room a transition is cut down to.  The room depends on what was
decided one segment earlier, so the run over all segments is followed with the
room carried along, and never below zero: a transition takes at most half of its
segment, and what is left of that is not negative.
-/
import Montage.Proofs.Seconds
import Montage.Timeline.Fit

namespace Montage

set_option autoImplicit false

open Seconds (isFinite IsShortest Lawful)

/-! ## The value of an outcome -/

namespace Outcome

variable {α β : Type}

@[simp] theorem value_pure (a : α) : (pure a : Outcome α).value = a := rfl

@[simp] theorem value_bind (o : Outcome α) (f : α → Outcome β) :
    (o >>= f).value = (f o.value).value := rfl

end Outcome

variable {τ : Type} [Seconds τ]

/-! ## What is asked of the segments -/

/-- A requested length moved into the range of transitions. -/
inductive MovedIntoRange (asked : τ) : τ → Prop
  | absent : isFinite asked = false → MovedIntoRange asked 0.5
  | raised : isFinite asked = true → asked < 0.1 → MovedIntoRange asked 0.1
  | lowered : isFinite asked = true → 2.0 < asked → MovedIntoRange asked 2.0
  | kept : isFinite asked = true → 0.1 ≤ asked → asked ≤ 2.0 → MovedIntoRange asked asked

namespace Segment

/-- What a segment becomes, where the segment before leaves it some room; there is
none before the first. -/
structure Fits (room : Option τ) (asked kept : Segment τ) : Prop where
  effect : kept.effect = asked.effect
  image : kept.image = asked.image
  finite : isFinite kept.duration = true
  long : (0.1 : τ) ≤ kept.duration
  /-- A length in range is kept, any other is raised. -/
  duration : kept.duration
    = if isFinite asked.duration = true ∧ (0.1 : τ) ≤ asked.duration then asked.duration else 0.1
  /-- No transition appears, and the first segment has none. -/
  none : asked.transition = none ∨ room = none → kept.transition = none
  /-- A transition gets all it wants, as far as it fits, or it is dropped. -/
  fitted : ∀ t r, asked.transition = some t → room = some r → ∃ bounded shortest,
    MovedIntoRange t.duration bounded
      ∧ IsShortest shortest [bounded, kept.duration / 2.0, r]
      ∧ kept.transition = if (0.1 : τ) ≤ shortest then some ⟨t.kind, shortest⟩ else Option.none
  /-- Whatever is kept lies within its bounds. -/
  within : ∀ t, kept.transition = some t →
    (0.1 : τ) ≤ t.duration ∧ t.duration ≤ 2.0 ∧ t.duration ≤ kept.duration / 2.0
      ∧ ∀ r, room = some r → t.duration ≤ r

/-- The room before each of some segments, the first of which has `first`. -/
def roomBefore (first : Option τ) (segments : List (Segment τ)) : Nat → Option τ
  | 0 => first
  | i + 1 => segments[i]?.map remaining

end Segment

/-- What a timeline becomes: its first ten segments, each as it fits behind the one
before, and everything else as it was. -/
structure Timeline.Fits (asked kept : Timeline τ) : Prop where
  rate : kept.rate = asked.rate
  canvas : kept.canvas = asked.canvas
  image : kept.image = asked.image
  target : kept.target = asked.target
  length : kept.segments.length = min 10 asked.segments.length
  segment : ∀ i s, kept.segments[i]? = some s → ∃ a, asked.segments[i]? = some a
    ∧ Segment.Fits (Segment.roomBefore none kept.segments i) a s

variable [Lawful τ]

/-! ## One segment -/

theorem boundedTransition_moved (asked : τ) : MovedIntoRange asked (boundedTransition asked) := by
  unfold boundedTransition Seconds.clamp minTransition maxTransition defaultTransition
  by_cases finite : isFinite asked = true
  · rw [if_pos finite]
    have self := Lawful.le_self_of_finite finite
    split
    · exact .raised finite ‹_›
    · split
      · exact .lowered finite ‹_›
      · refine .kept finite ?_ ?_
        · exact Seconds.le_of_not_lt self Seconds.tenth_le_tenth ‹_›
        · exact Seconds.le_of_not_lt Seconds.two_le_two self ‹_›
  · rw [if_neg finite, if_neg (Seconds.not_lt_of_le Lawful.tenth_le_half),
      if_neg (Seconds.not_lt_of_le Lawful.half_le_two)]
    exact .absent (by simpa using finite)

theorem MovedIntoRange.within {asked bounded : τ} (moved : MovedIntoRange asked bounded) :
    (0.1 : τ) ≤ bounded ∧ bounded ≤ 2.0 := by
  cases moved with
  | absent _ => exact ⟨Lawful.tenth_le_half, Lawful.half_le_two⟩
  | raised _ _ => exact ⟨Seconds.tenth_le_tenth, Seconds.tenth_le_two⟩
  | lowered _ _ => exact ⟨Seconds.tenth_le_two, Seconds.two_le_two⟩
  | kept _ low high => exact ⟨low, high⟩

namespace Segment

omit [Lawful τ] in
theorem isLongEnough_iff (s : Segment τ) :
    s.isLongEnough = true ↔ isFinite s.duration = true ∧ (0.1 : τ) ≤ s.duration := by
  unfold isLongEnough minSegment
  rw [Bool.and_eq_true, decide_eq_true_eq]

omit [Lawful τ] in
theorem raised_value (index : Nat) (s : Segment τ) :
    (s.raised index).value = { s with
      duration := if isFinite s.duration = true ∧ (0.1 : τ) ≤ s.duration then s.duration else 0.1 } := by
  unfold raised
  by_cases long : s.isLongEnough = true
  · rw [if_pos long, if_pos (s.isLongEnough_iff.mp long)]
    rfl
  · rw [if_neg long, if_neg (fun both => long (s.isLongEnough_iff.mpr both))]
    rfl

/-- What a transition is cut down to. -/
def allowance (s : Segment τ) (room : τ) (t : Transition τ) : τ :=
  Seconds.least (Seconds.least (boundedTransition t.duration) (s.duration / 2.0)) room

omit [Lawful τ] in
theorem fittedTransition_value (s : Segment τ) (room : τ) (t : Transition τ) :
    (s.fittedTransition room t).value
      = if s.allowance room t < 0.1 then none else some ⟨t.kind, s.allowance room t⟩ := by
  have either {β : Type} (c : Prop) [Decidable c] (x y : Outcome β) :
      (if c then x else y).value = if c then x.value else y.value := apply_ite _ _ _ _
  unfold fittedTransition
  simp only [Outcome.value_bind, Outcome.value_pure, either, ite_self]
  rfl

omit [Lawful τ] in
theorem fitted_value (index : Nat) (room : Option τ) (s : Segment τ) :
    (s.fitted index room).value = { s with
      transition := s.transition.bind (fun t => room.bind (fun r => (s.fittedTransition r t).value)) } := by
  unfold fitted
  rcases s with ⟨effect, duration, image, _ | t⟩
  · rfl
  · cases room <;> rfl

theorem raised_long (index : Nat) (s : Segment τ) :
    isFinite (s.raised index).value.duration = true ∧ (0.1 : τ) ≤ (s.raised index).value.duration := by
  rw [raised_value]
  show isFinite (if _ then _ else _) = true ∧ (0.1 : τ) ≤ if _ then _ else _
  split
  · assumption
  · exact ⟨Seconds.tenth_finite, Seconds.tenth_le_tenth⟩

/-- The allowance is the smallest of what is wanted, half of the segment and the room. -/
theorem allowance_isShortest {s : Segment τ} {room : τ} (t : Transition τ)
    (long : (0.1 : τ) ≤ s.duration) (roomy : (0.0 : τ) ≤ room) :
    IsShortest (s.allowance room t) [boundedTransition t.duration, s.duration / 2.0, room] := by
  have bounded := (boundedTransition_moved t.duration).within.1
  have half := Lawful.half_le (Seconds.nonneg_of_tenth_le long)
  exact Seconds.least_isShortest (Lawful.le_self bounded).2 (Lawful.le_self half).1
    (Lawful.le_self roomy).2

/-- A transition is kept if its allowance is long enough, and then at that length. -/
theorem fittedTransition_eq {s : Segment τ} {room : τ} (t : Transition τ)
    (long : (0.1 : τ) ≤ s.duration) (roomy : (0.0 : τ) ≤ room) :
    (s.fittedTransition room t).value
      = if (0.1 : τ) ≤ s.allowance room t then some ⟨t.kind, s.allowance room t⟩ else none := by
  have bounded := (allowance_isShortest t long roomy).le _ (List.mem_cons_self ..)
  have self := (Lawful.le_self bounded).1
  rw [fittedTransition_value]
  by_cases short : s.allowance room t < 0.1
  · rw [if_pos short, if_neg (fun le => Seconds.not_lt_of_le le short)]
  · rw [if_neg short, if_pos (Seconds.le_of_not_lt self Seconds.tenth_le_tenth short)]

/-- **One segment fits** behind one that leaves some room. -/
theorem fitted_fits (index position : Nat) {room : Option τ} (asked : Segment τ)
    (roomy : ∀ r, room = some r → (0.0 : τ) ≤ r) :
    Fits room asked ((asked.raised index).value.fitted position room).value := by
  obtain ⟨finite, long⟩ := raised_long index asked
  rw [fitted_value]
  have same := raised_value index asked
  generalize (asked.raised index).value = raised at finite long same
  constructor
  case effect => rw [same]
  case image => rw [same]
  case finite => exact finite
  case long => exact long
  case duration => rw [same]
  case none =>
    rintro (unasked | noRoom)
    · simp [same, unasked]
    · simp [noRoom]
  case fitted =>
    intro t r wanted leaves
    have wanted : raised.transition = some t := by rw [same, wanted]
    refine ⟨_, _, boundedTransition_moved t.duration,
      allowance_isShortest t long (roomy r leaves), ?_⟩
    simp only [wanted, leaves, Option.bind_some]
    exact fittedTransition_eq t long (roomy r leaves)
  case within =>
    intro u kept
    obtain ⟨t, wanted, r, leaves, kept⟩ :
        ∃ t, raised.transition = some t ∧ ∃ r, room = some r
          ∧ (raised.fittedTransition r t).value = some u := by
      simpa [Option.bind_eq_some_iff] using kept
    have shortest := allowance_isShortest t long (roomy r leaves)
    rw [fittedTransition_eq t long (roomy r leaves)] at kept
    split at kept
    · rename_i enough
      obtain rfl := Option.some.inj kept
      refine ⟨enough, ?_, shortest.le _ (by simp), ?_⟩
      · exact Lawful.le_trans (shortest.le _ (by simp)) (boundedTransition_moved t.duration).within.2
      · rintro r' again
        obtain rfl : r = r' := Option.some.inj (leaves.symm.trans again)
        exact shortest.le _ (by simp)
    · cases kept

/-- What a segment that fits leaves to the next one is not below zero. -/
theorem Fits.remaining_nonneg {room : Option τ} {asked kept : Segment τ}
    (fits : Fits room asked kept) : (0.0 : τ) ≤ kept.remaining := by
  unfold remaining
  cases transition : kept.transition with
  | none => exact Seconds.nonneg_of_tenth_le fits.long
  | some t =>
      obtain ⟨low, high, half, -⟩ := fits.within t transition
      have nonneg := Seconds.nonneg_of_tenth_le low
      refine Lawful.sub_nonneg nonneg (Lawful.finite_of_le nonneg high Lawful.two_finite) ?_
      exact Lawful.le_trans half (Lawful.half_le (Seconds.nonneg_of_tenth_le fits.long))

/-! ## All segments -/

/-- Segments as they fit one behind the other, the first behind one that leaves `room`. -/
inductive FitsAll : Option τ → List (Segment τ) → List (Segment τ) → Prop
  | nil (room : Option τ) : FitsAll room [] []
  | cons {room : Option τ} {asked kept : Segment τ} {rest keptRest : List (Segment τ)} :
      Fits room asked kept → FitsAll (some kept.remaining) rest keptRest →
      FitsAll room (asked :: rest) (kept :: keptRest)

/-- A run over segments fits each of them, however long it is. -/
theorem fittedAll_fits (index position : Nat) {room : Option τ} (segments : List (Segment τ))
    (roomy : ∀ r, room = some r → (0.0 : τ) ≤ r) :
    FitsAll room segments (fittedAll position room (raisedAll index segments).value).value := by
  induction segments generalizing index position room with
  | nil => exact .nil room
  | cons s rest ih =>
      have step := fitted_fits index position s roomy
      refine .cons step (ih (index + 1) (position + 1) ?_)
      rintro r leaves
      obtain rfl := Option.some.inj leaves
      exact step.remaining_nonneg

omit [Lawful τ] in
theorem FitsAll.length {room : Option τ} {asked kept : List (Segment τ)}
    (fits : FitsAll room asked kept) : kept.length = asked.length := by
  induction fits with
  | nil => rfl
  | cons _ _ ih => simp [ih]

omit [Lawful τ] in
/-- Every segment of a run fits, behind the room that the one before it leaves. -/
theorem FitsAll.at {room : Option τ} {asked kept : List (Segment τ)} (fits : FitsAll room asked kept)
    (i : Nat) (s : Segment τ) (found : kept[i]? = some s) :
    ∃ a, asked[i]? = some a ∧ Fits (roomBefore room kept i) a s := by
  induction fits generalizing i with
  | nil => simp at found
  | @cons room asked kept rest keptRest first _ ih =>
      cases i with
      | zero =>
          obtain rfl : kept = s := by simpa using found
          exact ⟨asked, rfl, first⟩
      | succ i =>
          obtain ⟨a, member, fits⟩ := ih i (by simpa using found)
          refine ⟨a, by simpa using member, ?_⟩
          cases i with
          | zero => exact fits
          | succ i => simpa [roomBefore] using fits

end Segment

/-! ## The timeline -/

namespace Timeline

omit [Seconds τ] [Lawful τ] in
theorem truncated_value (t : Timeline τ) : t.truncated.value = t.segments.take maxSegments := by
  unfold truncated
  split <;> rfl

omit [Lawful τ] in
theorem normalized_value (t : Timeline τ) :
    t.normalized.value = { t with
      segments := (Segment.fittedAll 0 none
        (Segment.raisedAll 0 (t.segments.take maxSegments)).value).value } := by
  unfold normalized
  simp only [Outcome.value_bind, truncated_value]
  split <;> rfl

theorem fitsAll_normalized (t : Timeline τ) :
    Segment.FitsAll none (t.segments.take maxSegments) t.normalized.value.segments := by
  rw [normalized_value]
  exact Segment.fittedAll_fits 0 0 _ (fun r none => by cases none)

theorem fits_normalized (t : Timeline τ) : t.Fits t.normalized.value := by
  have all := t.fitsAll_normalized
  constructor
  case rate => rw [normalized_value]
  case canvas => rw [normalized_value]
  case image => rw [normalized_value]
  case target => rw [normalized_value]
  case length => simpa [maxSegments] using all.length
  case segment =>
    intro i s found
    obtain ⟨a, member, fits⟩ := all.at i s found
    refine ⟨a, ?_, fits⟩
    rw [List.getElem?_take] at member
    split at member
    · exact member
    · cases member

/-- **What jobs are computed in fits**: whatever lengths a timeline of doubles asks
for, an infinity or a NaN among them, the segments that are left fit. -/
theorem normalized_fits (t : Timeline Float) : t.Fits t.normalized.value := t.fits_normalized

/-- A length that is a NaN is raised and then leaves no more than it is, and what an
infinite request gets is what the segment before has left. -/
example :
    let asked : Timeline Float :=
      { segments := [⟨none, 1.0, none, some ⟨.fade, 1.0⟩⟩, ⟨none, 0.0 / 0.0, none, some ⟨.fade, 2.0⟩⟩,
          ⟨none, 0.5, none, some ⟨.dissolve, 2.0⟩⟩, ⟨none, 4.0, none, some ⟨.radial, 1.0 / 0.0⟩⟩] }
    asked.normalized.value.segments.map
        (fun s => (s.duration, s.transition.map Transition.duration))
      = [(1.0, none), (0.1, none), (0.5, some 0.1), (4.0, some 0.4)] := by
  decide +kernel

end Timeline

end Montage
