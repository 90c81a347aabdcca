/-
# Montage.Proofs.Timeline.Reach -- whether frames last until a transition ends

Offsets are planned from the lengths of pieces, but a zoom, or a formula over the time,
shows whole frames only, and what a length has beyond its last whole frame is never shown.
So a transition may be planned to end after the last frame of what comes before it.  Here
is by how much, in exact arithmetic: by less than one frame for every piece before the
boundary, and not at all only if every one of these is a whole number of frames long.

The sums are those of a prefix of the pieces, so the run over the boundaries is followed
with the length so far carried along, and the rest is arithmetic of one piece at a time.
-/
import Montage.Proofs.Timeline.Account
import Montage.Proofs.Timeline.Piece
import Mathlib.Data.Rat.Floor

namespace Montage

set_option autoImplicit false

/-! ## Frames as filters count them -/

/-- The frames that a filter makes of one, if it counts them. -/
def Filter.held? (f : Filter) : Option Nat :=
  if f.name = "zoompan" then (f.get? "d").bind count?
  else if f.name = "loop" then ((f.get? "loop").bind count?).map (· + 1)
  else none

/-- The frames that a chain makes of one, if one of its filters counts them. -/
def Chain.held? (c : Chain) : Option Nat := c.findSome? Filter.held?

/-- The rate that a timeline is shown at. -/
def Timeline.playRate {τ : Type} (t : Timeline τ) : Nat := if t.rate = 0 then 25 else t.rate

/-- For how long the frames of a piece are shown. -/
def Piece.shown (rate : Nat) (p : Piece Rat) : Rat := p.frames / rate

deriving instance DecidableEq for Boundary

/-- The instant at which a transition ends, if it has a value. -/
def Boundary.stop? {τ : Type} [Seconds τ] : Boundary τ → Option Rat
  | .cut _ => none
  | .transition _ _ duration offset => do return (← Seconds.exact offset) + (← Seconds.exact duration)

/-- How a transition that ends at `stop` compares with the frames of what comes before it,
where `overlaps` is what overlaps in there. -/
structure Shortfall (rate : Nat) (left : List (Piece Rat)) (overlaps stop : Rat) : Prop where
  planned : stop = (left.map Piece.duration).sum - overlaps
  /-- It is less than a frame for each piece, as long as frames can be counted. -/
  bounded : (∀ p ∈ left, p.duration * rate < 2 ^ 64) →
    stop < (left.map (Piece.shown rate)).sum - overlaps + left.length / rate
  /-- There is none only if no piece ends between two frames. -/
  absent : 10 ≤ rate → (stop ≤ (left.map (Piece.shown rate)).sum - overlaps
    ↔ ∀ p ∈ left, (p.frames : Rat) = p.duration * rate)

/-! ## The frames of one piece -/

/-- Where frames are counted, there are as many as the clip has. -/
theorem pieceSteps_held {τ : Type} [Seconds τ] {clip : Clip τ} {f : Fragment}
    (shape : Motion.Shape clip.canvas clip.rate f) (counted : f.family ≠ .passThrough) :
    (Chain.ofSteps (pieceSteps clip f)).held? = some clip.frames := by
  cases shape with
  | zoom z x y span =>
      simp [Chain.held?, Chain.ofSteps, pieceSteps, holdFor, Step.filter, Filter.held?, Filter.get?,
        Filter.arg, Filter.formula, count?_repr]
  | window enlarge window span larger =>
      have positive : 1 ≤ clip.frames := Seconds.one_le_wholeFrames clip.rate clip.duration
      rw [pieceSteps_window]
      simp [Chain.held?, Chain.ofSteps, Step.filter, Filter.held?, Filter.get?, Filter.arg,
        count?_repr]
      omega
  | still span => exact absurd rfl counted

theorem Timeline.piece_held {τ : Type} [Seconds τ] {t : Timeline τ} {index : Nat} {p : Piece τ}
    (made : t.piece index = .ok p) (counted : p.family ≠ .passThrough) :
    p.chain.held? = some p.frames := by
  obtain ⟨s, scene, makes⟩ := exists_makes made
  rw [makes.chain, makes.frames]
  exact pieceSteps_held (t.fragment_shape s) (makes.family ▸ counted)

section

variable {rate : Nat} {d : Rat}

theorem Seconds.wholeFrames_of_pos (rate : Nat) (positive : 0 < d) :
    Seconds.wholeFrames rate d = min maxLong (max 1 ⌊d * rate⌋₊) := by
  have usable := Seconds.isUsable_of_pos positive
  rw [Seconds.wholeFrames_of_exact usable (show Seconds.exact (d * rate) = some (d * rate) from rfl),
    ← Int.floor_toNat]
  rfl

/-- At least one frame fits, so no frame is shown that does not fit. -/
theorem Seconds.wholeFrames_le (positive : 0 < d) (fits : 1 ≤ d * rate) :
    (Seconds.wholeFrames rate d : Rat) ≤ d * rate := by
  have floor : (⌊d * rate⌋₊ : Rat) ≤ d * rate := Nat.floor_le (by linarith)
  rw [wholeFrames_of_pos rate positive]
  push_cast
  exact le_trans (min_le_right _ _) (max_le fits floor)

/-- What is not shown is less than a frame. -/
theorem Seconds.lt_wholeFrames (positive : 0 < d) (short : d * rate < 2 ^ 64) :
    d * rate < Seconds.wholeFrames rate d + 1 := by
  have nonneg : 0 ≤ d * rate := mul_nonneg positive.le rate.cast_nonneg
  have whole : ⌊d * rate⌋₊ < 2 ^ 64 := (Nat.floor_lt nonneg).mpr (by exact_mod_cast short)
  have frames : ⌊d * rate⌋₊ ≤ Seconds.wholeFrames rate d := by
    rw [wholeFrames_of_pos rate positive]
    unfold maxLong
    omega
  calc d * rate < ⌊d * rate⌋₊ + 1 := Nat.lt_floor_add_one _
    _ ≤ Seconds.wholeFrames rate d + 1 := by exact_mod_cast Nat.succ_le_succ frames

end

/-! ## The frames of some pieces -/

/-- A piece is long enough, and its frames are counted from its length. -/
structure Piece.Counted (rate : Nat) (p : Piece Rat) : Prop where
  long : 1 / 10 ≤ p.duration
  frames : p.frames = Seconds.wholeFrames rate p.duration

namespace Piece.Counted

variable {rate : Nat} {p : Piece Rat}

theorem positive (counted : p.Counted rate) : 0 < p.duration := by
  have := counted.long
  linarith

theorem shown_le (counted : p.Counted rate) (fast : 10 ≤ rate) : p.shown rate ≤ p.duration := by
  have many : (10 : Rat) ≤ rate := by exact_mod_cast fast
  have long := counted.long
  have fits : 1 ≤ p.duration * rate := by nlinarith
  rw [shown, div_le_iff₀ (by linarith), counted.frames]
  exact Seconds.wholeFrames_le counted.positive fits

theorem lt_shown (counted : p.Counted rate) (some : 0 < rate) (short : p.duration * rate < 2 ^ 64) :
    p.duration < p.shown rate + 1 / rate := by
  have positive : (0 : Rat) < rate := by exact_mod_cast some
  rw [shown, ← add_div, lt_div_iff₀ positive, counted.frames]
  exact Seconds.lt_wholeFrames counted.positive short

theorem le_shown_iff (counted : p.Counted rate) (fast : 10 ≤ rate) :
    p.duration ≤ p.shown rate ↔ (p.frames : Rat) = p.duration * rate := by
  have positive : (0 : Rat) < rate := by exact_mod_cast (by omega : 0 < rate)
  have le := counted.shown_le fast
  rw [shown, div_le_iff₀ positive] at le
  rw [shown, le_div_iff₀ positive]
  exact ⟨fun ge => le_antisymm le ge, fun same => same.ge⟩

end Piece.Counted

section

variable {rate : Nat} {left : List (Piece Rat)}

theorem Piece.sum_lt_shown (counted : ∀ p ∈ left, p.Counted rate) (some : 0 < rate)
    (nonempty : left ≠ []) (short : ∀ p ∈ left, p.duration * rate < 2 ^ 64) :
    (left.map Piece.duration).sum < (left.map (Piece.shown rate)).sum + left.length / rate := by
  have each := List.sum_lt_sum_of_ne_nil nonempty Piece.duration
    (fun p => p.shown rate + 1 / rate)
    (fun p member => (counted p member).lt_shown some (short p member))
  rw [List.sum_map_add] at each
  simpa [div_eq_mul_inv] using each

/-- The lengths are shown in full only if each of them is. -/
theorem Piece.sum_le_shown_iff (counted : ∀ p ∈ left, p.Counted rate) (fast : 10 ≤ rate) :
    (left.map Piece.duration).sum ≤ (left.map (Piece.shown rate)).sum
      ↔ ∀ p ∈ left, (p.frames : Rat) = p.duration * rate := by
  constructor
  · intro enough p member
    refine ((counted p member).le_shown_iff fast).mp (le_of_not_gt fun less => ?_)
    exact absurd enough (not_le_of_gt (List.sum_lt_sum _ _
      (fun q inside => (counted q inside).shown_le fast) ⟨p, member, less⟩))
  · intro whole
    exact List.sum_le_sum fun p member => ((counted p member).le_shown_iff fast).mpr (whole p member)

theorem Shortfall.of_counted (counted : ∀ p ∈ left, p.Counted rate) (some : 0 < rate)
    (nonempty : left ≠ []) {overlaps stop : Rat}
    (planned : stop = (left.map Piece.duration).sum - overlaps) :
    Shortfall rate left overlaps stop where
  planned := planned
  bounded short := by
    have := Piece.sum_lt_shown counted some nonempty short
    linarith
  absent fast := by
    rw [← Piece.sum_le_shown_iff counted fast, planned]
    exact sub_le_sub_iff_right _

end

/-! ## The boundaries of some pieces -/

/-- What lasts until a transition ends is what all before it add up to, less what they overlap. -/
theorem Piece.boundariesFrom_split {index : Nat} {running : Rat} {rest : List (Piece Rat)}
    {before after : List (Boundary Rat)} {i : Nat} {kind : TransitionKind} {duration offset : Rat}
    (planned : boundariesFrom index running rest
      = before ++ .transition i kind duration offset :: after) :
    i = index + before.length ∧ before.length < rest.length
      ∧ offset + duration = running + ((rest.take before.length).map Piece.duration).sum
        - (before.map Boundary.overlap).sum := by
  have here : (boundariesFrom index running rest)[before.length]?
      = some (.transition i kind duration offset) := by
    rw [planned, List.getElem?_append_right le_rfl, Nat.sub_self]
    rfl
  have positions := congrArg (·[before.length]?) (boundariesFrom_index index running rest)
  obtain ⟨p, there, decides⟩ := boundariesFrom_decides _ here
  obtain ⟨inside, -⟩ := List.getElem?_eq_some_iff.mp there
  refine ⟨?_, inside, ?_⟩
  · simpa [here, inside, Boundary.index, List.getElem?_range'] using positions
  · rw [planned, List.take_left] at decides
    cases decides with
    | transition _ t wanted fits => exact sub_add_cancel _ _

namespace Timeline

theorem playRate_pos {τ : Type} (t : Timeline τ) : 0 < t.playRate := by
  unfold playRate
  split <;> omega

theorem pieces_counted {t : Timeline Rat} {pieces : List (Piece Rat)}
    (made : t.normalized.value.pieces = .ok pieces) : ∀ p ∈ pieces, p.Counted t.playRate := by
  have fits := t.fits_normalized
  intro p member
  obtain ⟨index, made⟩ := exists_piece_of_mem made member
  obtain ⟨s, scene, makes⟩ := exists_makes made
  obtain ⟨a, -, fit⟩ := fits.segment index s makes.segment
  have long := fit.long
  have duration := makes.duration
  rw [clip_duration fit.finite long] at duration
  constructor
  case long =>
    change (0.1 : Rat) ≤ s.duration at long
    rw [duration]
    norm_num at long ⊢
    exact long
  case frames =>
    rw [makes.frames, duration, ← clip_duration fit.finite long]
    unfold playRate
    rw [← fits.rate]
    rfl

/-- **Where a transition ends after the last frame**: a transition ends where the lengths of
all pieces before it, less what they overlap, say that it does; their frames may end before
that, by less than a frame for each piece, and by nothing if each of them is whole. -/
theorem compile_reach {t : Timeline Rat} {withAudio : Bool} {c : Compiled Rat}
    (compiled : t.compile withAudio = .ok c) :
    ∃ pieces, t.normalized.value.pieces = .ok pieces
      ∧ (∀ p ∈ pieces, p.family ≠ .passThrough → p.chain.held? = some p.frames)
      ∧ ∀ before index kind duration offset after,
        c.boundaries = before ++ .transition index kind duration offset :: after →
        index = before.length + 1 ∧ index < pieces.length
          ∧ Shortfall t.playRate (pieces.take index) (before.map Boundary.overlap).sum
            (offset + duration) := by
  obtain ⟨-, pieces, made, boundaries, -⟩ := compile_eq_ok compiled
  refine ⟨pieces, made, fun p member counted => ?_, ?_⟩
  · obtain ⟨index, made⟩ := exists_piece_of_mem made member
    exact piece_held made counted
  · intro before index kind duration offset after planned
    rw [boundaries] at planned
    cases pieces with
    | nil => simp [Piece.boundaries] at planned
    | cons first rest =>
        obtain ⟨position, inside, stop⟩ := Piece.boundariesFrom_split planned
        obtain rfl : index = before.length + 1 := by omega
        refine ⟨rfl, Nat.succ_lt_succ inside, ?_⟩
        refine .of_counted (fun p member => ?_) t.playRate_pos (by simp) ?_
        · exact pieces_counted made p (List.mem_of_mem_take member)
        · rw [stop, List.take_succ_cons, List.map_cons, List.sum_cons]

/-- A slide that ends between two frames, and a zoom that follows it. -/
def uneven {τ : Type} [Seconds τ] : Timeline τ where
  segments := [⟨some (.parallax ⟨1.0, 0.5, .leftToRight⟩), 2.03, none, none⟩,
    ⟨some (Effect.template .kenBurns), 2.0, none, some ⟨.fade, 0.5⟩⟩]
  image := some "scene.png"

theorem uneven_reach :
    ∃ c pieces, (uneven : Timeline Rat).compile true = .ok c
      ∧ (uneven : Timeline Rat).normalized.value.pieces = .ok pieces
      ∧ c.boundaries = [.transition 1 .fade (1 / 2) (153 / 100)]
      ∧ Shortfall 25 (pieces.take 1) 0 (153 / 100 + 1 / 2) := by
  obtain ⟨c, compiled⟩ := (uneven : Timeline Rat).exists_compile true (by simp [uneven]) rfl
  have planned : ((uneven : Timeline Rat).compile true).toOption.map Compiled.boundaries
      = some [.transition 1 .fade (1 / 2) (153 / 100)] := by
    decide +kernel
  rw [compiled] at planned
  have planned := Option.some.inj planned
  obtain ⟨pieces, made, -, reach⟩ := compile_reach compiled
  obtain ⟨-, -, short⟩ := reach [] 1 .fade (1 / 2) (153 / 100) [] planned
  exact ⟨c, pieces, compiled, made, planned, short⟩

/-- In doubles as well, the transition ends after the last frame: the slide is shown for fifty
frames, which is two seconds. -/
theorem uneven_falls_short :
    ∃ c pieces b stop, (uneven : Timeline Float).compile true = .ok c
      ∧ (uneven : Timeline Float).normalized.value.pieces = .ok pieces
      ∧ pieces.map Piece.family = [.timeExpression, .zoomPan]
      ∧ pieces.map Piece.frames = [50, 50] ∧ (uneven : Timeline Float).playRate = 25
      ∧ c.boundaries = [b] ∧ b.isTransition = true ∧ b.index = 1
      ∧ b.stop? = some stop ∧ ¬ stop ≤ (50 : Rat) / 25 - 0 := by
  have built : ((uneven : Timeline Float).normalized.value.pieces).toOption.map
        (fun pieces => (pieces.map Piece.family, pieces.map Piece.frames))
      = some ([.timeExpression, .zoomPan], [50, 50]) := by
    decide +kernel
  have planned : ((uneven : Timeline Float).compile true).toOption.map
        (fun c => c.boundaries.map (fun b =>
          (b.isTransition, b.index, b.stop?.map (fun stop => decide (stop ≤ (50 : Rat) / 25 - 0)))))
      = some [(true, 1, some false)] := by
    decide +kernel
  obtain ⟨c, compiled⟩ := (uneven : Timeline Float).exists_compile true (by simp [uneven]) rfl
  obtain ⟨-, pieces, made, -⟩ := compile_eq_ok compiled
  rw [made] at built
  rw [compiled] at planned
  obtain ⟨families, frames⟩ := Prod.mk.inj (Option.some.inj built)
  obtain ⟨b, single, facts⟩ := List.map_eq_singleton_iff.mp (Option.some.inj planned)
  simp only [Prod.mk.injEq, Option.map_eq_some_iff, decide_eq_false_iff_not] at facts
  obtain ⟨transition, position, stop, ends, late⟩ := facts
  exact ⟨c, pieces, b, stop, compiled, made, families, frames, rfl, single, transition, position,
    ends, late⟩

end Timeline

end Montage
