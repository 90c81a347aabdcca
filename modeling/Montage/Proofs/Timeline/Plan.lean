/-
# Montage.Proofs.Timeline.Plan -- one boundary for every piece but the first

Pieces are checked once more where they are joined: a transition becomes a cut if
it is longer than all that is already there.  Pieces of segments that fit pass this
check, because what is already there lasts at least as long as what the last
segment has left.  That invariant survives rounded sums, since adding something
that is not negative to a length never makes it shorter than what was added to it.
-/
import Montage.Proofs.Timeline.Fit
import Montage.Timeline.Plan

namespace Montage

set_option autoImplicit false

open Seconds (Lawful)

variable {τ : Type} [Seconds τ]

namespace Piece

/-- A boundary is planned for every piece, in order. -/
theorem boundariesFrom_index (index : Nat) (running : τ) (pieces : List (Piece τ)) :
    (boundariesFrom index running pieces).map Boundary.index
      = List.range' index pieces.length := by
  induction pieces generalizing index running with
  | nil => rfl
  | cons p rest ih =>
      rw [boundariesFrom]
      split <;> simp [ih, Boundary.index, List.range'_succ]

theorem boundaries_index (first : Piece τ) (rest : List (Piece τ)) :
    (boundaries (first :: rest)).map Boundary.index = List.range' 1 rest.length :=
  boundariesFrom_index 1 first.duration rest

theorem boundaries_length (first : Piece τ) (rest : List (Piece τ)) :
    (boundaries (first :: rest)).length = rest.length := by
  simpa using congrArg List.length (boundaries_index first rest)

/-- A piece without a transition is put behind what is there. -/
theorem boundariesFrom_cut {index : Nat} {running : τ} {p : Piece τ} (rest : List (Piece τ))
    (none : p.transition = none) :
    boundariesFrom index running (p :: rest)
      = .cut index :: boundariesFrom (index + 1) (running + p.duration) rest := by
  rw [boundariesFrom, overlap?, none]
  rfl

/-- A piece with a transition that is no longer than either side overlaps. -/
theorem boundariesFrom_transition {index : Nat} {running : τ} {p : Piece τ} {t : Transition τ}
    (rest : List (Piece τ)) (some : p.transition = some t) (positive : (0.0 : τ) < t.duration)
    (before : t.duration ≤ running) (after : t.duration ≤ p.duration) :
    boundariesFrom index running (p :: rest)
      = .transition index t.kind t.duration (running - t.duration)
        :: boundariesFrom (index + 1) (running + (p.duration - t.duration)) rest := by
  have passes : p.overlap? running = Option.some t := by
    rw [overlap?, some, Option.filter_some, if_pos]
    exact decide_eq_true ⟨positive, before, after⟩
  rw [boundariesFrom, passes]

end Piece

/-! ## Boundaries of segments that fit -/

/-- A piece lasts as long as its segment, and has its transition. -/
def Piece.Renders (s : Segment τ) (p : Piece τ) : Prop :=
  p.duration = s.duration ∧ p.transition = s.transition

/-- The boundary before a segment is what the segment asks for: its transition as it
is, from no earlier than the beginning on, or a cut if it has none. -/
inductive Boundary.Keeps (s : Segment τ) : Boundary τ → Prop
  | cut (index : Nat) : s.transition = none → Keeps s (.cut index)
  | transition (index : Nat) (t : Transition τ) (offset : τ) : s.transition = some t →
      (0.0 : τ) ≤ offset → Keeps s (.transition index t.kind t.duration offset)

variable [Lawful τ]

/-- What overlaps and what is left of a segment that fits. -/
theorem Segment.Fits.overlap {room : τ} {asked kept : Segment τ} {t : Transition τ}
    (fits : Segment.Fits (some room) asked kept) (some : kept.transition = some t) :
    (0.0 : τ) < t.duration ∧ (0.0 : τ) ≤ t.duration ∧ Seconds.isFinite t.duration = true
      ∧ t.duration ≤ room ∧ t.duration ≤ kept.duration := by
  obtain ⟨low, high, half, fit⟩ := fits.within t some
  have nonneg := Seconds.nonneg_of_tenth_le low
  refine ⟨Seconds.lt_of_lt_of_le Lawful.tenth_pos low, nonneg,
    Lawful.finite_of_le nonneg high Lawful.two_finite, fit room rfl, ?_⟩
  exact Lawful.le_trans half (Lawful.half_le (Seconds.nonneg_of_tenth_le fits.long))

/-- **No transition that fits is lost**: behind something that lasts at least as long
as the room there is, every boundary is the one its segment asks for. -/
theorem Piece.boundariesFrom_keeps {index : Nat} {room running : τ} {asked kept : List (Segment τ)}
    {pieces : List (Piece τ)} (fits : Segment.FitsAll (some room) asked kept)
    (renders : List.Forall₂ Piece.Renders kept pieces) (roomy : (0.0 : τ) ≤ room)
    (enough : room ≤ running) :
    List.Forall₂ Boundary.Keeps kept (boundariesFrom index running pieces) := by
  -- What is there grows by what the segment has left, so it is never less than that.
  induction renders generalizing index room running asked with
  | nil => exact .nil
  | @cons s p kept pieces render _ ih =>
      obtain ⟨duration, transition⟩ := render
      cases fits with
      | cons fit rest =>
      have nonneg := Lawful.le_trans roomy enough
      have left := fit.remaining_nonneg
      cases wanted : s.transition with
      | none =>
          rw [boundariesFrom_cut pieces (transition.trans wanted), duration]
          refine .cons (.cut index wanted) (ih rest left ?_)
          have whole : s.remaining = s.duration := by rw [Segment.remaining, wanted]
          rw [whole] at left ⊢
          exact Lawful.le_add nonneg left
      | some t =>
          obtain ⟨positive, notNegative, finite, before, after⟩ := fit.overlap wanted
          have before := Lawful.le_trans before enough
          rw [boundariesFrom_transition pieces (transition.trans wanted) positive before
            (duration ▸ after), duration]
          refine .cons (.transition index t _ wanted ?_) (ih rest left ?_)
          · exact Lawful.sub_nonneg notNegative finite before
          · have rest : s.remaining = s.duration - t.duration := by rw [Segment.remaining, wanted]
            rw [rest] at left ⊢
            exact Lawful.le_add nonneg left

/-- The boundaries between pieces of segments that fit from the first on. -/
theorem Piece.boundaries_keeps {asked kept : List (Segment τ)} {pieces : List (Piece τ)}
    (fits : Segment.FitsAll none asked kept) (renders : List.Forall₂ Piece.Renders kept pieces) :
    List.Forall₂ Boundary.Keeps kept.tail (boundaries pieces) := by
  cases renders with
  | nil => exact .nil
  | @cons s p kept pieces render renders =>
      cases fits with
      | cons fit rest =>
      have left := fit.remaining_nonneg
      have whole : s.remaining = s.duration := by rw [Segment.remaining, fit.none (.inr rfl)]
      rw [whole] at left rest
      show List.Forall₂ _ kept (boundariesFrom 1 p.duration pieces)
      rw [render.1]
      exact boundariesFrom_keeps rest renders left (Lawful.le_self left).2

end Montage
