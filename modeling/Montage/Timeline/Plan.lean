/-
# Montage.Timeline.Plan -- where pieces meet

Pieces are joined from the first to the last.  At each boundary the next piece
either overlaps the end of what is already there, as its transition says, or is
put behind it.  It overlaps only if the transition is no longer than either side.

The offset of a transition is the length so far less the overlap.  One that is as
long as everything before it starts at zero.
-/
import Montage.Timeline.Piece

namespace Montage

set_option autoImplicit false

/-- How a piece meets what comes before it. -/
inductive Boundary (τ : Type) where
  /-- It is put behind it. -/
  | cut (index : Nat)
  /-- It overlaps it for `duration` seconds, from `offset` seconds on. -/
  | transition (index : Nat) (kind : TransitionKind) (duration offset : τ)

namespace Boundary

variable {τ : Type} [Seconds τ]

/-- The position of the piece. -/
def index : Boundary τ → Nat
  | cut i => i
  | transition i _ _ _ => i

/-- For how long both are shown. -/
def overlap : Boundary τ → τ
  | cut _ => 0.0
  | transition _ _ d _ => d

def isTransition : Boundary τ → Bool
  | cut _ => false
  | transition _ _ _ _ => true

end Boundary

namespace Piece

variable {τ : Type} [Seconds τ]

/-- The transition of a piece, if it fits behind what lasts `running` seconds. -/
def overlap? (running : τ) (p : Piece τ) : Option (Transition τ) :=
  p.transition.filter
    (fun t => (0.0 : τ) < t.duration ∧ t.duration ≤ running ∧ t.duration ≤ p.duration)

/-- The boundaries of pieces that follow what lasts `running` seconds. -/
def boundariesFrom (index : Nat) (running : τ) : List (Piece τ) → List (Boundary τ)
  | [] => []
  | p :: rest => match p.overlap? running with
    | some t =>
        .transition index t.kind t.duration (running - t.duration)
          :: boundariesFrom (index + 1) (running + (p.duration - t.duration)) rest
    | none => .cut index :: boundariesFrom (index + 1) (running + p.duration) rest

/-- The boundaries between pieces, one fewer than there are pieces. -/
def boundaries : List (Piece τ) → List (Boundary τ)
  | [] => []
  | first :: rest => boundariesFrom 1 first.duration rest

/-- How long pieces last when they are joined. -/
def joinedLength (ps : List (Piece τ)) : τ :=
  Seconds.total (ps.map Piece.duration) - Seconds.total ((boundaries ps).map Boundary.overlap)

end Piece

end Montage
