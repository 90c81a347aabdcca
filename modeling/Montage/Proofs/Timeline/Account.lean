/-
# Montage.Proofs.Timeline.Account -- a plan accounts for the whole length

A plan is made from the length so far, which grows by what each piece adds to it; the length
of the whole is a sum less another sum.  Nothing is assumed here of the pieces: their lengths
may be zero or negative, and a transition may be longer than what it joins.  In exact
arithmetic the two accounts agree nevertheless, since a transition that does not fit becomes
a cut, which overlaps nothing, in both.

The step is one boundary: `Boundary.Decides` says what is decided from the length so far
alone, and where the next one begins to count.
-/
import Montage.Proofs.Timeline.Placement

namespace Montage

set_option autoImplicit false

/-! ## Plans -/

/-- A transition that can be used behind what lasts `running` seconds: it is shown, and it is
no longer than either side. -/
def Transition.FitsBehind (running : Rat) (p : Piece Rat) (t : Transition Rat) : Prop :=
  0 < t.duration ∧ t.duration ≤ running ∧ t.duration ≤ p.duration

/-- How a piece meets what lasts `running` seconds before it. -/
inductive Boundary.Decides (running : Rat) (p : Piece Rat) : Boundary Rat → Prop
  | cut (index : Nat) : (∀ t, p.transition = some t → ¬ t.FitsBehind running p) →
      Decides running p (.cut index)
  | transition (index : Nat) (t : Transition Rat) : p.transition = some t →
      t.FitsBehind running p →
      Decides running p (.transition index t.kind t.duration (running - t.duration))

namespace Piece

/-- How long the pieces before a boundary last, joined by the boundaries before it. -/
def reached (pieces : List (Piece Rat)) (bs : List (Boundary Rat)) (k : Nat) : Rat :=
  ((pieces.take (k + 1)).map Piece.duration).sum - ((bs.take k).map Boundary.overlap).sum

/-- When pieces that are put behind what lasts until `stop` are over: each begins where its
boundary says, and lasts for its length. -/
def playedFrom (stop : Rat) (bs : List (Boundary Rat)) (pieces : List (Piece Rat)) : Rat :=
  (bs.zip pieces).foldl (fun stop next => next.1.start stop + next.2.duration) stop

/-- When the last of some pieces is over, if they are played as planned. -/
def played (bs : List (Boundary Rat)) : List (Piece Rat) → Rat
  | [] => 0
  | first :: rest => playedFrom first.duration bs rest

/-- What a plan says about the pieces that it is made for. -/
structure Planned (pieces : List (Piece Rat)) (bs : List (Boundary Rat)) : Prop where
  /-- There is one boundary for each piece but the first, in order. -/
  index : bs.map Boundary.index = List.range' 1 (pieces.length - 1)
  /-- A transition is that of its piece.  It is shown, it is no longer than its piece, and it
  begins where what comes before it ends, less its own length, and not before the beginning. -/
  transition : ∀ k i kind duration offset, bs[k]? = some (.transition i kind duration offset) →
    ∃ p, pieces[k + 1]? = some p ∧ p.transition = some ⟨kind, duration⟩
      ∧ 0 < duration ∧ duration ≤ p.duration
      ∧ offset = reached pieces bs k - duration ∧ 0 ≤ offset
  /-- Nothing is cut that could be joined. -/
  cut : ∀ k i, bs[k]? = some (.cut i) → ∃ p, pieces[k + 1]? = some p
    ∧ ∀ t, p.transition = some t → ¬ t.FitsBehind (reached pieces bs k) p
  /-- Played as planned, the pieces last as long as they are said to. -/
  length : played bs pieces = joinedLength pieces

end Piece

/-! ## One boundary -/

/-- What a boundary adds to the length so far is the length of its piece less the overlap. -/
theorem Boundary.Decides.start_add {running : Rat} {p : Piece Rat} {b : Boundary Rat}
    (decides : b.Decides running p) :
    b.start running + p.duration = running + p.duration - b.overlap := by
  cases decides with
  | cut index _ => rw [overlap_cut, sub_zero, Boundary.start]
  | transition index t _ _ =>
      show running - t.duration + p.duration = running + p.duration - t.duration
      ring

namespace Piece

/-- A transition overlaps exactly if it fits. -/
theorem overlap?_eq_some_iff (running : Rat) (p : Piece Rat) (t : Transition Rat) :
    p.overlap? running = some t ↔ p.transition = some t ∧ t.FitsBehind running p := by
  have zero : (0.0 : Rat) = 0 := by norm_num
  unfold overlap? Transition.FitsBehind
  rw [Option.filter_eq_some_iff, decide_eq_true_eq]
  exact zero ▸ Iff.rfl

/-- The first boundary is decided from the length so far, and the others from where its piece
is over. -/
theorem boundariesFrom_step (index : Nat) (running : Rat) (p : Piece Rat)
    (rest : List (Piece Rat)) :
    ∃ b, b.Decides running p ∧ boundariesFrom index running (p :: rest)
      = b :: boundariesFrom (index + 1) (b.start running + p.duration) rest := by
  cases fits : p.overlap? running with
  | none =>
      refine ⟨.cut index, .cut index fun t wanted behind => ?_, by rw [boundariesFrom, fits]; rfl⟩
      rw [(p.overlap?_eq_some_iff running t).mpr ⟨wanted, behind⟩] at fits
      cases fits
  | some t =>
      obtain ⟨wanted, behind⟩ := (p.overlap?_eq_some_iff running t).mp fits
      refine ⟨_, .transition index t wanted behind, ?_⟩
      rw [boundariesFrom, fits, Boundary.start, sub_add_eq_add_sub, add_sub_assoc]

/-! ## The run over all boundaries -/

/-- Every boundary is decided from what the pieces before it add up to, less the overlaps
before it. -/
theorem boundariesFrom_decides {index : Nat} {running : Rat} {pieces : List (Piece Rat)} (k : Nat)
    {b : Boundary Rat} (here : (boundariesFrom index running pieces)[k]? = some b) :
    ∃ p, pieces[k]? = some p ∧ b.Decides (running + ((pieces.take k).map Piece.duration).sum
      - (((boundariesFrom index running pieces).take k).map Boundary.overlap).sum) p := by
  induction pieces generalizing index running k with
  | nil => cases here
  | cons p rest ih =>
      obtain ⟨first, decides, plan⟩ := boundariesFrom_step index running p rest
      rw [plan] at here ⊢
      cases k with
      | zero =>
          obtain rfl := Option.some.inj here
          exact ⟨p, rfl, by simpa using decides⟩
      | succ k =>
          obtain ⟨q, there, later⟩ := ih k here
          refine ⟨q, there, ?_⟩
          rw [decides.start_add] at later
          rw [List.take_succ_cons, List.take_succ_cons, List.map_cons, List.map_cons,
            List.sum_cons, List.sum_cons]
          convert later using 1
          rw [decides.start_add]
          ring

/-- Played one behind the other, pieces last for their lengths less what overlaps. -/
theorem playedFrom_boundariesFrom (index : Nat) (running : Rat) (pieces : List (Piece Rat)) :
    playedFrom running (boundariesFrom index running pieces) pieces
      = running + (pieces.map Piece.duration).sum
        - ((boundariesFrom index running pieces).map Boundary.overlap).sum := by
  induction pieces generalizing index running with
  | nil => simp [playedFrom, boundariesFrom]
  | cons p rest ih =>
      obtain ⟨b, decides, plan⟩ := boundariesFrom_step index running p rest
      have later := ih (index + 1) (b.start running + p.duration)
      rw [plan, List.map_cons, List.map_cons, List.sum_cons, List.sum_cons]
      calc playedFrom running (b :: boundariesFrom (index + 1) _ rest) (p :: rest)
        _ = playedFrom (b.start running + p.duration) (boundariesFrom (index + 1) _ rest) rest := rfl
        _ = _ := by
          rw [later, decides.start_add]
          ring

/-! ## The plan -/

/-- **The plan and the length of the whole agree**, whatever the lengths of the pieces and
their transitions are. -/
theorem boundaries_planned (pieces : List (Piece Rat)) : Planned pieces (boundaries pieces) := by
  cases pieces with
  | nil =>
      constructor
      case index => rfl
      case transition =>
        intro k i kind duration offset nothing
        cases nothing
      case cut =>
        intro k i nothing
        cases nothing
      case length => rw [joinedLength_eq]; exact (sub_zero 0).symm
  | cons first rest =>
      have decided (k : Nat) (b : Boundary Rat)
          (here : (boundaries (first :: rest))[k]? = some b) : ∃ p, (first :: rest)[k + 1]? = some p
            ∧ b.Decides (reached (first :: rest) (boundaries (first :: rest)) k) p :=
        boundariesFrom_decides k here
      constructor
      case index => exact boundaries_index first rest
      case transition =>
        intro k i kind duration offset here
        obtain ⟨p, there, decides⟩ := decided k _ here
        cases decides with
        | transition _ t wanted fits =>
            exact ⟨p, there, wanted, fits.1, fits.2.2, rfl, sub_nonneg.mpr fits.2.1⟩
      case cut =>
        intro k i here
        obtain ⟨p, there, decides⟩ := decided k _ here
        cases decides with
        | cut _ never => exact ⟨p, there, never⟩
      case length =>
        rw [joinedLength_eq, List.map_cons, List.sum_cons]
        exact playedFrom_boundariesFrom 1 first.duration rest

/-- A transition that is too long, one that is negative, and one as long as its piece. -/
example :
    let piece (duration overlap : Rat) : Piece Rat :=
      ⟨0, "scene.png", .ofSteps [], .passThrough, duration, 1, some ⟨.fade, overlap⟩, []⟩
    let pieces := [piece 2 1, piece 1 (3 / 2), piece (-1) (-1), piece 2 2]
    (boundaries pieces).map Boundary.isTransition = [false, false, true]
      ∧ played (boundaries pieces) pieces = 2 ∧ joinedLength pieces = 2 := by
  decide +kernel

end Piece

end Montage
