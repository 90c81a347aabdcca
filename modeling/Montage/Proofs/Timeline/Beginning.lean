/-
# Montage.Proofs.Timeline.Beginning -- what follows never changes the beginning

Segments are fitted, and boundaries are planned, from the first to the last.  Each step goes on
from what is left of the steps before it: the room after a segment, the length so far.  So a
run over the beginning of a list is the beginning of the run over all of it, and nothing that is
put behind the first segments, taken away there, or meant for the whole is noticed by them.

To compare two timelines that begin alike (`Timeline.Shares`) it is enough to cut each of them
off where they part, and to compare it with what is left (`Timeline.upTo`).
-/
import Montage.Proofs.Timeline.Limits

namespace Montage

set_option autoImplicit false

open Seconds (Lawful)

variable {τ : Type} [Seconds τ]

/-! ## Segments -/

/-- The run over the first segments is the beginning of the run over all. -/
theorem Segment.settledAll_take (index k : Nat) (room : Option τ) (segments : List (Segment τ)) :
    settledAll index room (segments.take k) = (settledAll index room segments).take k := by
  induction segments generalizing index k room with
  | nil => rw [List.take_nil]; exact (List.take_nil ..).symm
  | cons s rest ih =>
      cases k with
      | zero => rfl
      | succ k => rw [List.take_succ_cons, settledAll_cons, settledAll_cons, ih, List.take_succ_cons]

/-! ## Boundaries -/

namespace Piece

theorem boundariesFrom_take (index k : Nat) (running : τ) (pieces : List (Piece τ)) :
    boundariesFrom index running (pieces.take k) = (boundariesFrom index running pieces).take k := by
  induction pieces generalizing index k running with
  | nil => rw [List.take_nil]; exact (List.take_nil ..).symm
  | cons p rest ih =>
      cases k with
      | zero => rfl
      | succ k =>
          rw [List.take_succ_cons, boundariesFrom, boundariesFrom]
          cases p.overlap? running with
          | none =>
              dsimp only
              rw [ih, List.take_succ_cons]
          | some t =>
              dsimp only
              rw [ih, List.take_succ_cons]

/-- The plan for the first pieces is the beginning of the plan for all: one boundary for each
of them but the first. -/
theorem boundaries_take (k : Nat) (pieces : List (Piece τ)) :
    boundaries (pieces.take k) = (boundaries pieces).take (k - 1) := by
  cases pieces with
  | nil => rw [List.take_nil]; exact (List.take_nil ..).symm
  | cons first rest =>
      cases k with
      | zero => rfl
      | succ k => exact boundariesFrom_take 1 k first.duration rest

/-- The boundaries before a position are the first ones. -/
theorem boundariesFrom_below (index k : Nat) (running : τ) (pieces : List (Piece τ)) :
    (boundariesFrom index running pieces).filter (fun b => b.index < k)
      = (boundariesFrom index running pieces).take (k - index) := by
  have indices := boundariesFrom_index index running pieces
  generalize boundariesFrom index running pieces = bs at indices
  generalize pieces.length = count at indices
  induction bs generalizing index count with
  | nil => simp
  | cons b rest ih =>
      cases count with
      | zero => cases indices
      | succ count =>
          obtain ⟨here, later⟩ := List.cons.inj indices
          rw [List.filter_cons, ih (index + 1) count later, here]
          by_cases below : index < k
          · rw [if_pos (by simpa using below), show k - index = k - (index + 1) + 1 by omega,
              List.take_succ_cons]
          · rw [if_neg (by simpa using below), show k - index = 0 by omega,
              show k - (index + 1) = 0 by omega, List.take_zero, List.take_zero]

theorem boundaries_below (k : Nat) (pieces : List (Piece τ)) :
    (boundaries pieces).filter (fun b => b.index < k) = boundaries (pieces.take k) := by
  rw [boundaries_take]
  cases pieces with
  | nil => exact (List.take_nil ..).symm
  | cons first rest => exact boundariesFrom_below 1 k first.duration rest

end Piece

/-! ## Timelines -/

namespace Timeline

/-- The timeline with its first segments only. -/
def upTo (k : Nat) (t : Timeline τ) : Timeline τ := { t with segments := t.segments.take k }

/-- Two timelines that begin alike: the first segments are the same, and so is all that they are
shown with. -/
structure Shares (k : Nat) (t u : Timeline τ) : Prop where
  canvas : t.canvas = u.canvas
  rate : t.rate = u.rate
  image : t.image = u.image
  segments : t.segments.take k = u.segments.take k

/-- **The beginning of a timeline is fitted as if nothing followed.** -/
theorem normalized_upTo (k : Nat) (t : Timeline τ) :
    (t.upTo k).normalized.value = t.normalized.value.upTo k := by
  rw [normalized_segments, normalized_segments, upTo, upTo, List.take_take, Nat.min_comm,
    ← List.take_take, Segment.settledAll_take]

theorem piece_upTo {t : Timeline τ} {k i : Nat} {p : Piece τ} (inside : i < k)
    (made : t.piece i = .ok p) : (t.upTo k).piece i = .ok p := by
  unfold piece at made ⊢
  have found : (t.upTo k).segments[i]? = t.segments[i]? := List.getElem?_take_of_lt inside
  rw [found]
  split at made
  · exact made
  · cases made

/-- The first pieces are made of the first segments. -/
theorem pieces_upTo {t : Timeline τ} {pieces : List (Piece τ)} (k : Nat)
    (made : t.pieces = .ok pieces) : (t.upTo k).pieces = .ok (pieces.take k) := by
  have each := List.forall₂_take k ((mapM_eq_ok_iff _ _ _).mp made)
  have first : ∀ i ∈ (List.range t.segments.length).take k, i < k := by
    intro i member
    rw [List.take_range, List.mem_range] at member
    exact Nat.lt_of_lt_of_le member (Nat.min_le_left ..)
  refine (mapM_eq_ok_iff _ _ _).mpr ?_
  rw [upTo, List.length_take, ← List.take_range]
  exact ((List.forall₂_and_left _ _).mpr ⟨first, each⟩).imp fun i p both => piece_upTo both.1 both.2

namespace Shares

variable {k : Nat} {t u : Timeline τ}

theorem normalized (shares : Shares k t u) : Shares k t.normalized.value u.normalized.value := by
  have segments (t : Timeline τ) : t.normalized.value.segments.take k
      = Segment.settledAll 0 none ((t.segments.take k).take maxSegments) := by
    rw [normalized_segments, ← Segment.settledAll_take, List.take_take, List.take_take, Nat.min_comm]
  refine ⟨?_, ?_, ?_, ?_⟩
  · rw [normalized_segments, normalized_segments, shares.canvas]
  · rw [normalized_segments, normalized_segments, shares.rate]
  · rw [normalized_segments, normalized_segments, shares.image]
  · rw [segments, segments, shares.segments]

/-- Timelines that begin alike have the same pieces there: how long the whole is meant to last
is no part of a piece. -/
theorem pieces_take (shares : Shares k t u) {ps qs : List (Piece τ)} (made : t.pieces = .ok ps)
    (other : u.pieces = .ok qs) : ps.take k = qs.take k := by
  have same : t.upTo k = { u.upTo k with target := t.target } := by
    unfold upTo
    rw [shares.canvas, shares.rate, shares.image, shares.segments]
  have pieces : (t.upTo k).pieces = (u.upTo k).pieces := by
    rw [same]
    rfl
  rw [pieces_upTo k made, pieces_upTo k other] at pieces
  exact Except.ok.inj pieces

/-- Where timelines that begin alike compile, they begin with the same images and are joined
in the same way there. -/
theorem compile_beginning (shares : Shares k t u) {a b : Bool} {c d : Compiled τ}
    (compiled : t.compile a = .ok c) (other : u.compile b = .ok d) :
    c.images.take k = d.images.take k
      ∧ c.boundaries.filter (fun b => b.index < k) = d.boundaries.filter (fun b => b.index < k) := by
  obtain ⟨-, ps, made, -, rfl⟩ := exists_pieces compiled
  obtain ⟨-, qs, remade, -, rfl⟩ := exists_pieces other
  have same := shares.normalized.pieces_take made remade
  constructor
  · show (ps.map Piece.image).take k = (qs.map Piece.image).take k
    rw [← List.map_take, ← List.map_take, same]
  · show (Piece.boundaries ps).filter _ = (Piece.boundaries qs).filter _
    rw [Piece.boundaries_below, Piece.boundaries_below, same]

/-- Timelines that begin alike, with one segment at least, fail to compile for the same reason,
if they do. -/
theorem compile_eq_error_iff [Lawful τ] (shares : Shares k t u) (some : 0 < k) (a b : Bool)
    (e : Failure) : t.compile a = .error e ↔ u.compile b = .error e := by
  have empty : t.segments = [] ↔ u.segments = [] := by
    have nothing (t : Timeline τ) : t.segments = [] ↔ t.segments.take k = [] := by
      rw [List.take_eq_nil_iff]
      simp [Nat.ne_of_gt some]
    rw [nothing t, nothing u, shares.segments]
  rw [Timeline.compile_eq_error_iff, Timeline.compile_eq_error_iff, ne_eq, ne_eq, empty,
    shares.image]

end Shares

/-- **Nothing that follows is looked at.**  The first segments of a timeline are fitted as they
are on their own, whatever else there is, and the first pieces are joined as they are on their
own.  So two timelines that begin alike compile alike there: with the same images, and with the
same boundaries before the segment at which they part, whether narration is added or not, and
whatever the whole is meant to last. -/
theorem beginning_stays (k : Nat) :
    (∀ t : Timeline Float,
      (t.upTo k).normalized.value.segments = t.normalized.value.segments.take k)
      ∧ (∀ pieces : List (Piece Float),
        Piece.boundaries (pieces.take k) = (Piece.boundaries pieces).take (k - 1))
      ∧ ∀ (t u : Timeline Float) (a b : Bool), Shares k t u →
        (0 < k → ∀ e, t.compile a = .error e ↔ u.compile b = .error e)
        ∧ ∀ c d, t.compile a = .ok c → u.compile b = .ok d →
          c.images.take k = d.images.take k
            ∧ c.boundaries.filter (fun b => b.index < k)
              = d.boundaries.filter (fun b => b.index < k) := by
  refine ⟨fun t => ?_, Piece.boundaries_take k, fun t u a b shares => ⟨?_, ?_⟩⟩
  · rw [normalized_upTo, upTo]
  · exact fun some e => shares.compile_eq_error_iff some a b e
  · exact fun c d compiled other => shares.compile_beginning compiled other

/-- A transition that is shortened to what the first segment has, and anything behind it. -/
def opening (rest : List (Segment Float)) (target : Option Float) : Timeline Float where
  segments := [⟨none, 0.05, none, none⟩, ⟨none, 2.0, some "own.png", some ⟨.radial, 9.0⟩⟩] ++ rest
  image := some "scene.png"
  target := target

theorem opening_shares (rest more : List (Segment Float)) (target other : Option Float) :
    Shares 2 (opening rest target) (opening more other) :=
  ⟨rfl, rfl, rfl, rfl⟩

theorem opening_stays :
    let t := opening [⟨none, 3.0, none, some ⟨.dissolve, 2.0⟩⟩] (some 60.0)
    let u := opening (List.replicate 12 ⟨none, 1.0, none, none⟩) none
    ∃ c d, t.compile true = .ok c ∧ u.compile false = .ok d
      ∧ (c.boundaries.filter (fun b => b.index < 2)).map Boundary.overlap = [0.1]
      ∧ c.images.take 2 = d.images.take 2
      ∧ c.boundaries.filter (fun b => b.index < 2) = d.boundaries.filter (fun b => b.index < 2) := by
  intro t u
  obtain ⟨c, compiled⟩ := t.exists_compile true (by simp [t, opening]) rfl
  obtain ⟨d, other⟩ := u.exists_compile false (by simp [u, opening]) rfl
  have overlaps : (t.compile true).toOption.map
      (fun c => (c.boundaries.filter (fun b => b.index < 2)).map Boundary.overlap) = some [0.1] := by
    decide +kernel
  rw [compiled] at overlaps
  have stays := (beginning_stays 2).2.2 t u true false (opening_shares _ _ _ _)
  exact ⟨c, d, compiled, other, Option.some.inj overlaps, stays.2 c d compiled other⟩

end Timeline

end Montage
