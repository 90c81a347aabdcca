/-
# Montage.Proofs.Timeline.Compile -- what a compiled timeline is made of

A timeline compiles if it has segments and an image of the scene, and nothing else
can fail.  What comes out is planned from one piece for each segment that fits, so
what is known about segments that fit and about their boundaries is known about
every compiled timeline.
-/
import Montage.Proofs.Timeline.Assembly
import Montage.Timeline.Compile

namespace Montage

set_option autoImplicit false

open Seconds (Lawful)

/-! ## Steps that may fail -/

section

variable {α β ε : Type}

theorem bind_eq_ok_iff {x : Except ε α} {f : α → Except ε β} {b : β} :
    x >>= f = .ok b ↔ ∃ a, x = .ok a ∧ f a = .ok b := by
  cases x with
  | error e =>
      refine ⟨fun failed => ?_, fun ⟨a, ok, _⟩ => ?_⟩
      · cases failed
      · cases ok
  | ok a =>
      refine ⟨fun made => ⟨a, rfl, made⟩, fun ⟨_, same, made⟩ => ?_⟩
      cases same
      exact made

/-- A traversal succeeds if every step of it does. -/
theorem mapM_eq_ok_iff (f : α → Except ε β) (xs : List α) (ys : List β) :
    xs.mapM f = .ok ys ↔ List.Forall₂ (fun x y => f x = .ok y) xs ys := by
  induction xs generalizing ys with
  | nil =>
      rw [List.mapM_nil, List.forall₂_nil_left_iff]
      exact ⟨fun made => by cases made; rfl, fun none => none ▸ rfl⟩
  | cons x xs ih =>
      rw [List.mapM_cons, bind_eq_ok_iff, List.forall₂_cons_left_iff]
      constructor
      · rintro ⟨y, first, made⟩
        obtain ⟨rest, later, made⟩ := bind_eq_ok_iff.mp made
        cases made
        exact ⟨y, rest, first, (ih rest).mp later, rfl⟩
      · rintro ⟨y, rest, first, later, rfl⟩
        exact ⟨y, first, bind_eq_ok_iff.mpr ⟨rest, (ih rest).mpr later, rfl⟩⟩

theorem exists_mapM {f : α → Except ε β} {xs : List α} (each : ∀ x ∈ xs, ∃ y, f x = .ok y) :
    ∃ ys, xs.mapM f = .ok ys := by
  induction xs with
  | nil => exact ⟨[], rfl⟩
  | cons x xs ih =>
      obtain ⟨y, first⟩ := each x (List.mem_cons_self ..)
      obtain ⟨ys, later⟩ := ih (fun x member => each x (List.mem_cons_of_mem _ member))
      exact ⟨y :: ys, (mapM_eq_ok_iff _ _ _).mpr (.cons first ((mapM_eq_ok_iff _ _ _).mp later))⟩

end

namespace Timeline

variable {τ : Type} [Seconds τ]

/-- What a piece is made of: the segment at its position, and the image of the scene. -/
structure Makes (t : Timeline τ) (index : Nat) (s : Segment τ) (scene : String) (p : Piece τ) :
    Prop where
  segment : t.segments[index]? = some s
  shows : t.image = some scene
  position : p.index = index
  image : p.image = if index = 0 then scene else s.image.getD scene
  chain : p.chain = .ofSteps (pieceSteps (t.clip s) (t.fragment s).value)
  family : p.family = (t.fragment s).value.family
  duration : p.duration = (t.clip s).duration
  frames : p.frames = (t.clip s).frames
  transition : p.transition = if index = 0 then none else s.transition
  diagnostics : p.diagnostics = ((t.fragment s).located index).diagnostics

theorem exists_makes {t : Timeline τ} {index : Nat} {p : Piece τ} (made : t.piece index = .ok p) :
    ∃ s scene, t.Makes index s scene p := by
  unfold piece at made
  split at made
  · rename_i s found
    split at made
    · rename_i scene shows
      cases made
      exact ⟨s, scene, found, shows, rfl, rfl, rfl, rfl, rfl, rfl, rfl, rfl⟩
    · cases made
  · cases made

theorem exists_piece_of_mem {t : Timeline τ} {pieces : List (Piece τ)}
    (made : t.pieces = .ok pieces) {p : Piece τ} (member : p ∈ pieces) :
    ∃ index, t.piece index = .ok p := by
  obtain ⟨i, inside, rfl⟩ := List.mem_iff_getElem.mp member
  have each := List.forall₂_iff_get.mp ((mapM_eq_ok_iff _ _ _).mp made)
  exact ⟨_, each.2 i (each.1 ▸ inside) inside⟩

theorem exists_piece {t : Timeline τ} {index : Nat} (inside : index < t.segments.length)
    (image : t.image.isSome = true) : ∃ p, t.piece index = .ok p := by
  obtain ⟨scene, shows⟩ := Option.isSome_iff_exists.mp image
  unfold piece
  rw [List.getElem?_eq_getElem inside, shows]
  exact ⟨_, rfl⟩

theorem compile_of_empty {t : Timeline τ} (withAudio : Bool) (empty : t.segments = []) :
    t.compile withAudio = .error .noSegments := by
  unfold compile
  rw [empty]
  rfl

theorem compile_of_segments {t : Timeline τ} (withAudio : Bool) (segments : t.segments ≠ []) :
    t.compile withAudio = t.normalized.value.pieces >>= fun pieces =>
      Piece.assemble pieces (if withAudio then some pieces.length else none)
        t.normalized.value.total >>= fun graph => pure {
          graph := graph
          images := pieces.map Piece.image
          audioInput := if withAudio then some pieces.length else none
          boundaries := Piece.boundaries pieces
          total := t.normalized.value.total
          video := Piece.joinedLength pieces
          mismatch := t.normalized.value.mismatch?
          diagnostics := t.normalized.diagnostics ++ pieces.flatMap Piece.diagnostics } := by
  have some : t.segments.isEmpty = false := by simpa using segments
  unfold compile
  rw [some]
  rfl

/-- What a timeline comes to, once it has these pieces. -/
def compiledOf (t : Timeline τ) (withAudio : Bool) (pieces : List (Piece τ)) : Compiled τ :=
  let audio := if withAudio then some pieces.length else none
  { graph := Piece.graph pieces audio t.normalized.value.total
    images := pieces.map Piece.image
    audioInput := audio
    boundaries := Piece.boundaries pieces
    total := t.normalized.value.total
    video := Piece.joinedLength pieces
    mismatch := t.normalized.value.mismatch?
    diagnostics := t.normalized.diagnostics ++ pieces.flatMap Piece.diagnostics }

/-- Where a timeline has pieces, it compiles to what it comes to with them. -/
theorem compile_of_pieces {t : Timeline τ} (withAudio : Bool) {pieces : List (Piece τ)}
    (segments : t.segments ≠ []) (made : t.normalized.value.pieces = .ok pieces)
    (nonempty : pieces ≠ []) : t.compile withAudio = .ok (t.compiledOf withAudio pieces) := by
  rw [compile_of_segments withAudio segments, made]
  refine bind_eq_ok_iff.mpr ⟨pieces, rfl, bind_eq_ok_iff.mpr ⟨_, ?_, rfl⟩⟩
  exact Piece.assemble_eq_graph _ _ _ nonempty

/-- Where a timeline compiles, it has pieces. -/
theorem exists_pieces {t : Timeline τ} {withAudio : Bool} {c : Compiled τ}
    (compiled : t.compile withAudio = .ok c) :
    t.segments ≠ [] ∧ ∃ pieces, t.normalized.value.pieces = .ok pieces ∧ pieces ≠ []
      ∧ c = t.compiledOf withAudio pieces := by
  by_cases segments : t.segments = []
  · rw [compile_of_empty withAudio segments] at compiled
    cases compiled
  · have whole := compiled
    rw [compile_of_segments withAudio segments] at compiled
    obtain ⟨pieces, made, compiled⟩ := bind_eq_ok_iff.mp compiled
    obtain ⟨graph, assembled, -⟩ := bind_eq_ok_iff.mp compiled
    have nonempty : pieces ≠ [] := by
      rintro rfl
      cases assembled
    rw [compile_of_pieces withAudio segments made nonempty] at whole
    exact ⟨segments, pieces, made, nonempty, (Except.ok.inj whole).symm⟩

/-- Where a timeline compiles, its plan is that of its pieces. -/
theorem compile_eq_ok {t : Timeline τ} {withAudio : Bool} {c : Compiled τ}
    (compiled : t.compile withAudio = .ok c) :
    t.segments ≠ [] ∧ ∃ pieces, t.normalized.value.pieces = .ok pieces
      ∧ c.boundaries = Piece.boundaries pieces ∧ c.video = Piece.joinedLength pieces := by
  obtain ⟨segments, pieces, made, -, rfl⟩ := exists_pieces compiled
  exact ⟨segments, pieces, made, rfl, rfl⟩

/-- Where a timeline compiles, its graph is assembled from its pieces. -/
theorem compile_assembles {t : Timeline τ} {withAudio : Bool} {c : Compiled τ}
    (compiled : t.compile withAudio = .ok c) :
    ∃ pieces, t.normalized.value.pieces = .ok pieces
      ∧ Piece.assemble pieces (if withAudio then some pieces.length else none)
        t.normalized.value.total = .ok c.graph := by
  obtain ⟨-, pieces, made, nonempty, rfl⟩ := exists_pieces compiled
  exact ⟨pieces, made, Piece.assemble_eq_graph _ _ _ nonempty⟩

variable [Lawful τ]

/-- There are as many pieces as segments that are left. -/
theorem pieces_length {t : Timeline τ} {pieces : List (Piece τ)}
    (made : t.normalized.value.pieces = .ok pieces) :
    pieces.length = min 10 t.segments.length := by
  have length := ((mapM_eq_ok_iff _ _ _).mp made).length_eq
  rw [List.length_range] at length
  rw [← length, t.fits_normalized.length]

/-- A timeline with segments and an image of the scene compiles. -/
theorem exists_compile {t : Timeline τ} (withAudio : Bool) (segments : t.segments ≠ [])
    (image : t.image.isSome = true) : ∃ c, t.compile withAudio = .ok c := by
  have shows : t.normalized.value.image.isSome = true := by rw [t.fits_normalized.image, image]
  obtain ⟨pieces, made⟩ : ∃ pieces, t.normalized.value.pieces = .ok pieces :=
    exists_mapM (fun index member => exists_piece (List.mem_range.mp member) shows)
  have nonempty : pieces ≠ [] := by
    have first := List.length_pos_iff.mpr segments
    have length := pieces_length made
    rw [← List.length_pos_iff]
    omega
  exact ⟨_, compile_of_pieces withAudio segments made nonempty⟩

/-! ## The pieces of a timeline within its limits -/

/-- A length that is long enough does not have to be replaced. -/
theorem clip_duration {t : Timeline τ} {s : Segment τ} (finite : Seconds.isFinite s.duration = true)
    (long : (0.1 : τ) ≤ s.duration) : (t.clip s).duration = s.duration := by
  have usable : Seconds.isUsable s.duration = true := by
    unfold Seconds.isUsable
    rw [finite, Bool.true_and, decide_eq_true_eq]
    exact Seconds.lt_of_lt_of_le Lawful.tenth_pos long
  show (if Seconds.isUsable s.duration = true then s.duration else _) = _
  rw [if_pos usable]

/-- The pieces have the lengths and the transitions of the segments that fit. -/
theorem pieces_render {t : Timeline τ} {pieces : List (Piece τ)}
    (made : t.normalized.value.pieces = .ok pieces) :
    List.Forall₂ Piece.Renders t.normalized.value.segments pieces := by
  have fits := t.fits_normalized
  obtain ⟨length, each⟩ := List.forall₂_iff_get.mp ((mapM_eq_ok_iff _ _ _).mp made)
  rw [List.length_range] at length
  refine List.forall₂_iff_get.mpr ⟨length, fun i inside made => ?_⟩
  have made := each i (by simpa using inside) made
  rw [List.get_eq_getElem, List.getElem_range] at made
  obtain ⟨s, scene, makes⟩ := exists_makes made
  obtain ⟨a, -, fit⟩ := fits.segment i s makes.segment
  obtain rfl : t.normalized.value.segments.get ⟨i, inside⟩ = s := by
    simpa [List.getElem?_eq_getElem inside] using makes.segment
  refine ⟨makes.duration.trans (clip_duration fit.finite fit.long), makes.transition.trans ?_⟩
  split
  · rename_i first
    subst first
    exact (fit.none (.inr rfl)).symm
  · rfl

/-- Where a timeline compiles, there is one boundary for each segment that is left but
the first, in order, and it is the one that the segment asks for. -/
theorem compile_keeps {t : Timeline τ} {withAudio : Bool} {c : Compiled τ}
    (compiled : t.compile withAudio = .ok c) :
    c.boundaries.map Boundary.index = List.range' 1 (t.normalized.value.segments.length - 1)
      ∧ List.Forall₂ Boundary.Keeps t.normalized.value.segments.tail c.boundaries := by
  obtain ⟨-, pieces, made, boundaries, -⟩ := compile_eq_ok compiled
  have renders := pieces_render made
  have keeps := Piece.boundaries_keeps t.fitsAll_normalized renders
  rw [boundaries, renders.length_eq]
  refine ⟨?_, keeps⟩
  cases pieces with
  | nil => rfl
  | cons first rest => exact Piece.boundaries_index first rest

/-- **No transition that is left becomes a cut**, in the arithmetic of doubles with all its
rounding: where a timeline compiles, there is one boundary for each segment that is left
but the first, in order, and it is the one that the segment asks for. -/
theorem compile_keeps_transitions {t : Timeline Float} {withAudio : Bool} {c : Compiled Float}
    (compiled : t.compile withAudio = .ok c) :
    c.boundaries.map Boundary.index = List.range' 1 (t.normalized.value.segments.length - 1)
      ∧ List.Forall₂ Boundary.Keeps t.normalized.value.segments.tail c.boundaries :=
  compile_keeps compiled

/-- A transition as long as all before it, a cut, and one of unlimited length. -/
def tight : Timeline Float where
  segments := [⟨none, 0.2, none, some ⟨.fade, 1.0⟩⟩, ⟨none, 4.0, none, some ⟨.fade, 1.0⟩⟩,
    ⟨none, 0.5, none, none⟩, ⟨none, 4.0, none, some ⟨.radial, 1.0 / 0.0⟩⟩]
  image := some "scene.png"

theorem tight_keeps_transitions :
    ∃ c, tight.compile true = .ok c ∧ c.boundaries.map Boundary.overlap = [0.2, 0.0, 0.5]
      ∧ c.boundaries.map Boundary.index = List.range' 1 (tight.normalized.value.segments.length - 1)
      ∧ List.Forall₂ Boundary.Keeps tight.normalized.value.segments.tail c.boundaries := by
  obtain ⟨c, compiled⟩ := tight.exists_compile true (by simp [tight]) rfl
  have overlaps : (tight.compile true).toOption.map (fun c => c.boundaries.map Boundary.overlap)
      = some [0.2, 0.0, 0.5] := by
    decide +kernel
  rw [compiled] at overlaps
  exact ⟨c, compiled, Option.some.inj overlaps, compile_keeps_transitions compiled⟩

end Timeline

end Montage
