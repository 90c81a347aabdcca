/-
# Montage.Timeline.Compile -- from a timeline to its graph

A timeline is brought within its limits, each segment becomes a piece, and the
pieces are joined.  Two things can be missing altogether: segments, and an image
of the scene.  Everything else is repaired and reported.
-/
import Montage.Timeline.Assembly

namespace Montage

set_option autoImplicit false

/-- A timeline as one graph, and what it was made of. -/
structure Compiled (τ : Type) where
  graph : Graph
  /-- The images that are fed in, one for each segment. -/
  images : List String
  /-- The input that the narration is, after the images. -/
  audioInput : Option Nat
  boundaries : List (Boundary τ)
  /-- How long the video is to last. -/
  total : τ
  /-- How long the joined pieces last. -/
  video : τ
  mismatch : Option (Mismatch τ)
  diagnostics : List Diagnostic

namespace Timeline

variable {τ : Type} [Seconds τ]

def pieces (t : Timeline τ) : Except Failure (List (Piece τ)) :=
  (List.range t.segments.length).mapM t.piece

/-- The graph of a timeline, with its narration as the input after the images if
there is one. -/
def compile (t : Timeline τ) (withAudio : Bool) : Except Failure (Compiled τ) := do
  if t.segments.isEmpty then throw .noSegments
  let fitted := t.normalized
  let t := fitted.value
  let pieces ← t.pieces
  let audio := if withAudio then some pieces.length else none
  let graph ← Piece.assemble pieces audio t.total
  return {
    graph := graph
    images := pieces.map Piece.image
    audioInput := audio
    boundaries := Piece.boundaries pieces
    total := t.total
    video := Piece.joinedLength pieces
    mismatch := t.mismatch?
    diagnostics := fitted.diagnostics ++ pieces.flatMap Piece.diagnostics }

end Timeline

end Montage
