/-
# Montage.Timeline.Assembly -- one graph for all pieces

A single piece needs no join.  Pieces without any transition are joined all at
once.  Otherwise each boundary joins what is already there with the next piece,
from the first to the last.  In every shape the last filter makes the sides even,
and the narration, if there is any, is cut to the length of the whole.
-/
import Montage.Filter.Graph
import Montage.Timeline.Plan

namespace Montage

set_option autoImplicit false

/-- A node that takes and gives streams of a timeline. -/
def Node.ofPads (inputs : List Pad) (chain : Chain) (output : Pad) : Node :=
  ⟨inputs.map Pad.label, chain, [output.label]⟩

variable {τ : Type} [Seconds τ]

/-- The step that joins two streams at a boundary. -/
def Boundary.step : Boundary τ → Step
  | .cut _ => .join 2
  | .transition _ kind duration offset =>
      .crossfade kind (Seconds.numeral duration) (Seconds.numeral offset)

namespace Piece

/-- The node that makes a piece ready to be joined. -/
def node (p : Piece τ) : Node := .ofPads [.picture p.index] p.chain (.segment p.index)

/-- The nodes that join pieces to the stream `current`, one boundary each. -/
def joinNodes (current : Pad) : List (Boundary τ × Piece τ) → List Node
  | [] => [.ofPads [current] (.ofSteps [.evenOut]) .videoOut]
  | (b, p) :: rest =>
      .ofPads [current, .segment p.index] (.ofSteps [b.step]) (.joined b.index)
        :: joinNodes (.joined b.index) rest

/-- The nodes that make the pictures. -/
def videoNodes : List (Piece τ) → List Node
  | [] => []
  | [only] => [.ofPads [.picture only.index] (only.chain ++ .ofSteps [.evenOut]) .videoOut]
  | first :: rest =>
      let pieces := first :: rest
      let bounds := boundaries pieces
      let sources := pieces.map Piece.node
      if bounds.any Boundary.isTransition then
        sources ++ joinNodes (.segment first.index) (bounds.zip rest)
      else
        sources ++ [.ofPads (pieces.map (fun p => .segment p.index))
          (.ofSteps [.join pieces.length, .evenOut]) .videoOut]

/-- The node that cuts the narration to a length. -/
def audioNode (input : Nat) (total : τ) : Node :=
  .ofPads [.sound input] (.ofSteps [.trimSound (Seconds.numeral total), .restartSound]) .audioOut

/-- The graph that joins pieces, with the narration of an input if there is one. -/
def assemble (pieces : List (Piece τ)) (audio : Option Nat) (total : τ) : Except Failure Graph :=
  if pieces.isEmpty then .error .noSegments
  else .ok
    { nodes := videoNodes pieces ++ (audio.map (fun k => audioNode k total)).toList
      videoOut := Pad.videoOut.label
      audioOut := audio.map (fun _ => Pad.audioOut.label) }

end Piece

end Montage
