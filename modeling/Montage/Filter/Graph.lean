/-
# Montage.Filter.Graph -- chains wired together

A node applies a chain to some labelled streams and labels what comes out.  A
graph is its nodes in the order they are evaluated, and the labels of the
finished streams.

Labels are texts.  The ones this library wires with are made from a `Pad`, which
says what a stream is: no two pads share a label.
-/
import Montage.Filter
import Montage.Filter.Fingerprint

namespace Montage

set_option autoImplicit false

/-- What a stream of a timeline's graph is. -/
inductive Pad where
  /-- The pictures of an input. -/
  | picture (input : Nat)
  /-- The sound of an input. -/
  | sound (input : Nat)
  /-- A segment, ready to be joined. -/
  | segment (index : Nat)
  /-- Everything up to a segment, joined. -/
  | joined (index : Nat)
  /-- The finished pictures. -/
  | videoOut
  /-- The finished sound. -/
  | audioOut
  deriving DecidableEq, Repr

/-- The label of a stream. -/
def Pad.label : Pad → String
  | picture k => toString k ++ ":v"
  | sound k => toString k ++ ":a"
  | segment k => "s" ++ toString k
  | joined k => "x" ++ toString k
  | videoOut => "vout"
  | audioOut => "aout"

/-- A label as graphs write it. -/
def bracketed (label : String) : String := "[" ++ label ++ "]"

/-- A chain with labelled inputs and outputs. -/
structure Node where
  inputs : List String
  chain : Chain
  outputs : List String
  deriving DecidableEq, Repr

def Node.text (n : Node) : String :=
  String.join (n.inputs.map bracketed) ++ n.chain.text ++ String.join (n.outputs.map bracketed)

/-- Nodes in the order they are evaluated, and the finished streams. -/
structure Graph where
  nodes : List Node
  videoOut : String
  audioOut : Option String
  deriving DecidableEq, Repr

namespace Graph

def text (g : Graph) : String := ";".intercalate (g.nodes.map Node.text)

/-- The fingerprint of a graph is that of its text. -/
def fingerprint (g : Graph) : UInt64 := Fingerprint.ofText g.text

/-- The finished streams as a command names them, pictures first. -/
def outputs (g : Graph) : List String :=
  bracketed g.videoOut :: (g.audioOut.map bracketed).toList

end Graph

end Montage
