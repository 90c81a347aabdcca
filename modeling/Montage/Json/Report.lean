/-
# Montage.Json.Report -- filters, graphs and reports in data files

These are written and never read back.  Members stand in the order in which the
types declare them.
-/
import Montage.Filter.Graph
import Montage.Json.Settings
import Montage.Motion

namespace Montage

set_option autoImplicit false

open Json

/-- An argument of a filter. -/
def Arg.toJson (a : Arg) : Value :=
  .object [("key", ofText? a.key), ("value", .text a.value), ("quoted", .bool a.quoted)]

def Filter.toJson (f : Filter) : Value :=
  .object [("name", .text f.name), ("args", .list (f.args.map Arg.toJson))]

/-- A chain as the list of its filters. -/
def Chain.toJson (c : Chain) : Value := .list (c.map Filter.toJson)

def Node.toJson (n : Node) : Value :=
  .object [("inputs", .list (n.inputs.map .text)), ("chain", Chain.toJson n.chain),
    ("outputs", .list (n.outputs.map .text))]

def Graph.toJson (g : Graph) : Value :=
  .object [("nodes", .list (g.nodes.map Node.toJson)), ("video_out", .text g.videoOut),
    ("audio_out", ofText? g.audioOut)]

def Diagnostic.toJson (d : Diagnostic) : Value :=
  .object [("segment", ofCount? d.segment), ("kind", .text d.finding.category.name),
    ("message", .text d.finding.message)]

/-- Diagnostics in their order. -/
def Diagnostic.listToJson (ds : List Diagnostic) : Value := .list (ds.map Diagnostic.toJson)

/-- A constant zoom and why it is there. -/
def Fallback.toJson (f : Fallback) : Value :=
  .object [("start_scale", .real f.scale), ("reason", .text f.reason.name)]

/-- A span: one name, or the number of frames of the other. -/
def Span.toJson : Span → Value
  | eachFrame => .text "per_output_frame"
  | whole n => .object [("whole_segment", .nat n)]

def Fragment.toJson (f : Fragment) : Value :=
  .object [("chain", Chain.toJson f.chain), ("family", .text f.family.name),
    ("span", f.span.toJson), ("canvas", f.canvas.toJson)]

end Montage
