/-
# Montage.Json.Timeline -- timelines and jobs in data files

Timelines and jobs are written and read; what is compiled from them is only
written.  A job is as lenient as the settings in it, a timeline is complete.
-/
import Montage.Json.Report
import Montage.Timeline.Compile
import Montage.Timeline.Job

namespace Montage

set_option autoImplicit false

open Json

def TransitionKind.toJson (k : TransitionKind) : Value := .text k.name

/-- Read a kind of transition; the name must be exact. -/
def TransitionKind.ofJson? : Value → Option TransitionKind :=
  Value.choice? (TransitionKind.all.map (fun k => (k.name, k)))

def Transition.toJson (t : Transition Float) : Value :=
  .object [("kind", t.kind.toJson), ("duration", .real t.duration)]

/-- Read a transition. -/
def Transition.ofJson? (v : Value) : Option (Transition Float) := do
  let [kind, duration] ← v.fields (plain ["kind", "duration"]) true | none
  return ⟨← required TransitionKind.ofJson? kind, ← required Value.double? duration⟩

namespace Segment

def toJson (s : Segment Float) : Value :=
  .object [("animation", Value.ofOption Effect.toJson s.effect), ("duration", .real s.duration),
    ("source_image", ofText? s.image),
    ("transition", Value.ofOption Transition.toJson s.transition)]

/-- Read a segment that is nested so that `depth` levels are left for its own. -/
def ofJson? (depth : Nat) (v : Value) : Option (Segment Float) := do
  let [effect, duration, image, transition] ←
    v.fields (plain ["animation", "duration", "source_image", "transition"]) true | none
  return {
    effect := ← optional (Effect.ofJson? (depth - 1)) effect
    duration := ← required Value.double? duration
    image := ← optional Value.text? image
    transition := ← optional Transition.ofJson? transition }

end Segment

namespace Timeline

def toJson (t : Timeline Float) : Value :=
  .object [("segments", .list (t.segments.map Segment.toJson)), ("fps", .nat t.rate),
    ("canvas", t.canvas.toJson), ("primary_image", ofText? t.image),
    ("total_duration", ofDouble? t.target)]

/-- Read a timeline. -/
def ofJson? (v : Value) : Option (Timeline Float) := do
  let [segments, rate, canvas, image, target] ←
    v.fields (plain ["segments", "fps", "canvas", "primary_image", "total_duration"]) true | none
  return {
    segments := ← required (Value.listOf? (Segment.ofJson? (maxDepth - 2))) segments
    rate := ← required rateOfJson? rate
    canvas := ← required Canvas.ofJson? canvas
    image := ← optional Value.text? image
    target := ← optional Value.double? target }

end Timeline

namespace JobFrame

/-- The names of a frame's members, in their order. -/
def names : List (List String) :=
  [["id"], ["duration"], ["transition"], ["transitionDuration"],
    ["uploadedImage", "uploadedImageData"], ["animation"]]

/-- A frame with every member in it. -/
def toJson (f : JobFrame) : Value :=
  .object [("id", ofCount? f.id), ("duration", .real f.duration),
    ("transition", ofText? f.transition), ("transitionDuration", ofDouble? f.transitionDuration),
    ("uploadedImage", ofText? f.image),
    ("animation", Value.ofOption Settings.toJson f.settings)]

/-- Read a frame; everything may be absent. -/
def ofJson? (v : Value) : Option JobFrame := do
  let [id, duration, transition, transitionDuration, image, settings] ← v.fields names false
    | none
  return {
    id := ← optional (Value.count? maxLong) id
    duration := ← defaulted 0.0 Value.double? duration
    transition := ← optional Value.text? transition
    transitionDuration := ← optional Value.double? transitionDuration
    image := ← optional Value.text? image
    settings := ← optional Settings.ofJson? settings }

end JobFrame

namespace Job

/-- The names of a job's members, in their order. -/
def names : List (List String) :=
  plain ["frames", "totalDuration", "fps", "width", "height", "image", "audio", "output"]

/-- A job with every member in it. -/
def toJson (j : Job) : Value :=
  .object [("frames", .list (j.frames.map JobFrame.toJson)),
    ("totalDuration", ofDouble? j.duration),
    ("fps", ofCount? j.rate), ("width", ofCount? j.width), ("height", ofCount? j.height),
    ("image", ofText? j.image), ("audio", ofText? j.audio), ("output", ofText? j.output)]

/-- Read a job; everything may be absent. -/
def ofJson? (v : Value) : Option Job := do
  let [frames, duration, rate, width, height, image, audio, output] ← v.fields names false | none
  return {
    frames := ← defaulted [] (Value.listOf? JobFrame.ofJson?) frames
    duration := ← optional Value.double? duration
    rate := ← optional (Value.count? maxWord) rate
    width := ← optional (Value.count? maxWord) width
    height := ← optional (Value.count? maxWord) height
    image := ← optional Value.text? image
    audio := ← optional Value.text? audio
    output := ← optional Value.text? output }

end Job

def Mismatch.toJson (m : Mismatch Float) : Value :=
  .object [("segments_total", .real m.segments), ("target", .real m.target)]

/-- A boundary, tagged by what it is. -/
def Boundary.toJson : Boundary Float → Value
  | cut index => .object [("type", .text "cut"), ("index", .nat index)]
  | transition index kind duration offset =>
      .object [("type", .text "transition"), ("index", .nat index), ("kind", kind.toJson),
        ("duration", .real duration), ("offset", .real offset)]

def Piece.toJson (p : Piece Float) : Value :=
  .object [("index", .nat p.index), ("input", .text p.image), ("chain", Chain.toJson p.chain),
    ("family", .text p.family.name), ("duration", .real p.duration), ("frames", .nat p.frames),
    ("transition", Value.ofOption Transition.toJson p.transition),
    ("diagnostics", Diagnostic.listToJson p.diagnostics)]

def Compiled.toJson (c : Compiled Float) : Value :=
  .object [("graph", c.graph.toJson), ("inputs", .list (c.images.map .text)),
    ("audio_input", ofCount? c.audioInput),
    ("boundaries", .list (c.boundaries.map Boundary.toJson)), ("total_duration", .real c.total),
    ("video_duration", .real c.video), ("mismatch", Value.ofOption Mismatch.toJson c.mismatch),
    ("diagnostics", Diagnostic.listToJson c.diagnostics)]

end Montage
