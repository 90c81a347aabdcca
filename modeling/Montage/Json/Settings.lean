/-
# Montage.Json.Settings -- clips, effects and their settings in data files

Every type here has a writer and a reader, and the reader takes back what the
writer gives.  Readers take more than that: records by position, members in any
order, and aliases for three of the settings.

An effect is tagged by its kind, and the tag may stand anywhere among the
members.  So the whole object is read before its kind is known, and nothing in it
may be unreadable, not even in members that are then skipped.
-/
import Montage.Effect.Check
import Montage.Json.Record

namespace Montage

set_option autoImplicit false

open Json (Value)

namespace Json

/-- A record without aliases. -/
def plain (names : List String) : List (List String) := names.map (fun n => [n])

/-- An optional double. -/
def ofDouble? (x : Option Float) : Value := Value.ofOption .real x

/-- An optional text. -/
def ofText? (s : Option String) : Value := Value.ofOption .text s

/-- An optional count. -/
def ofCount? (n : Option Nat) : Value := Value.ofOption .nat n

end Json

open Json

/-- A canvas as an object. -/
def Canvas.toJson (c : Canvas) : Value :=
  .object [("width", .nat c.width), ("height", .nat c.height)]

/-- Read a canvas. -/
def Canvas.ofJson? (v : Value) : Option Canvas := do
  let [width, height] ← v.fields (plain ["width", "height"]) true | none
  return ⟨← required (Value.count? maxWord) width, ← required (Value.count? maxWord) height⟩

/-- Read a rate. -/
def rateOfJson? (v : Value) : Option Nat := v.count? maxWord

/-- The name of a preset in data files. -/
def Preset.name : Preset → String
  | hd720 => "hd720"
  | fullHd1080 => "full_hd1080"
  | square1080 => "square1080"
  | portrait1080 => "portrait1080"

/-- Read a preset. -/
def Preset.ofJson? : Value → Option Preset :=
  Value.choice? (Preset.all.map (fun p => (p.name, p)))

/-- A clip as an object. -/
def Clip.toJson (c : Clip Float) : Value :=
  .object [("duration", .real c.duration), ("canvas", c.canvas.toJson), ("fps", .nat c.rate)]

/-- Read a clip; what is absent is as in the standard clip. -/
def Clip.ofJson? (v : Value) : Option (Clip Float) := do
  let [duration, canvas, rate] ← v.fields (plain ["duration", "canvas", "fps"]) false | none
  let standard : Clip Float := .standard
  return ⟨← defaulted standard.duration Value.double? duration,
    ← defaulted standard.canvas Canvas.ofJson? canvas, ← defaulted standard.rate rateOfJson? rate⟩

def Direction.toJson (d : Direction) : Value := .text d.name

/-- Read a direction; the name must be exact. -/
def Direction.ofJson? : Value → Option Direction :=
  Value.choice? (Direction.all.map (fun d => (d.name, d)))

def DirectionSet.toJson (s : DirectionSet) : Value := .list (s.toList.map Direction.toJson)

/-- Read a set of directions; where two exclude each other, the winner is kept. -/
def DirectionSet.ofJson? (v : Value) : Option DirectionSet :=
  (v.listOf? Direction.ofJson?).map (fun ds => (DirectionSet.ofList ds).1)

def Slide.toJson (s : Slide) : Value := .text s.name

/-- Read a slide; the name must be exact. -/
def Slide.ofJson? : Value → Option Slide :=
  Value.choice? (Slide.all.map (fun s => (s.name, s)))

def Pulse.toJson (p : Pulse) : Value := .text p.name

/-- Read a pulse; the name must be exact. -/
def Pulse.ofJson? : Value → Option Pulse :=
  Value.choice? (Pulse.all.map (fun p => (p.name, p)))

namespace EffectKind

def tag : EffectKind → String
  | kenBurns => "ken_burns"
  | parallax => "parallax"
  | cinemagraph => "cinemagraph"
  | dollyZoom => "dolly_zoom"
  | still => "static"

def tags : List (String × EffectKind) := all.map (fun k => (k.tag, k))

def toJson (k : EffectKind) : Value := .text k.tag

/-- Read a kind; the tag must be exact. -/
def ofJson? : Value → Option EffectKind := Value.choice? tags

end EffectKind

namespace Effect

/-- The members of an effect besides its tag. -/
def members : Effect → List (String × Value)
  | kenBurns p =>
      [("intensity", .real p.intensity), ("start_scale", .real p.startScale),
        ("end_scale", .real p.endScale), ("directions", p.directions.toJson)]
  | parallax p =>
      [("intensity", .real p.intensity), ("speed", .real p.speed), ("direction", p.slide.toJson)]
  | cinemagraph p =>
      [("intensity", .real p.intensity), ("mask", .text p.mask), ("motion", p.pulse.toJson),
        ("loop_duration", ofDouble? p.period)]
  | dollyZoom p =>
      [("intensity", .real p.intensity), ("start_fov", ofDouble? p.startView),
        ("end_fov", ofDouble? p.endView), ("focus_point", .text p.focus)]
  | still => []

/-- An effect as an object with a tag. -/
def toJson (e : Effect) : Value := .object (("kind", e.kind.toJson) :: e.members)

/-- Read the parameters of an effect whose kind is known. -/
def ofParameters? (v : Value) : EffectKind → Option Effect
  | .kenBurns => do
      let [intensity, startScale, endScale, directions] ←
        v.fields (plain ["intensity", "start_scale", "end_scale", "directions"]) true | none
      return .kenBurns ⟨← required Value.double? intensity, ← required Value.double? startScale,
        ← required Value.double? endScale, ← required DirectionSet.ofJson? directions⟩
  | .parallax => do
      let [intensity, speed, slide] ←
        v.fields (plain ["intensity", "speed", "direction"]) true | none
      return .parallax ⟨← required Value.double? intensity, ← required Value.double? speed,
        ← required Slide.ofJson? slide⟩
  | .cinemagraph => do
      let [intensity, mask, pulse, period] ←
        v.fields (plain ["intensity", "mask", "motion", "loop_duration"]) true | none
      return .cinemagraph ⟨← required Value.double? intensity, ← required Value.text? mask,
        ← required Pulse.ofJson? pulse, ← optional Value.double? period⟩
  | .dollyZoom => do
      let [intensity, startView, endView, focus] ←
        v.fields (plain ["intensity", "start_fov", "end_fov", "focus_point"]) true | none
      return .dollyZoom ⟨← required Value.double? intensity, ← optional Value.double? startView,
        ← optional Value.double? endView, ← required Value.text? focus⟩
  | .still => match v with
      | .object _ => some .still
      | .list [] => some .still
      | _ => none

/-- Read an effect that is nested in other containers, so that `depth` levels are
left for its own. -/
def ofJson? (depth : Nat) (v : Value) : Option Effect :=
  if v.isReadable depth then match v with
    | .object members => do
        let tag ← uniqueMember ["kind"] members
        let kind ← EffectKind.tags.lookup (← required Value.text? tag)
        ofParameters? (.object (members.filter (fun m => m.1 ≠ "kind"))) kind
    | .list (tag :: rest) => do
        let kind ← EffectKind.tags.lookup (← tag.text?)
        ofParameters? (.list rest) kind
    | _ => none
  else none

end Effect

/-- How deep the containers of a data file may be nested where all is read. -/
def Json.maxDepth : Nat := 127

/-- Directions as they were written. -/
def Tokens.toJson : Tokens → Value
  | one s => .text s
  | many ss => .list (ss.map .text)

/-- Read directions: a text, or a list of texts. -/
def Tokens.ofJson? : Value → Option Tokens
  | .text s => some (.one s)
  | .list items => (items.mapM Value.text?).map .many
  | _ => none

namespace Settings

/-- The names a setting goes by, in the order of the settings. -/
def names : List (List String) :=
  [["type", "kind"], ["intensity"], ["direction", "directions"], ["startScale"], ["endScale"],
    ["speed"], ["mask"], ["motionType"], ["loopDuration"], ["startFov"], ["endFov"],
    ["focusPoint"], ["width"], ["height"], ["duration"]]

/-- Settings as an object with every setting in it. -/
def toJson (s : Settings) : Value :=
  .object
    [("type", .text s.label), ("intensity", ofDouble? s.intensity),
      ("direction", Value.ofOption Tokens.toJson s.direction),
      ("startScale", ofDouble? s.startScale), ("endScale", ofDouble? s.endScale),
      ("speed", ofDouble? s.speed), ("mask", ofText? s.mask), ("motionType", ofText? s.motion),
      ("loopDuration", ofDouble? s.loopDuration), ("startFov", ofDouble? s.startView),
      ("endFov", ofDouble? s.endView), ("focusPoint", ofText? s.focus),
      ("width", ofCount? s.width), ("height", ofCount? s.height),
      ("duration", ofDouble? s.duration)]

/-- Read settings; every setting may be absent. -/
def ofJson? (v : Value) : Option Settings := do
  let [label, intensity, direction, startScale, endScale, speed, mask, motion, loopDuration,
      startView, endView, focus, width, height, duration] ← v.fields names false | none
  return {
    label := ← defaulted "" Value.text? label
    intensity := ← optional Value.double? intensity
    direction := ← optional Tokens.ofJson? direction
    startScale := ← optional Value.double? startScale
    endScale := ← optional Value.double? endScale
    speed := ← optional Value.double? speed
    mask := ← optional Value.text? mask
    motion := ← optional Value.text? motion
    loopDuration := ← optional Value.double? loopDuration
    startView := ← optional Value.double? startView
    endView := ← optional Value.double? endView
    focus := ← optional Value.text? focus
    width := ← optional (Value.count? maxWord) width
    height := ← optional (Value.count? maxWord) height
    duration := ← optional Value.double? duration }

end Settings

end Montage
