/-
# Montage.CommandLine.Request -- what a command line asks for

There are three commands: a scene from its settings, a timeline from its job, and
a story from its videos.  A command line that does not fit any of them asks for
nothing; there is no reading of it, in whole or in part.
-/
import Montage.Clip
import Montage.CommandLine.Words
import Montage.Number.Literal

namespace Montage.CommandLine

set_option autoImplicit false

structure SceneRequest where
  /-- Where the settings are. -/
  settings : String
  duration : Option Float
  preset : Preset
  width : Option Nat
  height : Option Nat
  rate : Nat
  directory : Option String
  scene : Option String
  /-- Whether to print the whole command. -/
  command : Bool
  /-- Whether to run what is printed. -/
  toRun : Bool

structure TimelineRequest where
  /-- Where the job is. -/
  job : String
  image : Option String
  audio : Option String
  output : Option String
  width : Option Nat
  height : Option Nat
  rate : Option Nat
  directory : Option String
  scene : Option String
  /-- Whether to print the compiled timeline as data. -/
  json : Bool
  /-- Whether to run what is printed. -/
  toRun : Bool

structure StoryRequest where
  videos : List String
  list : String
  output : String
  normalize : Bool
  /-- Whether videos are held open until their narration ends. -/
  complete : Bool
  /-- Whether to run what is printed. -/
  toRun : Bool

/-- What a command line asks for. -/
inductive Request where
  | version
  | scene (r : SceneRequest)
  | timeline (r : TimelineRequest)
  | story (r : StoryRequest)

/-- A path: any text but the empty one. -/
def readPath (s : String) : Option String := if s = "" then none else some s

/-- Any text. -/
def readText (s : String) : Option String := some s

/-- A count in 32 bits. -/
def readCount (s : String) : Option Nat := freeCount maxWord s

/-- The name of a preset on a command line. -/
def presetName : Preset → String
  | .hd720 => "hd720"
  | .fullHd1080 => "full-hd1080"
  | .square1080 => "square1080"
  | .portrait1080 => "portrait1080"

def readPreset (s : String) : Option Preset := Preset.all.find? (fun p => presetName p = s)

namespace SceneRequest

/-- The words that a request for a scene is made of. -/
def grammar : Grammar where
  settings := ["in", "duration", "preset", "width", "height", "fps", "dir", "scene-id"]
  switches := ["command", "run"]

/-- The request that words make. -/
def ofWords? (w : Words) : Option SceneRequest := do
  return {
    settings := ← (← w.setting? "in" readPath)
    duration := ← w.setting? "duration" freeNumber
    preset := (← w.setting? "preset" readPreset).getD .hd720
    width := ← w.setting? "width" readCount
    height := ← w.setting? "height" readCount
    rate := (← w.setting? "fps" readCount).getD defaultRate
    directory := ← w.setting? "dir" readPath
    scene := ← w.setting? "scene-id" readText
    command := w.has "command"
    toRun := w.has "run" }

end SceneRequest

namespace TimelineRequest

/-- The words that a request for a timeline is made of. -/
def grammar : Grammar where
  settings := ["in", "image", "audio", "out", "width", "height", "fps", "dir", "scene-id"]
  switches := ["json", "run"]

/-- The request that words make. -/
def ofWords? (w : Words) : Option TimelineRequest := do
  return {
    job := ← (← w.setting? "in" readPath)
    image := ← w.setting? "image" readPath
    audio := ← w.setting? "audio" readPath
    output := ← w.setting? "out" readPath
    width := ← w.setting? "width" readCount
    height := ← w.setting? "height" readCount
    rate := ← w.setting? "fps" readCount
    directory := ← w.setting? "dir" readPath
    scene := ← w.setting? "scene-id" readText
    json := w.has "json"
    toRun := w.has "run" }

end TimelineRequest

namespace StoryRequest

/-- The words that a request for a story is made of. -/
def grammar : Grammar where
  settings := ["list", "out"]
  switches := ["normalize", "no-audio-completion", "run"]
  operands := true

/-- The list that is written if none is named. -/
def defaultList : String := "concat_list.txt"

/-- The request that words make; there must be videos. -/
def ofWords? (w : Words) : Option StoryRequest := do
  if w.operands.isEmpty then none
  return {
    videos := ← w.operands.mapM readPath
    list := (← w.setting? "list" readPath).getD defaultList
    output := ← (← w.setting? "out" readPath)
    normalize := w.has "normalize"
    complete := !w.has "no-audio-completion"
    toRun := w.has "run" }

end StoryRequest

/-- Whether a word asks for the version. -/
def asksVersion (s : String) : Bool :=
  match Word.ofText s with
  | .option "version" none => true
  | .letters ('V' :: _) => true
  | _ => false

/-- What a command line asks for, if it fits.  The first word is the command. -/
def Request.ofArguments? : List String → Option Request
  | [] => none
  | "scene" :: rest =>
      ((Words.scan SceneRequest.grammar none rest).bind SceneRequest.ofWords?).map .scene
  | "timeline" :: rest =>
      ((Words.scan TimelineRequest.grammar none rest).bind TimelineRequest.ofWords?).map .timeline
  | "merge" :: rest =>
      ((Words.scan StoryRequest.grammar none rest).bind StoryRequest.ofWords?).map .story
  | s :: _ => if asksVersion s then some .version else none

end Montage.CommandLine
