/-
# Montage.Command -- what an encoder is asked to do

A command is data: the inputs in the order in which graphs number them, a filter,
the encoding, and where the output goes.  `Command.args` spells it out for the
encoder, and `Command.line` for a person with a shell.

The images of a timeline come first among the inputs and its narration after
them, because that is how its graph is wired.  Whether narration is given must
agree with the graph; `Compiled.command` refuses otherwise.
-/
import Montage.Command.Encoding
import Montage.Command.Shell
import Montage.Timeline.Compile

namespace Montage

set_option autoImplicit false

/-- An input of a command. -/
inductive Source where
  /-- An image, read as a single frame. -/
  | image (path : String)
  /-- An image that is repeated forever at a rate. -/
  | loopedImage (path : String) (rate : Nat)
  /-- A narration. -/
  | audio (path : String)
  /-- A list of videos that are read one after the other. -/
  | concatList (path : String)
  /-- Any other medium. -/
  | media (path : String)
  deriving DecidableEq, Repr

namespace Source

/-- Where an input is read from. -/
def path : Source → String
  | image p | loopedImage p _ | audio p | concatList p | media p => p

/-- What an encoder is told about an input before it is named. -/
def options : Source → List String
  | loopedImage _ rate => ["-loop", "1", "-framerate", toString rate]
  | concatList _ => ["-f", "concat", "-safe", "0"]
  | image _ | audio _ | media _ => []

/-- The arguments for an input. -/
def args (s : Source) : List String := s.options ++ ["-i", s.path]

end Source

/-- What is applied between the inputs and the output. -/
inductive Filtering where
  /-- A chain on the only picture stream, as text. -/
  | chain (text : String)
  /-- A graph; its finished streams are what is encoded. -/
  | graph (g : Graph)
  deriving DecidableEq, Repr

/-- The arguments for a filter. -/
def Filtering.args : Filtering → List String
  | chain text => ["-vf", text]
  | graph g => ["-filter_complex", g.text] ++ g.outputs.flatMap (fun pad => ["-map", pad])

/-- Something an encoder is asked to do. -/
structure Command where
  inputs : List Source
  filter : Option Filtering := none
  encoding : Encoding
  /-- Where the output ends, in seconds. -/
  duration : Option Float := none
  /-- Whether the output ends with the shortest stream. -/
  shortest : Bool := false
  output : String

namespace Command

/-- A clip of one scene: its image, repeated for as long as the narration lasts. -/
def ofScene (image audio : String) (filter : Option String) (rate : Nat) (output : String) :
    Command where
  inputs := [.loopedImage image rate, .audio audio]
  filter := filter.map .chain
  encoding := .scene
  shortest := true
  output := output

/-- The arguments of a command, after the name of the encoder. -/
def args (c : Command) : List String :=
  [if c.encoding.overwrite then "-y" else "-n"]
    ++ c.inputs.flatMap Source.args
    ++ (c.filter.map Filtering.args).getD []
    ++ c.encoding.args
    ++ Encoding.option "-t" (c.duration.map (fun t => (Seconds.numeral t).text))
    ++ (if c.shortest then ["-shortest"] else [])
    ++ (if c.encoding.fastStart then ["-movflags", "+faststart"] else [])
    ++ [c.output]

/-- The name of the encoder. -/
def encoder : String := "ffmpeg"

def line (c : Command) : String := Shell.line (encoder :: c.args)

end Command

namespace Compiled

/-- Whether a narration fits the way a graph is wired, the cause if it does not. -/
def audioFault? (c : Compiled Float) (audio : Option String) : Option Failure :=
  match c.audioInput, audio with
  | some input, some _ =>
      if input = c.images.length then none else some (.audioMiswired input c.images.length)
  | some _, none => some .audioExpected
  | none, some _ => some .audioUnexpected
  | none, none => none

/-- The command that renders a compiled timeline: an input for each image, then
the narration. -/
def command (c : Compiled Float) (audio : Option String) (output : String)
    (encoding : Encoding) : Except Failure Command :=
  match c.audioFault? audio with
  | some fault => .error fault
  | none => .ok
    { inputs := c.images.map .image ++ (audio.map .audio).toList
      filter := some (.graph c.graph)
      encoding := encoding
      duration := some c.total
      shortest := true
      output := output }

end Compiled

end Montage
