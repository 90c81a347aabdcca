/-
# Montage.Command.Encoding -- how a video is encoded

An encoding is what an encoder is told about its output: codecs, quality, sound.
Five of them are in use.  The one for timelines is the base; the others say only
how they differ from it.
-/
namespace Montage

set_option autoImplicit false

/-- What an encoder is told about its output. -/
structure Encoding where
  videoCodec : String := "libx264"
  /-- The trade of speed for size. -/
  preset : String := "veryfast"
  /-- The constant quality to aim at. -/
  quality : Option Nat := none
  profile : Option String := none
  level : Option String := none
  pixelFormat : Option String := some "yuv420p"
  audioCodec : String := "aac"
  audioRate : Option String := some "128k"
  /-- Samples of sound a second. -/
  sampleRate : Option Nat := none
  channels : Option Nat := none
  /-- Whether the index goes to the front, so that playing can start early. -/
  fastStart : Bool := true
  /-- Whether an output that exists is replaced. -/
  overwrite : Bool := true
  deriving DecidableEq, Repr

namespace Encoding

/-- The encoding of timelines. -/
def timeline : Encoding := {}

/-- The encoding of single scenes, for players that mind the profile. -/
def scene : Encoding :=
  { profile := some "high", level := some "4.0", audioRate := some "192k" }

/-- The encoding of a story that is joined from scenes. -/
def merge : Encoding := { preset := "fast", pixelFormat := none, audioRate := some "192k" }

/-- The common layout that scenes are brought to before they are joined. -/
def normalize : Encoding :=
  { preset := "fast", quality := some 18, pixelFormat := none, audioRate := some "192k"
    sampleRate := some 48000, channels := some 2, fastStart := false }

/-- The encoding of a scene that is held open to the end of its narration. -/
def complete : Encoding :=
  { preset := "fast", pixelFormat := none, audioRate := none, fastStart := false }

/-- An option with its value, if it has one. -/
def option (flag : String) : Option String → List String
  | none => []
  | some value => [flag, value]

/-- The options of an encoding, codecs first. -/
def args (e : Encoding) : List String :=
  ["-c:v", e.videoCodec, "-preset", e.preset]
    ++ option "-crf" (e.quality.map toString) ++ option "-profile:v" e.profile
    ++ option "-level" e.level ++ option "-pix_fmt" e.pixelFormat
    ++ ["-c:a", e.audioCodec] ++ option "-b:a" e.audioRate
    ++ option "-ar" (e.sampleRate.map toString) ++ option "-ac" (e.channels.map toString)

end Encoding

end Montage
