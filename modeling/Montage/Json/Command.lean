/-
# Montage.Json.Command -- commands in data files

Commands are written and never read back; of what they are made of, encodings are
also read.  Everything in an encoding may be absent, and what is absent is as in
the encoding of timelines.
-/
import Montage.Command
import Montage.Json.Report
import Montage.Media

namespace Montage

set_option autoImplicit false

open Json

namespace Encoding

/-- The names of an encoding's members, in their order. -/
def names : List (List String) :=
  plain ["video_codec", "preset", "crf", "profile", "level", "pixel_format", "audio_codec",
    "audio_bitrate", "sample_rate", "channels", "faststart", "overwrite"]

/-- An encoding with every member in it. -/
def toJson (e : Encoding) : Value :=
  .object [("video_codec", .text e.videoCodec), ("preset", .text e.preset),
    ("crf", ofCount? e.quality), ("profile", ofText? e.profile), ("level", ofText? e.level),
    ("pixel_format", ofText? e.pixelFormat), ("audio_codec", .text e.audioCodec),
    ("audio_bitrate", ofText? e.audioRate), ("sample_rate", ofCount? e.sampleRate),
    ("channels", ofCount? e.channels), ("faststart", .bool e.fastStart),
    ("overwrite", .bool e.overwrite)]

/-- The largest count that one byte holds. -/
def maxByte : Nat := 255

/-- Read an encoding; everything may be absent. -/
def ofJson? (v : Value) : Option Encoding := do
  let [videoCodec, preset, quality, profile, level, pixelFormat, audioCodec, audioRate,
      sampleRate, channels, fastStart, overwrite] ← v.fields names false | none
  let base := timeline
  return {
    videoCodec := ← defaulted base.videoCodec Value.text? videoCodec
    preset := ← defaulted base.preset Value.text? preset
    quality := ← defaultedOptional base.quality (Value.count? maxByte) quality
    profile := ← defaultedOptional base.profile Value.text? profile
    level := ← defaultedOptional base.level Value.text? level
    pixelFormat := ← defaultedOptional base.pixelFormat Value.text? pixelFormat
    audioCodec := ← defaulted base.audioCodec Value.text? audioCodec
    audioRate := ← defaultedOptional base.audioRate Value.text? audioRate
    sampleRate := ← defaultedOptional base.sampleRate (Value.count? maxWord) sampleRate
    channels := ← defaultedOptional base.channels (Value.count? maxByte) channels
    fastStart := ← defaulted base.fastStart Value.bool? fastStart
    overwrite := ← defaulted base.overwrite Value.bool? overwrite }

end Encoding

namespace Source

/-- The tag of an input. -/
def tag : Source → String
  | image _ => "image"
  | loopedImage _ _ => "looped_image"
  | audio _ => "audio"
  | concatList _ => "concat_list"
  | media _ => "media"

/-- The members of an input besides its tag and its path. -/
def details : Source → List (String × Value)
  | loopedImage _ rate => [("fps", .nat rate)]
  | _ => []

/-- An input as an object with a tag. -/
def toJson (s : Source) : Value :=
  .object ([("type", .text s.tag), ("path", .text s.path)] ++ s.details)

end Source

/-- A filter by how it is given. -/
def Filtering.toJson : Filtering → Value
  | chain text => .object [("simple", .text text)]
  | graph g => .object [("complex", g.toJson)]

def Command.toJson (c : Command) : Value :=
  .object [("inputs", .list (c.inputs.map Source.toJson)),
    ("filter", Value.ofOption Filtering.toJson c.filter), ("settings", c.encoding.toJson),
    ("duration", ofDouble? c.duration), ("shortest", .bool c.shortest),
    ("output", .text c.output)]

/-- The lengths of the streams of a file. -/
def Media.Streams.toJson (s : Media.Streams) : Value :=
  .object [("video", .real s.picture), ("audio", .real s.sound)]

end Montage
