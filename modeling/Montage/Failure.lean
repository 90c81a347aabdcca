/-
# Montage.Failure -- what cannot be repaired

Settings that make no sense are repaired and reported (`Montage.Finding`); a
failure is what is left: a job without the data a video needs, a file or a tool
that is not there.  Each constructor is one cause, `Failure.category` is the
class it belongs to, and `Failure.message` its wording.
-/
namespace Montage

set_option autoImplicit false

/-- The classes of failures. -/
inductive Failure.Category where
  /-- A job or its parameters are invalid. -/
  | validation
  /-- A segment lacks what it needs to be shown. -/
  | unrenderable
  /-- Text that is not JSON or not of its type. -/
  | malformed
  /-- An external tool is missing or went wrong. -/
  | encoding
  /-- The file system refused. -/
  | system
  deriving DecidableEq, Repr

/-- A cause of failure. -/
inductive Failure where
  | zeroRate
  | tinyCanvas
  | noSegments
  | segmentOutOfRange (index count : Nat)
  | noPrimaryImage (index : Nat)
  | malformedText
  /-- The narration is wired to one input and there are so many images. -/
  | audioMiswired (input images : Nat)
  | audioExpected
  | audioUnexpected
  | nothingToMerge
  | outputExists (path : String)
  | mediaNotFound (path : String)
  | encoderMissing
  | encoderNotStarted
  | encoderFailed (status : Nat) (complaint : String)
  | proberMissing
  | proberNotStarted
  | proberFailed (path complaint : String)
  | unusableLength (text : String)
  | cannotCreateDirectory (path : String)
  | cannotWriteList (path : String)
  deriving DecidableEq, Repr

namespace Failure

/-- The class of a failure. -/
def category : Failure → Category
  | zeroRate | tinyCanvas | noSegments | segmentOutOfRange _ _ | audioMiswired _ _
  | audioExpected | audioUnexpected | nothingToMerge | outputExists _ | mediaNotFound _ =>
      .validation
  | noPrimaryImage _ => .unrenderable
  | malformedText => .malformed
  | encoderMissing | encoderNotStarted | encoderFailed _ _ | proberMissing | proberNotStarted
  | proberFailed _ _ | unusableLength _ => .encoding
  | cannotCreateDirectory _ | cannotWriteList _ => .system

/-- The wording of a failure inside its class. -/
def detail : Failure → String
  | zeroRate => "fps must be > 0"
  | tinyCanvas => "canvas width/height must be >= 2"
  | noSegments => "timeline has no segments"
  | segmentOutOfRange index count => s!"segment {index} out of range ({count} segments)"
  | noPrimaryImage _ => "scene has no primary image"
  | malformedText => "unexpected JSON"
  | audioMiswired input images =>
      s!"audio is wired to input {input} but the timeline has {images} image inputs"
  | audioExpected => "timeline graph expects an audio input but none was given"
  | audioUnexpected => "audio given but the timeline graph was compiled without it"
  | nothingToMerge => "nothing to merge"
  | outputExists path => s!"output file '{path}' already exists"
  | mediaNotFound path => s!"media file '{path}' not found"
  | encoderMissing => "ffmpeg is required for rendering, but was not found on PATH"
  | encoderNotStarted => "failed to spawn ffmpeg (is it installed and on PATH?)"
  | encoderFailed status complaint =>
      s!"ffmpeg exited with status exit status: {status}: {complaint}"
  | proberMissing => "ffprobe is required to measure media duration, but was not found on PATH"
  | proberNotStarted => "failed to spawn ffprobe"
  | proberFailed path complaint => s!"ffprobe failed on '{path}': {complaint}"
  | unusableLength text => s!"ffprobe reported an unusable duration '{text}'"
  | cannotCreateDirectory path => s!"failed to create output directory '{path}'"
  | cannotWriteList path => s!"failed to write concat list '{path}'"

/-- The whole wording of a failure. -/
def message (f : Failure) : String :=
  match f, f.category with
  | noPrimaryImage index, _ => s!"unrenderable segment {index}: " ++ f.detail
  | _, .validation => "validation error: " ++ f.detail
  | _, .malformed => "serialization error: " ++ f.detail
  | _, .encoding => "encode error: " ++ f.detail
  | _, _ => f.detail

end Failure

end Montage
