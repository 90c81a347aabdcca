/-
# Montage.Media -- how long a medium lasts

Lengths are measured by a tool that prints them.  A whole medium must have a
usable length; a single stream need not be there at all, and one without a length
counts as nothing.

The longer of the streams is the length a scene must be held open for, so that
neither its pictures nor its narration are cut off.
-/
import Montage.Host
import Montage.Number.Literal
import Montage.Seconds

namespace Montage.Media

set_option autoImplicit false

/-- A stream of a medium. -/
inductive Stream where
  | picture
  | sound
  deriving DecidableEq, Repr

/-- The first stream of its kind, as the prober selects it. -/
def Stream.selector : Stream → String
  | picture => "v:0"
  | sound => "a:0"

/-- The lengths of the first streams of a medium, in seconds. -/
structure Streams where
  picture : Float
  sound : Float

/-- The longer of two lengths; one that is no number loses. -/
def Streams.longest (s : Streams) : Float :=
  if s.picture.isNaN then s.sound else Seconds.greatest s.picture s.sound

/-- The name of the tool that measures. -/
def prober : String := "ffprobe"

/-- The arguments that make the prober print one length and nothing else. -/
def probeArgs (path : String) : Option Stream → List String
  | none =>
      ["-v", "error", "-show_entries", "format=duration", "-of",
        "default=noprint_wrappers=1:nokey=1", path]
  | some stream =>
      ["-v", "error", "-select_streams", stream.selector, "-show_entries", "stream=duration",
        "-of", "default=noprint_wrappers=1:nokey=1", path]

/-- The length of a whole medium in what the prober printed. -/
def readLength (printed : String) : Except Failure Float :=
  match Seconds.usable? (freeNumber (trim printed)) with
  | some length => .ok length
  | none => .error (.unusableLength (trim printed))

/-- The length of a stream in what the prober printed: the first line, or nothing. -/
def readStreamLength (printed : String) : Float :=
  (Seconds.usable? (freeNumber (trim (firstLine printed)))).getD 0.0

variable {m : Type → Type} [Monad m] [Host m]

/-- What the prober prints of a medium, or of one of its streams. -/
def probe (path : String) (stream : Option Stream) : ExceptT Failure m String := do
  unless ← Host.isFile path do throw (.mediaNotFound path)
  unless ← Host.hasTool prober do throw .proberMissing
  let some exit ← Host.call prober (probeArgs path stream) | throw .proberNotStarted
  if exit.status ≠ 0 then throw (.proberFailed path (trim exit.complaint))
  return exit.output

/-- The length of a medium. -/
def length (path : String) : ExceptT Failure m Float := do
  readLength (← probe path none)

/-- The length of a medium, if it can be measured. -/
def length? (path : String) : m (Option Float) := do
  return (← (length path).run).toOption

/-- The length of a medium, or another one if it cannot be measured. -/
def lengthOr (path : String) (other : Float) : m Float := do
  return (← length? path).getD other

/-- The lengths of the streams of a medium. -/
def streams (path : String) : ExceptT Failure m Streams := do
  let picture ← probe path (some .picture)
  let sound ← probe path (some .sound)
  return ⟨readStreamLength picture, readStreamLength sound⟩

/-- How long to hold a scene open: as long as its longer stream, if there is one
with a length. -/
def completion? (path : String) : m (Option Float) := do
  match ← (streams path).run with
  | .ok s => return some s.longest |>.filter (fun length => decide (0.0 < length))
  | .error _ => return none

end Montage.Media
