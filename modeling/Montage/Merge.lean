/-
# Montage.Merge -- joining the videos of scenes into a story

Videos are joined by way of a list in a file.  Before that they may be brought to
a common layout, and a video whose narration outlasts its pictures is held open
until both have ended.  Either step writes a file of its own, next to the list,
and from then on that file stands for the video.

What is written, and what stands for each video in the end, depends on nothing but
the request and the lengths that were measured.
-/
import Montage.Command
import Montage.Path

namespace Montage

set_option autoImplicit false

/-- The text of a list of videos, one line for each; a path stands there as it is shown. -/
def concatList (videos : List RawPath) : String :=
  String.join (videos.map (fun v => "file " ++ quoted v.display ++ "\n"))

/-- What stands before the path on a line of a list. -/
def listKeyword : List Char := ['f', 'i', 'l', 'e', ' ']

/-- The video on a line of a list. -/
def readListLine (line : List Char) : Option String :=
  if listKeyword.isPrefixOf line then
    (unquote (line.drop listKeyword.length)).map String.ofList
  else none

/-- The videos on a list; every line names one, and the last one ends like the
others. -/
def readList (text : String) : Option (List String) :=
  match (text.toList.splitOn '\n').reverse with
  | [] :: lines => lines.reverse.mapM readListLine
  | _ => none

/-- A list of videos, and the command that joins what is on it. -/
structure MergePlan where
  /-- Where the list goes. -/
  listPath : String
  listText : String
  command : Command

namespace MergePlan

def join (list output : String) : Command where
  inputs := [.concatList list]
  encoding := .merge
  output := output

/-- The plan to join videos in their order; there must be some. -/
def of (videos : List RawPath) (list output : String) : Except Failure MergePlan :=
  if videos.isEmpty then .error .nothingToMerge
  else .ok ⟨list, concatList videos, join list output⟩

end MergePlan

namespace Command

/-- Bring a video to the common layout. -/
def normalize (input output : String) : Command where
  inputs := [.media input]
  encoding := .normalize
  output := output

/-- Hold a video open for a length. -/
def complete (input : String) (length : Float) (output : String) : Command where
  inputs := [.media input]
  encoding := .complete
  duration := some length
  output := output

end Command

/-- A video to be joined, and how long it is to be held open, if it is. -/
structure Take where
  video : String
  length : Option Float

/-- A request to join videos. -/
structure Merge where
  takes : List Take
  /-- Where the list goes. -/
  list : String
  /-- Where the story goes. -/
  output : String
  /-- Whether all videos are brought to a common layout first. -/
  normalize : Bool

namespace Merge

/-- The directory of the list, where the files in between go. -/
def directory (r : Merge) : String := (Path.parent? r.list).getD ""

/-- The file of a video in the common layout. -/
def normalized (r : Merge) (index : Nat) : String :=
  Path.join r.directory ("normalized_" ++ toString index ++ ".mp4")

/-- The file of a video that was held open. -/
def completed (r : Merge) (index : Nat) : String :=
  Path.join r.directory ("processed_" ++ toString index ++ ".mp4")

/-- What stands for a video after the first step. -/
def prepared (r : Merge) (index : Nat) (take : Take) : String :=
  if r.normalize then r.normalized index else take.video

/-- What stands for a video in the end. -/
def final (r : Merge) (index : Nat) (take : Take) : String :=
  match take.length with
  | some _ => r.completed index
  | none => r.prepared index take

/-- The commands of the first step. -/
def normalizing (r : Merge) : List Command :=
  if r.normalize then
    r.takes.mapIdx (fun i take => Command.normalize take.video (r.normalized i))
  else []

/-- The command that holds a video open, if it is. -/
def completing? (r : Merge) (index : Nat) (take : Take) : Option Command :=
  take.length.map (fun length =>
    Command.complete (r.prepared index take) length (r.completed index))

/-- The commands of the second step. -/
def completing (r : Merge) : List Command := (r.takes.mapIdx r.completing?).filterMap id

/-- The commands before the join, in the order in which they run. -/
def steps (r : Merge) : List Command := r.normalizing ++ r.completing

/-- The plan to join what stands for the videos. -/
def plan (r : Merge) : Except Failure MergePlan :=
  MergePlan.of ((r.takes.mapIdx r.final).map .ofString) r.list r.output

end Merge

end Montage
