/-
# Montage.SceneFiles -- where the files of a scene are

The files of a scene share a directory, and their names are made from the
identifier of the scene.
-/
import Montage.Path

namespace Montage

set_option autoImplicit false

/-- The directory and the identifier of a scene. -/
structure SceneFiles where
  directory : String
  scene : String
  deriving DecidableEq, Repr

namespace SceneFiles

def file (s : SceneFiles) (name : String) : String := Path.join s.directory name

def image (s : SceneFiles) : String := s.file (s.scene ++ ".png")

/-- An image that was uploaded for a scene; they count from one. -/
def frame (s : SceneFiles) (n : Nat) : String :=
  s.file ("frame_" ++ s.scene ++ "_" ++ toString n ++ ".png")

def narration (s : SceneFiles) : String := s.file (s.scene ++ ".mp3")

/-- The video of a scene with a single image. -/
def video (s : SceneFiles) : String := s.file (s.scene ++ ".mp4")

/-- The video of a scene with several images. -/
def multiframeVideo (s : SceneFiles) : String := s.file (s.scene ++ "_multiframe.mp4")

end SceneFiles

end Montage
