/-
# Montage.CommandLine.Scene -- the command for a scene

It prints the filter of a scene, or the whole command that makes its clip, and
runs that if asked.

A clip is as long as its settings say.  Where they say nothing it is as long as
the command line says, and where that says nothing either, as its narration, if
that can be found and measured.  The narration is only measured when it matters.
-/
import Montage.CommandLine.Fault
import Montage.CommandLine.Request
import Montage.Json.Settings
import Montage.Media
import Montage.Motion
import Montage.Render
import Montage.SceneFiles

namespace Montage.CommandLine

set_option autoImplicit false

/-- The files of a scene, if it has an identifier. -/
def sceneFiles? (directory scene : Option String) : Option SceneFiles :=
  scene.map (fun id => ⟨directory.getD "", id⟩)

/-- The length that a clip has unless its settings say otherwise: the given one,
or else the measured one, or else that of the standard clip. -/
def baseLength (given measured : Option Float) : Float :=
  given.getD (measured.getD (Clip.duration .standard))

namespace SceneRequest

/-- The canvas that a request asks for; fails if a side is below two pixels. -/
def canvas (r : SceneRequest) : Except Failure Canvas :=
  Canvas.checked (r.width.getD r.preset.canvas.width) (r.height.getD r.preset.canvas.height)

/-- The clip that settings and a request make, given the length of the narration
where it was measured. -/
def clip (r : SceneRequest) (settings : Settings) (measured : Option Float) (canvas : Canvas)
    (rate : Nat) : Clip Float :=
  settings.clip ⟨baseLength r.duration measured, canvas, rate⟩

/-- Whether the length of the narration matters. -/
def needsNarration (r : SceneRequest) (settings : Settings) : Bool :=
  r.duration.isNone && settings.duration.isNone

variable {m : Type → Type} [Monad m] [Host m]

/-- The length of the narration, where it matters and can be measured. -/
def narration? (r : SceneRequest) (settings : Settings) : m (Option Float) :=
  match sceneFiles? r.directory r.scene with
  | some files =>
      if r.needsNarration settings then Media.length? files.narration else return none
  | none => return none

/-- Do what a request asks for. -/
def run (r : SceneRequest) : Attempt m Unit := do
  let settings ← readDocument .settings Settings.ofJson? r.settings
  let canvas ← accept r.canvas
  let measured ← ExceptT.lift (r.narration? settings)
  let rate ← accept (checkedRate r.rate)
  let clip := r.clip settings measured canvas rate
  let filter := (Motion.sceneFilter clip settings).value
  if !r.command && !r.toRun then
    match filter with
    | some chain => print chain
    | none => ExceptT.lift (Host.complain "no animation applied")
  else
    let some files := sceneFiles? r.directory r.scene | throw .sceneUnnamed
    let command := Command.ofScene files.image files.narration filter clip.rate files.video
    print command.line
    if r.toRun then
      attempt command.run
      announce command.output

end SceneRequest

end Montage.CommandLine
