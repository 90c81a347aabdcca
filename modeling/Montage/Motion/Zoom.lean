/-
# Montage.Motion.Zoom -- effects that zoom

The zoom of a frame is a formula over its number, and so is the offset of the
visible window.  A ramp goes in equal steps from one zoom to another; a swing
goes up and down around one.  Without a pan the window stays in the middle; a
pan lets it drift to a side, by a share of the room that the zoom leaves.
-/
import Montage.Effect.Check
import Montage.Motion.Fragment

namespace Montage.Motion

set_option autoImplicit false

variable {τ : Type} [Seconds τ]

/-- The size of the whole image along an axis, and of the window in it. -/
def visible (side : Var) : Expr := .div (.var side) (.var .zoom)

/-- The offset that keeps the window in the middle. -/
def centred (side : Var) : Expr :=
  .sub (.div (.var side) (.nat 2)) (.group (.div (visible side) (.nat 2)))

/-- The offset that has drifted from the middle at the given frame: half of the
room beside the window, times the strength, times the part that is over. -/
def drift (side : Var) (strength : Numeral) (frames : Nat) : Expr :=
  .group (.div
    (.mul (.mul (.div (.group (.sub (.var side) (visible side))) (.nat 2)) (.num strength))
      (.var .on))
    (.nat frames))

/-- The zoom that grows from `a` to `b` in equal steps. -/
def rampUp (a b : Numeral) (frames : Nat) : Expr :=
  .add (.num a)
    (.div (.mul (.group (.sub (.num b) (.num a))) (.var .on)) (.nat frames))

/-- The zoom that shrinks from `a` to `b` in equal steps. -/
def rampDown (a b : Numeral) (frames : Nat) : Expr :=
  .sub (.num a)
    (.div (.mul (.group (.sub (.num a) (.num b))) (.var .on)) (.nat frames))

/-- The fragment with a zoom and an offset. -/
def zoomFragment (clip : Clip τ) (z x y : Expr) (span : Span) : Fragment where
  steps := [.zoompan z x y span.frames clip.canvas clip.rate]
  family := .zoomPan
  span := span
  canvas := clip.canvas

/-- A zoom that stays the same. -/
def constantZoom (clip : Clip τ) (scale : Float) : Fragment :=
  zoomFragment clip (.num (.ofFloat scale)) (centred .iw) (centred .ih) (.whole clip.frames)

/-- A pan or zoom that is not one pan alone. -/
def zoomAndPan (clip : Clip τ) (p : KenBurns) : Fragment :=
  let frames := clip.frames
  let a := Numeral.ofFloat p.startScale
  let b := Numeral.ofFloat p.endScale
  let strength := Numeral.ofFloat (intensityFactor p.intensity)
  let z := match p.directions.zoom with
    | some .inward => rampUp a b frames
    | some .outward => rampDown a b frames
    | none => .num a
  let x := match p.directions.horizontal with
    | some .right => .add (centred .iw) (drift .iw strength frames)
    | some .left => .sub (centred .iw) (drift .iw strength frames)
    | none => centred .iw
  let y := match p.directions.vertical with
    | some .down => .add (centred .ih) (drift .ih strength frames)
    | some .up => .sub (centred .ih) (drift .ih strength frames)
    | none => centred .ih
  zoomFragment clip z x y .eachFrame

/-- The field of view that shows an image at its own size. -/
def referenceView : Float := 50.0

/-- A field of view that can be used. -/
def view (name : String) : Option Float → Except Finding Float
  | none => .error (.viewMissing name)
  | some v => if Seconds.isUsable v then .ok v else .error (.viewNotPositive name v)

/-- A zoom from one field of view to another. -/
def dollyZoom (clip : Clip τ) (p : DollyZoom) : Except Finding Fragment := do
  let first ← view "startFov" p.startView
  let last ← view "endFov" p.endView
  let a := Numeral.ofFloat (referenceView / first)
  let b := Numeral.ofFloat (referenceView / last)
  return zoomFragment clip (rampUp a b clip.frames) (centred .iw) (centred .ih) .eachFrame

/-- The amplitude of the strongest swing of a zoom or a size. -/
def maxAmplitude : Float := 0.5

/-- The amplitude of a swing. -/
def amplitude (p : Cinemagraph) : Numeral :=
  .ofFloat (intensityFactor p.intensity * maxAmplitude)

/-- The period of a swing, the length of the clip if there is none. -/
def period (clip : Clip τ) (p : Cinemagraph) : Numeral :=
  match p.period with
  | some seconds => Seconds.numeral seconds
  | none => Seconds.numeral clip.duration

/-- The angle that has been gone through at a time. -/
def angle (time : Expr) (period : Numeral) : Expr :=
  .div (.mul (.mul (.nat 2) (.var .pi)) time) (.num period)

/-- A zoom that swings around one. -/
def subtleZoom (clip : Clip τ) (p : Cinemagraph) : Fragment :=
  let time : Expr := .group (.div (.var .on) (.nat clip.rate))
  let z : Expr :=
    .add (.nat 1) (.mul (.num (amplitude p)) (.sine (angle time (period clip p))))
  zoomFragment clip z (centred .iw) (centred .ih) .eachFrame

end Montage.Motion
