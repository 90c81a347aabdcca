/-
# Montage.Motion.Slide -- effects that slide a window

The image is first made larger than the clip, and then a window of the size of
the clip moves over it.  Its offset is a formula over the time: a pan or a
parallax goes once from one end towards the other, a wave swings sideways, and a
breath keeps the window in the middle while the image swells.
-/
import Montage.Motion.Zoom

namespace Montage.Motion

set_option autoImplicit false

variable {τ : Type} [Seconds τ]

/-- The fragment that prepares frames and then cuts a window out of each. -/
def windowFragment (clip : Clip τ) (enlarge : List Step) (window : Window) : Fragment where
  steps := enlarge ++ [.crop clip.canvas window, .setRate clip.rate]
  family := .timeExpression
  span := .whole clip.frames
  canvas := clip.canvas

/-- How much larger than the clip an image is made for a pan without a zoom. -/
def panOverscale : Float := 1.5

/-- How much larger than the clip an image is made for a single pan. -/
def panScale (p : KenBurns) : Float :=
  if p.startScale < p.endScale then 1.0 + (p.endScale - p.startScale) else panOverscale

/-- A side of the clip, made larger by a factor and even. -/
def enlarged (side : Nat) (factor : Float) : Nat := evenRound (Float.ofNat side * factor)

/-- The room that a crop leaves beside its window. -/
def room (frame : Var) (window : Nat) : Expr := .group (.sub (.var frame) (.nat window))

/-- A single pan: the window moves by the given part of the room. -/
def singlePan (clip : Clip τ) (p : KenBurns) (pan : Direction) : Fragment :=
  let w := clip.canvas.width
  let h := clip.canvas.height
  let progress : Expr :=
    .mul (.div (.var .t) (.num (Seconds.numeral clip.duration)))
      (.num (.ofFloat (intensityFactor p.intensity)))
  let forward : Expr := .group progress
  let backward : Expr := .group (.sub (.nat 1) progress)
  let middle (frame : Var) (window : Nat) : Expr := .div (room frame window) (.nat 2)
  let window : Window := match pan with
    | .panRight => .placed (.mul (room .inW w) forward) (middle .inH h)
    | .panLeft => .placed (.mul (room .inW w) backward) (middle .inH h)
    | .panDown => .placed (middle .inW w) (.mul (room .inH h) forward)
    | _ => .placed (middle .inW w) (.mul (room .inH h) backward)
  windowFragment clip [.resize (enlarged w (panScale p)) (enlarged h (panScale p))] window

/-- A pan or zoom; a single pan slides, everything else zooms. -/
def kenBurns (clip : Clip τ) (p : KenBurns) : Fragment :=
  match p.directions.singlePan? with
  | some pan => singlePan clip p pan
  | none => zoomAndPan clip p

/-- The part of the moving axis that the window of a parallax covers. -/
def windowShare : Float := 0.8

/-- The speed at which the window of a parallax crosses its range exactly once. -/
def referenceSpeed : Float := 0.5

/-- A parallax: the window moves until it reaches the end, and stays there. -/
def parallax (clip : Clip τ) (p : Parallax) : Fragment :=
  let w := clip.canvas.width
  let h := clip.canvas.height
  let widened (side : Nat) : Nat := evenRound (Float.ofNat side / windowShare)
  let progress : Expr :=
    .least (.nat 1)
      (.div (.mul (.num (.ofFloat (p.speed / referenceSpeed))) (.var .t))
        (.num (Seconds.numeral clip.duration)))
  let travel : Expr :=
    .group (if p.slide.isForward then progress else .sub (.nat 1) progress)
  let offset (frame window : Var) : Expr :=
    .mul (.group (.sub (.var frame) (.var window))) travel
  if p.slide.isHorizontal then
    windowFragment clip [.resize (widened w) h] (.named (offset .iw .ow) (.nat 0) false)
  else
    windowFragment clip [.resize w (widened h)] (.named (.nat 0) (offset .ih .oh) false)

/-- The offset of the strongest wave, in pixels. -/
def maxWave : Float := 50.0

/-- The offset of a wave, in pixels: at least one. -/
def waveOffset (p : Cinemagraph) : Nat :=
  match exact (intensityFactor p.intensity * maxWave) with
  | some q => max 1 (roundUp q).toNat
  | none => 1

/-- A window that swings sideways. -/
def wave (clip : Clip τ) (p : Cinemagraph) : Fragment :=
  let offset := waveOffset p
  let width := min maxWord (clip.canvas.width + min maxWord (2 * offset))
  let x : Expr :=
    .add (.nat offset) (.mul (.nat offset) (.sine (angle (.var .t) (period clip p))))
  windowFragment clip [.resize width clip.canvas.height] (.named x (.nat 0) true)

/-- An image that swells on both axes; it never gets smaller than the clip. -/
def breathe (clip : Clip τ) (p : Cinemagraph) : Fragment :=
  let a : Expr := .num (amplitude p)
  let size : Expr :=
    .group (.add (.add (.nat 1) a) (.mul a (.sine (angle (.var .t) (period clip p)))))
  windowFragment clip
    [.resize clip.canvas.width clip.canvas.height,
      .stretch (.mul (.var .iw) size) (.mul (.var .ih) size)]
    .centred

def cinemagraph (clip : Clip τ) (p : Cinemagraph) : Fragment :=
  match p.pulse with
  | .subtleZoom => subtleZoom clip p
  | .wave => wave clip p
  | .breathe => breathe clip p

end Montage.Motion
