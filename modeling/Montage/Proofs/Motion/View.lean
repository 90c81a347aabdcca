/-
# Montage.Proofs.Motion.View -- what is seen of a picture at a moment

A fragment that moves shows a part of a picture that is larger, and the formulas of its
steps say which part.  `Fragment.view?` reads them: frames are made larger until a zoom or a
crop takes its part, whose place it works out from the number of the frame or from the time.

There is a view only where every formula on the way has a value (`Expr.value?`).

Whatever the effect, its view lies at a share of the room beside it (`View.placed`): a
swing in the middle, a pan at the share that is over, in its direction (`Direction.shares`).
-/
import Montage.Motion
import Montage.Proofs.Filter.Value

namespace Montage

set_option autoImplicit false

/-! ## Views -/

/-- The size of a picture in pixels, which need not be whole. -/
structure Extent where
  width : Rat
  height : Rat

/-- The size of a canvas. -/
def Canvas.extent (c : Canvas) : Extent := ⟨c.width, c.height⟩

/-- All that is used of the sine: that it has values, and that they stay within one. -/
structure Circle where
  pi : Rat
  sin : Rat → Rat
  low (a : Rat) : -1 ≤ sin a
  high (a : Rat) : sin a ≤ 1

/-- A moment of a clip.  Zooms read the number of the frame, slides the time in seconds. -/
structure Moment where
  frame : Rat
  time : Rat

/-- What the names in a formula stand for, inside a filter that makes `window` of `picture`. -/
def Moment.names (m : Moment) (c : Circle) (picture window : Extent) (zoom : Rat) : Var → Rat
  | .iw | .inW => picture.width
  | .ih | .inH => picture.height
  | .ow => window.width
  | .oh => window.height
  | .zoom => zoom
  | .on => m.frame
  | .t => m.time
  | .pi => c.pi

namespace Moment

variable (m : Moment) (c : Circle) (picture window : Extent) (zoom : Rat)

@[simp] theorem names_on : m.names c picture window zoom .on = m.frame := rfl

@[simp] theorem names_t : m.names c picture window zoom .t = m.time := rfl

@[simp] theorem names_pi : m.names c picture window zoom .pi = c.pi := rfl

@[simp] theorem names_zoom : m.names c picture window zoom .zoom = zoom := rfl

end Moment

/-- A part of a picture: its size, and where it begins. -/
structure View where
  whole : Extent
  x : Rat
  y : Rat
  size : Extent

/-- The part that a crop takes. -/
def Window.view? (names : Var → Rat) (sin : Rat → Rat) (picture size : Extent) :
    Window → Option View
  | .centred =>
      some ⟨picture, (picture.width - size.width) / 2, (picture.height - size.height) / 2, size⟩
  | .placed x y | .named x y _ => do
      return ⟨picture, ← x.value? names sin, ← y.value? names sin, size⟩

/-- The part of a picture that is left by steps.  A zoom takes the part that `lens` makes of the
factor it asks for, as encoders keep factors within bounds; no factor reads an earlier one. -/
def seen? (c : Circle) (lens : Rat → Rat) (m : Moment) : Extent → List Step → Option View
  | picture, .zoompan z x y _ size _ :: _ => do
      let zoom := lens (← z.value? (m.names c picture size.extent 1) c.sin)
      let names := m.names c picture size.extent zoom
      return ⟨picture, ← x.value? names c.sin, ← y.value? names c.sin,
        ⟨picture.width / zoom, picture.height / zoom⟩⟩
  | picture, .crop size window :: _ =>
      window.view? (m.names c picture size.extent 1) c.sin picture size.extent
  | _, .resize width height :: rest => seen? c lens m ⟨width, height⟩ rest
  | picture, .stretch width height :: rest => do
      let names := m.names c picture picture 1
      seen? c lens m ⟨← width.value? names c.sin, ← height.value? names c.sin⟩ rest
  | _, _ => none

/-- The part of a picture that a fragment shows. -/
def Fragment.view? (c : Circle) (lens : Rat → Rat) (picture : Extent) (f : Fragment) (m : Moment) :
    Option View :=
  seen? c lens m picture f.steps

/-- The factor that a fragment asks for, if it zooms. -/
def Fragment.zoom? (c : Circle) (picture : Extent) (f : Fragment) (m : Moment) : Option Rat :=
  match f.steps with
  | .zoompan z _ _ _ size _ :: _ => z.value? (m.names c picture size.extent 1) c.sin
  | _ => none

/-- The view that lies at shares of the room beside it. -/
def View.placed (whole size : Extent) (shares : Rat × Rat) : View :=
  ⟨whole, (whole.width - size.width) * shares.1, (whole.height - size.height) * shares.2, size⟩

/-- Where a window is that has come so far in a direction, as shares of the room; on the other
axis it stays in the middle. -/
def Direction.shares (progress : Rat) : Direction → Rat × Rat
  | .panRight => (progress, 1 / 2)
  | .panLeft => (1 - progress, 1 / 2)
  | .panDown => (1 / 2, progress)
  | .panUp => (1 / 2, 1 - progress)
  | .zoomIn | .zoomOut => (1 / 2, 1 / 2)

/-- The size of a picture under a factor. -/
def Extent.under (picture : Extent) (zoom : Rat) : Extent :=
  ⟨picture.width / zoom, picture.height / zoom⟩

/-- Towards which end of its axis a pan goes. -/
def Horizontal.sign : Horizontal → Rat
  | .left => -1
  | .right => 1

/-- Towards which end of its axis a pan goes. -/
def Vertical.sign : Vertical → Rat
  | .up => -1
  | .down => 1

/-- The shares of the room at which a view is that has drifted from the middle. -/
def DirectionSet.shares (s : DirectionSet) (drift : Rat) : Rat × Rat :=
  ((1 + (s.horizontal.elim 0 Horizontal.sign) * drift) / 2,
    (1 + (s.vertical.elim 0 Vertical.sign) * drift) / 2)

namespace Motion

variable {c : Circle} {lens : Rat → Rat} {picture : Extent} {m : Moment} {clip : Clip Float}

/-! ## Views of zooms -/

/-- The factor of a ramp at a frame. -/
def ramp (first last : Numeral) (frames : Nat) (frame : Rat) : Rat :=
  first.value + (last.value - first.value) * frame / frames

section

variable {window : Extent} {zoom length : Rat} {side : Var} {frames : Nat}

theorem value?_rampUp (a b : Numeral) (counted : frames ≠ 0) :
    (rampUp a b frames).value? (m.names c picture window zoom) c.sin
      = some (ramp a b frames m.frame) := by
  refine Expr.value?_of_eval ?_ ?_ rfl
  · simp [rampUp, Expr.Grouped, Expr.binding]
  · simp [rampUp, Expr.divisors, counted]

/-- A zoom outwards goes from the first factor to the last like a zoom inwards. -/
theorem value?_rampDown (a b : Numeral) (counted : frames ≠ 0) :
    (rampDown a b frames).value? (m.names c picture window zoom) c.sin
      = some (ramp a b frames m.frame) := by
  refine Expr.value?_of_eval ?_ ?_ ?_
  · simp [rampDown, Expr.Grouped, Expr.binding]
  · simp [rampDown, Expr.divisors, counted]
  · simp [rampDown, ramp]
    ring

theorem value?_num (a : Numeral) :
    (Expr.num a).value? (m.names c picture window zoom) c.sin = some a.value :=
  Expr.value?_of_eval trivial (by simp [Expr.divisors]) rfl

/-- Half of the room that a zoom leaves lies before the window. -/
theorem value?_centred (magnifies : zoom ≠ 0)
    (stands : m.names c picture window zoom side = length) :
    (centred side).value? (m.names c picture window zoom) c.sin
      = some ((length - length / zoom) * (1 / 2)) := by
  refine Expr.value?_of_eval ?_ ?_ ?_
  · simp [centred, visible, Expr.Grouped, Expr.binding]
  · simp [centred, visible, Expr.divisors, magnifies]
  · simp [centred, visible, stands]
    ring

/-- What a window has drifted is half of the room, times the share that is over. -/
theorem value?_drift (strength : Numeral) (magnifies : zoom ≠ 0) (counted : frames ≠ 0)
    (stands : m.names c picture window zoom side = length) :
    (drift side strength frames).value? (m.names c picture window zoom) c.sin
      = some ((length - length / zoom) * (strength.value * (m.frame / frames) / 2)) := by
  refine Expr.value?_of_eval ?_ ?_ ?_
  · simp [drift, visible, Expr.Grouped, Expr.binding]
  · simp [drift, visible, Expr.divisors, magnifies, counted]
  · simp [drift, visible, stands]
    ring

theorem value?_add_drift (strength : Numeral) (magnifies : zoom ≠ 0) (counted : frames ≠ 0)
    (stands : m.names c picture window zoom side = length) :
    (Expr.add (centred side) (drift side strength frames)).value?
        (m.names c picture window zoom) c.sin
      = some ((length - length / zoom) * ((1 + 1 * (strength.value * (m.frame / frames))) / 2)) := by
  rw [Expr.value?_add (value?_centred magnifies stands)
    (value?_drift strength magnifies counted stands) (show 1 ≤ 2 by decide)]
  congr 1
  ring

theorem value?_sub_drift (strength : Numeral) (magnifies : zoom ≠ 0) (counted : frames ≠ 0)
    (stands : m.names c picture window zoom side = length) :
    (Expr.sub (centred side) (drift side strength frames)).value?
        (m.names c picture window zoom) c.sin
      = some ((length - length / zoom)
          * ((1 + -1 * (strength.value * (m.frame / frames))) / 2)) := by
  rw [Expr.value?_sub (value?_centred magnifies stands)
    (value?_drift strength magnifies counted stands) (show 1 ≤ 2 by decide)]
  congr 1
  ring

end

/-- A zoom shows the part that its formulas say, at the factor that the lens makes. -/
theorem view_zoomFragment {z x y : Expr} (span : Span) {factor across down : Rat}
    (hz : z.value? (m.names c picture clip.canvas.extent 1) c.sin = some factor)
    (hx : x.value? (m.names c picture clip.canvas.extent (lens factor)) c.sin
      = some ((picture.width - picture.width / lens factor) * across))
    (hy : y.value? (m.names c picture clip.canvas.extent (lens factor)) c.sin
      = some ((picture.height - picture.height / lens factor) * down)) :
    (zoomFragment clip z x y span).view? c lens picture m
      = some (.placed picture (picture.under (lens factor)) (across, down)) := by
  simp only [Fragment.view?, zoomFragment, seen?, hz, Option.bind_eq_bind, Option.bind_some, hx, hy]
  rfl

/-- A zoom without a pan stays in the middle. -/
theorem view_centred {z : Expr} (span : Span) {factor : Rat}
    (hz : z.value? (m.names c picture clip.canvas.extent 1) c.sin = some factor)
    (magnifies : lens factor ≠ 0) :
    (zoomFragment clip z (centred .iw) (centred .ih) span).view? c lens picture m
      = some (.placed picture (picture.under (lens factor)) (1 / 2, 1 / 2)) :=
  view_zoomFragment span hz (value?_centred magnifies rfl) (value?_centred magnifies rfl)

end Motion

/-- The strength of a pan, as it is written. -/
def KenBurns.strength (p : KenBurns) : Rat := (Numeral.ofFloat (intensityFactor p.intensity)).value

/-- The scale at the first frame, as it is written. -/
def KenBurns.first (p : KenBurns) : Numeral := .ofFloat p.startScale

/-- The scale at the last frame, as it is written. -/
def KenBurns.last (p : KenBurns) : Numeral := .ofFloat p.endScale

/-- The factor of a pan or zoom at a frame. -/
def KenBurns.factor (p : KenBurns) (frames : Nat) (frame : Rat) : Rat :=
  if p.directions.hasZoom then Motion.ramp p.first p.last frames frame else p.first.value

namespace Motion

variable {c : Circle} {lens : Rat → Rat} {picture : Extent} {m : Moment} {clip : Clip Float}

theorem zoom_zoomAndPan (p : KenBurns) (counted : clip.frames ≠ 0) :
    (zoomAndPan clip p).zoom? c picture m = some (p.factor clip.frames m.frame) := by
  unfold KenBurns.factor
  simp only [Fragment.zoom?, zoomAndPan, zoomFragment]
  rcases p.directions.zoom.eq_none_or_eq_some with none | ⟨_ | _, zoom⟩
  · simp only [none, DirectionSet.hasZoom]
    exact value?_num _
  · simp only [zoom, DirectionSet.hasZoom]
    exact value?_rampUp _ _ counted
  · simp only [zoom, DirectionSet.hasZoom]
    exact value?_rampDown _ _ counted

theorem view_zoomAndPan (p : KenBurns) (counted : clip.frames ≠ 0)
    (magnifies : lens (p.factor clip.frames m.frame) ≠ 0) :
    (zoomAndPan clip p).view? c lens picture m
      = some (.placed picture (picture.under (lens (p.factor clip.frames m.frame)))
          (p.directions.shares (p.strength * (m.frame / clip.frames)))) := by
  refine view_zoomFragment .eachFrame (zoom_zoomAndPan p counted) ?across ?down
  case across =>
    rcases p.directions.horizontal.eq_none_or_eq_some with none | ⟨_ | _, pan⟩
    · simp only [none, Option.elim]
      rw [value?_centred magnifies rfl, zero_mul, add_zero]
      rfl
    · simp only [pan, Option.elim]
      exact value?_sub_drift _ magnifies counted rfl
    · simp only [pan, Option.elim]
      exact value?_add_drift _ magnifies counted rfl
  case down =>
    rcases p.directions.vertical.eq_none_or_eq_some with none | ⟨_ | _, pan⟩
    · simp only [none, Option.elim]
      rw [value?_centred magnifies rfl, zero_mul, add_zero]
      rfl
    · simp only [pan, Option.elim]
      exact value?_sub_drift _ magnifies counted rfl
    · simp only [pan, Option.elim]
      exact value?_add_drift _ magnifies counted rfl

/-! ## Views of windows -/

/-- A window in a picture of a fixed size. -/
theorem view_resized (width height : Nat) (window : Window) :
    (windowFragment clip [.resize width height] window).view? c lens picture m
      = window.view? (m.names c ⟨width, height⟩ clip.canvas.extent 1) c.sin ⟨width, height⟩
          clip.canvas.extent := rfl

/-- The part of a pan that is over, times its strength. -/
def panProgress (clip : Clip Float) (p : KenBurns) (time : Rat) : Rat :=
  time / (Seconds.numeral clip.duration).value * p.strength

/-- The part of the range that the window of a parallax has crossed. -/
def slideProgress (clip : Clip Float) (p : Parallax) (time : Rat) : Rat :=
  min 1 ((Numeral.ofFloat (p.speed / referenceSpeed)).value * time
    / (Seconds.numeral clip.duration).value)

end Motion

/-- The size of the picture that a single pan moves over. -/
def KenBurns.stage (clip : Clip Float) (p : KenBurns) : Extent :=
  ⟨Motion.enlarged clip.canvas.width (Motion.panScale p),
    Motion.enlarged clip.canvas.height (Motion.panScale p)⟩

/-- The size of the picture that a parallax moves over. -/
def Slide.stage (clip : Clip Float) (s : Slide) : Extent :=
  if s.isHorizontal then
    ⟨evenRound (Float.ofNat clip.canvas.width / Motion.windowShare), clip.canvas.height⟩
  else ⟨clip.canvas.width, evenRound (Float.ofNat clip.canvas.height / Motion.windowShare)⟩

namespace Motion

variable {c : Circle} {lens : Rat → Rat} {picture : Extent} {m : Moment} {clip : Clip Float}

section

variable {window : Extent} {zoom length share : Rat} {side : Var} {travel : Expr}

/-- The room beside a window of a whole number of pixels, shared out. -/
theorem value?_room (size : Nat) (stands : m.names c picture window zoom side = length)
    (shared : travel.value? (m.names c picture window zoom) c.sin = some share) :
    (Expr.mul (room side size) (.group travel)).value? (m.names c picture window zoom) c.sin
      = some ((length - size) * share) := by
  refine Expr.value?_mul (Expr.value?_of_eval ?_ ?_ ?_) (Expr.value?_group shared)
    (show 1 ≤ 2 by decide) (show 2 ≤ 2 by decide)
  · simp [room, Expr.Grouped, Expr.binding]
  · simp [room, Expr.divisors]
  · rw [room, Expr.eval_group, Expr.eval_sub, Expr.eval_var, Expr.eval_nat, stands]

/-- What is left of the way. -/
theorem value?_backward (shared : travel.value? (m.names c picture window zoom) c.sin = some share)
    (binds : 1 ≤ travel.binding) :
    (Expr.sub (.nat 1) travel).value? (m.names c picture window zoom) c.sin = some (1 - share) :=
  Expr.value?_sub (Expr.value?_of_eval trivial (by simp [Expr.divisors]) Nat.cast_one) shared binds

/-- Half of the room beside a window. -/
theorem value?_middle (size : Nat) (stands : m.names c picture window zoom side = length) :
    (Expr.div (room side size) (.nat 2)).value? (m.names c picture window zoom) c.sin
      = some ((length - size) * (1 / 2)) := by
  refine Expr.value?_of_eval ?_ ?_ ?_
  · simp [room, Expr.Grouped, Expr.binding]
  · simp [room, Expr.divisors]
  · simp [room, stands]
    ring

/-- A quotient by the length of a clip, times a strength. -/
theorem value?_progress (length strength : Numeral) (lasts : length.value ≠ 0) :
    (Expr.mul (.div (.var .t) (.num length)) (.num strength)).value?
        (m.names c picture window zoom) c.sin
      = some (m.time / length.value * strength.value) := by
  refine Expr.value?_of_eval ?_ ?_ rfl
  · simp [Expr.Grouped, Expr.binding]
  · simp [Expr.divisors, lasts]

end

/-- A pan on its own goes as far as it has come. -/
theorem view_singlePan (p : KenBurns) {pan : Direction} (pans : pan.isPan = true)
    (lasts : (Seconds.numeral clip.duration).value ≠ 0) :
    (singlePan clip p pan).view? c lens picture m
      = some (.placed (p.stage clip) clip.canvas.extent
          (pan.shares (panProgress clip p m.time))) := by
  cases pan with
  | zoomIn | zoomOut => cases pans
  | panRight | panDown =>
      unfold singlePan
      simp only [view_resized, Window.view?]
      rw [value?_room _ rfl (value?_progress _ _ lasts), value?_middle _ rfl]
      rfl
  | panLeft | panUp =>
      unfold singlePan
      simp only [view_resized, Window.view?]
      rw [value?_room _ rfl (value?_backward (value?_progress _ _ lasts) le_rfl),
        value?_middle _ rfl]
      rfl

/-- A pan is seen nowhere in a clip whose length is written as nothing. -/
theorem view_singlePan_of_zero (p : KenBurns) {pan : Direction} (pans : pan.isPan = true)
    (zero : (Seconds.numeral clip.duration).value = 0) :
    (singlePan clip p pan).view? c lens picture m = none := by
  cases pan with
  | zoomIn | zoomOut => cases pans
  | panRight | panLeft =>
      unfold singlePan
      simp only [view_resized, Window.view?]
      rw [Expr.value?_of_zero (d := .num (Seconds.numeral clip.duration)) (by simp [Expr.divisors])
        zero]
      rfl
  | panDown | panUp =>
      unfold singlePan
      simp only [view_resized, Window.view?]
      rw [value?_middle _ rfl,
        Expr.value?_of_zero (d := .num (Seconds.numeral clip.duration)) (by simp [Expr.divisors])
          zero]
      rfl

/-- The progress of a parallax, which stays at the end once it is there. -/
theorem value?_least (window : Extent) (zoom : Rat) (rate length : Numeral)
    (lasts : length.value ≠ 0) :
    (Expr.least (.nat 1) (.div (.mul (.num rate) (.var .t)) (.num length))).value?
        (m.names c picture window zoom) c.sin
      = some (min 1 (rate.value * m.time / length.value)) := by
  refine Expr.value?_of_eval ?_ ?_ ?_
  · simp [Expr.Grouped, Expr.binding]
  · simp [Expr.divisors, lasts]
  · simp

/-- The room beside the window of a parallax, shared out. -/
theorem value?_range {window : Extent} {zoom whole size share : Rat} {outer inner : Var}
    {travel : Expr} (whole_eq : m.names c picture window zoom outer = whole)
    (size_eq : m.names c picture window zoom inner = size)
    (shared : travel.value? (m.names c picture window zoom) c.sin = some share) :
    (Expr.mul (.group (.sub (.var outer) (.var inner))) (.group travel)).value?
        (m.names c picture window zoom) c.sin
      = some ((whole - size) * share) := by
  refine Expr.value?_mul (Expr.value?_of_eval ?_ ?_ ?_) (Expr.value?_group shared)
    (show 1 ≤ 2 by decide) (show 2 ≤ 2 by decide)
  · simp [Expr.Grouped, Expr.binding]
  · simp [Expr.divisors]
  · rw [Expr.eval_group, Expr.eval_sub, Expr.eval_var, Expr.eval_var, whole_eq, size_eq]

theorem value?_nat (window : Extent) (zoom : Rat) (n : Nat) :
    (Expr.nat n).value? (m.names c picture window zoom) c.sin = some (n : Rat) :=
  Expr.value?_of_eval trivial (by simp [Expr.divisors]) rfl

/-- A parallax goes as far as it has come. -/
theorem view_parallax (p : Parallax) (lasts : (Seconds.numeral clip.duration).value ≠ 0) :
    (parallax clip p).view? c lens picture m
      = some (.placed (p.slide.stage clip) clip.canvas.extent
          (p.slide.pan.shares (slideProgress clip p m.time))) := by
  unfold parallax Slide.stage
  cases direction : p.slide with
  | leftToRight | topToBottom =>
      simp only [Slide.isHorizontal, Slide.isForward, if_true, Bool.false_eq_true, if_false,
        view_resized, Window.view?]
      rw [value?_range rfl rfl (value?_least _ _ _ _ lasts), value?_nat]
      simp [View.placed, Direction.shares, Slide.pan, slideProgress, Canvas.extent, Moment.names]
  | rightToLeft | bottomToTop =>
      simp only [Slide.isHorizontal, Slide.isForward, if_true, Bool.false_eq_true, if_false,
        view_resized, Window.view?]
      rw [value?_range rfl rfl (value?_backward (value?_least _ _ _ _ lasts) (Nat.le_succ 1)),
        value?_nat]
      simp [View.placed, Direction.shares, Slide.pan, slideProgress, Canvas.extent, Moment.names]

theorem view_parallax_of_zero (p : Parallax)
    (zero : (Seconds.numeral clip.duration).value = 0) :
    (parallax clip p).view? c lens picture m = none := by
  unfold parallax
  cases direction : p.slide with
  | leftToRight | rightToLeft =>
      simp only [Slide.isHorizontal, Slide.isForward, if_true, Bool.false_eq_true, if_false,
        view_resized, Window.view?]
      rw [Expr.value?_of_zero (d := .num (Seconds.numeral clip.duration)) (by simp [Expr.divisors])
        zero]
      rfl
  | topToBottom | bottomToTop =>
      simp only [Slide.isHorizontal, Slide.isForward, if_true, Bool.false_eq_true, if_false,
        view_resized, Window.view?]
      rw [value?_nat,
        Expr.value?_of_zero (d := .num (Seconds.numeral clip.duration)) (by simp [Expr.divisors])
          zero]
      rfl

/-- A wave swings through the whole room beside its window. -/
theorem view_wave (p : Cinemagraph) (repeats : (period clip p).value ≠ 0)
    (fits : clip.canvas.width + 2 * waveOffset p ≤ maxWord) :
    (wave clip p).view? c lens picture m
      = some (.placed ⟨(clip.canvas.width + 2 * waveOffset p : Nat), clip.canvas.height⟩
          clip.canvas.extent
          ((1 + c.sin (2 * c.pi * m.time / (period clip p).value)) / 2, 1 / 2)) := by
  have width : min maxWord (clip.canvas.width + min maxWord (2 * waveOffset p))
      = clip.canvas.width + 2 * waveOffset p := by omega
  unfold wave
  simp only [width, view_resized, Window.view?]
  rw [value?_nat, Expr.value?_of_eval (q := waveOffset p
    + waveOffset p * c.sin (2 * c.pi * m.time / (period clip p).value))]
  · simp [View.placed, Canvas.extent]
    ring
  · simp [angle, Expr.Grouped, Expr.binding]
  · simp [angle, Expr.divisors, repeats]
  · simp [angle]

/-- By how much a breathing picture is larger than the clip. -/
def swell (c : Circle) (m : Moment) (clip : Clip Float) (p : Cinemagraph) : Rat :=
  1 + (amplitude p).value
    + (amplitude p).value * c.sin (2 * c.pi * m.time / (period clip p).value)

theorem value?_swell (p : Cinemagraph) (repeats : (period clip p).value ≠ 0) {side : Var}
    {length : Rat} {window : Extent} {zoom : Rat}
    (stands : m.names c picture window zoom side = length) :
    (Expr.mul (.var side) (.group (.add (.add (.nat 1) (.num (amplitude p)))
      (.mul (.num (amplitude p)) (.sine (angle (.var .t) (period clip p))))))).value?
        (m.names c picture window zoom) c.sin
      = some (length * swell c m clip p) := by
  refine Expr.value?_of_eval ?_ ?_ ?_
  · simp [angle, Expr.Grouped, Expr.binding]
  · simp [angle, Expr.divisors, repeats]
  · simp [angle, stands, swell]

/-- A breath keeps the middle of a picture that swells. -/
theorem view_breathe (p : Cinemagraph) (repeats : (period clip p).value ≠ 0) :
    (breathe clip p).view? c lens picture m
      = some (.placed
          ⟨clip.canvas.width * swell c m clip p, clip.canvas.height * swell c m clip p⟩
          clip.canvas.extent (1 / 2, 1 / 2)) := by
  simp only [breathe, Fragment.view?, windowFragment, List.cons_append, List.nil_append, seen?]
  rw [value?_swell p repeats rfl, value?_swell p repeats rfl]
  simp [Window.view?, View.placed, Canvas.extent, Moment.names]
  constructor <;> ring

/-- A swing of the zoom keeps the middle. -/
theorem value?_subtleZoom (p : Cinemagraph) {window : Extent} {zoom : Rat} (plays : clip.rate ≠ 0)
    (repeats : (period clip p).value ≠ 0) :
    (Expr.add (.nat 1) (.mul (.num (amplitude p))
      (.sine (angle (.group (.div (.var .on) (.nat clip.rate))) (period clip p))))).value?
        (m.names c picture window zoom) c.sin
      = some (1 + (amplitude p).value
          * c.sin (2 * c.pi * (m.frame / clip.rate) / (period clip p).value)) := by
  refine Expr.value?_of_eval ?_ ?_ ?_
  · simp [angle, Expr.Grouped, Expr.binding]
  · simp [angle, Expr.divisors, repeats, plays]
  · simp [angle]

end Motion

end Montage
