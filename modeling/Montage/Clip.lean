/-
# Montage.Clip -- how large, how fast and how long a clip is

Encoders want even sizes and a rate that is not zero, so a clip is `sanitized`
before anything is built from it: a side below two pixels falls back to the
default canvas, an odd side loses a pixel, and a length that cannot be used
becomes five seconds.
-/
import Montage.Failure
import Montage.Seconds

namespace Montage

set_option autoImplicit false

/-- The size of a frame in pixels. -/
structure Canvas where
  width : Nat
  height : Nat
  deriving DecidableEq, Repr

namespace Canvas

/-- The default size. -/
def hd : Canvas := ⟨1280, 720⟩

/-- The largest even number that is not larger. -/
def evenFloor (n : Nat) : Nat := n / 2 * 2

/-- A canvas with even sides, the default one if a side is below two pixels. -/
def coerced (width height : Nat) : Canvas :=
  if width < 2 ∨ height < 2 then hd else ⟨evenFloor width, evenFloor height⟩

/-- A canvas with even sides; fails if a side is below two pixels. -/
def checked (width height : Nat) : Except Failure Canvas :=
  if width < 2 ∨ height < 2 then .error .tinyCanvas else .ok (coerced width height)

/-- The canvas that settings ask for, if they give both sides and these will do. -/
def requested? : Option Nat → Option Nat → Option Canvas
  | some w, some h => if 2 ≤ w ∧ 2 ≤ h then some (coerced w h) else none
  | _, _ => none

/-- Whether both sides are even. -/
def isEven (c : Canvas) : Bool := c.width % 2 = 0 ∧ c.height % 2 = 0

/-- The size as filters spell it. -/
def token (c : Canvas) : String := toString c.width ++ "x" ++ toString c.height

end Canvas

/-- The sizes that are offered by name. -/
inductive Preset where
  | hd720
  | fullHd1080
  | square1080
  | portrait1080
  deriving DecidableEq, Repr

namespace Preset

/-- Every preset, the default first. -/
def all : List Preset := [hd720, fullHd1080, square1080, portrait1080]

/-- The size of a preset. -/
def canvas : Preset → Canvas
  | hd720 => ⟨1280, 720⟩
  | fullHd1080 => ⟨1920, 1080⟩
  | square1080 => ⟨1080, 1080⟩
  | portrait1080 => ⟨1080, 1920⟩

end Preset

/-- The default rate, in frames a second. -/
def defaultRate : Nat := 25

/-- A rate that will do; fails on zero. -/
def checkedRate (rate : Nat) : Except Failure Nat :=
  if rate = 0 then .error .zeroRate else .ok rate

/-- What a clip is rendered with. -/
structure Clip (τ : Type) where
  /-- Seconds. -/
  duration : τ
  canvas : Canvas
  /-- Frames a second. -/
  rate : Nat

namespace Clip

variable {τ : Type} [Seconds τ]

/-- The length of a clip when nothing is known about it. -/
def defaultDuration : τ := 5.0

/-- The clip when nothing is known about it. -/
def standard : Clip τ := ⟨defaultDuration, .hd, defaultRate⟩

def frames (c : Clip τ) : Nat := Seconds.wholeFrames c.rate c.duration

/-- The clip with everything an encoder would refuse replaced. -/
def sanitized (c : Clip τ) : Clip τ where
  duration := if Seconds.isUsable c.duration then c.duration else defaultDuration
  canvas := .coerced c.canvas.width c.canvas.height
  rate := if c.rate = 0 then defaultRate else c.rate

end Clip

/-- The even number of pixels nearest to a size, a half going up; at least two,
and at most what a 32-bit count holds. -/
def evenRound (x : Float) : Nat :=
  match exact x with
  | none => 2
  | some q =>
      if q ≤ 2 then 2
      else max 2 (min maxWord (min maxWord (roundUp (q / 2)).toNat * 2))

end Montage
