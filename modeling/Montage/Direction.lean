/-
# Montage.Direction -- where the visible window goes

Six directions on three axes: zoom in or out, pan left or right, pan up or down.
The two on one axis exclude each other, and the first of them wins whichever was
asked for first (`settle`).  So a set of directions holds at most one per axis,
and it depends on which directions were asked for, not on their order.
-/
import Montage.Text.Blank

namespace Montage

set_option autoImplicit false

/-- A direction of motion. -/
inductive Direction where
  | zoomIn
  | zoomOut
  | panLeft
  | panRight
  | panUp
  | panDown
  deriving DecidableEq, Repr

namespace Direction

/-- Every direction, in canonical order. -/
def all : List Direction := [zoomIn, zoomOut, panLeft, panRight, panUp, panDown]

/-- The name of a direction in settings. -/
def name : Direction → String
  | zoomIn => "zoom-in"
  | zoomOut => "zoom-out"
  | panLeft => "pan-left"
  | panRight => "pan-right"
  | panUp => "pan-up"
  | panDown => "pan-down"

/-- The direction with a given name, white space around it ignored. -/
def parse? (s : String) : Option Direction :=
  all.find? (fun d => d.name = trim s)

def isZoom : Direction → Bool
  | zoomIn | zoomOut => true
  | _ => false

def isPan (d : Direction) : Bool := !d.isZoom

end Direction

/-- The zoom axis. -/
inductive Zoom where
  /-- The scale grows over time. -/
  | inward
  /-- The scale shrinks over time. -/
  | outward
  deriving DecidableEq, Repr

/-- The horizontal axis: where the visible window moves. -/
inductive Horizontal where
  | left
  | right
  deriving DecidableEq, Repr

/-- The vertical axis: where the visible window moves. -/
inductive Vertical where
  | up
  | down
  deriving DecidableEq, Repr

namespace Direction

def ofZoom : Zoom → Direction
  | .inward => zoomIn
  | .outward => zoomOut

/-- The direction of a horizontal pan. -/
def ofHorizontal : Horizontal → Direction
  | .left => panLeft
  | .right => panRight

/-- The direction of a vertical pan. -/
def ofVertical : Vertical → Direction
  | .up => panUp
  | .down => panDown

end Direction

/-- What an axis holds after `new` was asked for, and whether the loser of the
axis is turned away: it is when winner and loser meet. -/
def settle {α : Type} [DecidableEq α] (winner loser : α) (held : Option α) (new : α) :
    Option α × Bool :=
  if new = winner ∨ held = some winner then
    (some winner, decide (new = loser ∨ held = some loser))
  else (some new, false)

/-- At most one direction per axis. -/
structure DirectionSet where
  zoom : Option Zoom := none
  horizontal : Option Horizontal := none
  vertical : Option Vertical := none
  deriving DecidableEq, Repr

namespace DirectionSet

/-- The set of no directions. -/
def empty : DirectionSet := {}

/-- The set after one more direction was asked for, and the direction that lost
to its opposite, if any. -/
def insert (s : DirectionSet) : Direction → DirectionSet × Option Direction
  | .zoomIn => onZoom .inward
  | .zoomOut => onZoom .outward
  | .panLeft => onHorizontal .left
  | .panRight => onHorizontal .right
  | .panUp => onVertical .up
  | .panDown => onVertical .down
where
  onZoom (z : Zoom) : DirectionSet × Option Direction :=
    let (held, clash) := settle .inward .outward s.zoom z
    ({ s with zoom := held }, if clash then some .zoomOut else none)
  onHorizontal (h : Horizontal) : DirectionSet × Option Direction :=
    let (held, clash) := settle .left .right s.horizontal h
    ({ s with horizontal := held }, if clash then some .panRight else none)
  onVertical (v : Vertical) : DirectionSet × Option Direction :=
    let (held, clash) := settle .up .down s.vertical v
    ({ s with vertical := held }, if clash then some .panDown else none)

/-- Add directions one after the other, collecting those that lost. -/
def insertAll (s : DirectionSet) : List Direction → DirectionSet × List Direction
  | [] => (s, [])
  | d :: rest =>
      let (s, lost) := s.insert d
      let (s, others) := s.insertAll rest
      (s, lost.toList ++ others)

/-- The set of the directions in a list, and those that lost. -/
def ofList (ds : List Direction) : DirectionSet × List Direction := empty.insertAll ds

/-- The directions of a set, in canonical order. -/
def toList (s : DirectionSet) : List Direction :=
  (s.zoom.map Direction.ofZoom).toList ++ (s.horizontal.map Direction.ofHorizontal).toList
    ++ (s.vertical.map Direction.ofVertical).toList

/-- Whether a set holds no direction. -/
def isEmpty (s : DirectionSet) : Bool := s.zoom.isNone && s.horizontal.isNone && s.vertical.isNone

/-- Whether a set holds a zoom. -/
def hasZoom (s : DirectionSet) : Bool := s.zoom.isSome

/-- Whether a set holds a pan. -/
def hasPan (s : DirectionSet) : Bool := s.horizontal.isSome || s.vertical.isSome

/-- The pan of a set that holds exactly one pan and nothing else. -/
def singlePan? (s : DirectionSet) : Option Direction :=
  match s.zoom, s.horizontal, s.vertical with
  | none, some h, none => some (.ofHorizontal h)
  | none, none, some v => some (.ofVertical v)
  | _, _, _ => none

end DirectionSet

end Montage
