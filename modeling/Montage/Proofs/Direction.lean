/-
# Montage.Proofs.Direction -- the directions that a set holds

A set holds a direction on an axis, or none.  So there are few sets, and what holds of every set
is decided by looking at each of them: a direction is a member if its axis holds it, and a pan is
single if it is the only member.
-/
import Montage.Effect

namespace Montage

set_option autoImplicit false

namespace DirectionSet

/-- Every set of directions. -/
def all : List DirectionSet :=
  [none, some .inward, some .outward].flatMap fun zoom =>
    [none, some .left, some .right].flatMap fun horizontal =>
      [none, some .up, some .down].map fun vertical => ⟨zoom, horizontal, vertical⟩

theorem mem_all (s : DirectionSet) : s ∈ all := by
  obtain ⟨zoom, horizontal, vertical⟩ := s
  rcases zoom with _ | ⟨_ | _⟩ <;> rcases horizontal with _ | ⟨_ | _⟩ <;>
    rcases vertical with _ | ⟨_ | _⟩ <;> decide

theorem of_all {P : DirectionSet → Prop} (each : ∀ s ∈ all, P s) (s : DirectionSet) : P s :=
  each s (mem_all s)

variable {s : DirectionSet} {pan : Direction}

theorem horizontal_mem_iff {h : Horizontal} :
    .ofHorizontal h ∈ s.toList ↔ s.horizontal = some h := by
  revert s
  apply of_all
  cases h <;> decide

theorem vertical_mem_iff {v : Vertical} : .ofVertical v ∈ s.toList ↔ s.vertical = some v := by
  revert s
  apply of_all
  cases v <;> decide

/-- A single pan is a pan, and the only direction of its set. -/
theorem singlePan?_eq_some_iff : s.singlePan? = some pan ↔ s.toList = [pan] ∧ pan.isPan = true := by
  revert s
  apply of_all
  cases pan <;> decide

theorem isPan_of_singlePan? (alone : s.singlePan? = some pan) : pan.isPan = true :=
  (singlePan?_eq_some_iff.mp alone).2

theorem isEmpty_iff : s.isEmpty = true ↔ s.toList = [] := by
  revert s
  apply of_all
  decide

theorem hasZoom_iff : s.hasZoom = true ↔ ∃ zoom ∈ s.toList, zoom.isZoom = true := by
  revert s
  apply of_all
  decide

theorem hasPan_iff : s.hasPan = true ↔ ∃ pan ∈ s.toList, pan.isPan = true := by
  revert s
  apply of_all
  decide

end DirectionSet

theorem Slide.isPan_pan (s : Slide) : s.pan.isPan = true := by
  cases s <;> rfl

end Montage
