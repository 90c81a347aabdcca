/-
# Montage.Proofs.Direction.Precedence -- which directions of a list are kept

Directions are asked for one after the other, and where two meet on an axis, the one that
beats the other stays, whichever came first.  So a list leaves what occurs in it and is
beaten by nothing that occurs in it (`DirectionSet.among`), in any order and however often.
What is turned away on the way may be named more than once, but only what is beaten by
something in the list is named, and all of it (`Direction.Outdone`).

Both are carried through a list by what a set and the rest of the list hold together: asking
for one more direction changes neither what is left of that nor what it beats (`insert_spec`).
-/
import Montage.Finding
import Montage.Proofs.Direction

namespace Montage

set_option autoImplicit false

namespace Direction

/-- The direction that beats another one where both are asked for. -/
def beatenBy? : Direction → Option Direction
  | zoomOut => some zoomIn
  | panRight => some panLeft
  | panDown => some panUp
  | zoomIn | panLeft | panUp => none

/-- A direction occurs in a list together with the one that beats it. -/
def Outdone (d : Direction) (ds : List Direction) : Prop :=
  d ∈ ds ∧ ∃ winner ∈ ds, d.beatenBy? = some winner

instance (d : Direction) (ds : List Direction) : Decidable (d.Outdone ds) :=
  inferInstanceAs (Decidable (_ ∧ _))

theorem name_inj {d e : Direction} (same : d.name = e.name) : d = e := by
  revert same
  cases d <;> cases e <;> decide

end Direction

/-- What is said about a direction that lost says which one it was. -/
theorem Finding.lost_inj {d e : Direction}
    (same : (conflictingDirections d).message = (conflictingDirections e).message) : d = e := by
  unfold message at same
  have quoted := (String.append_left_inj _).mp same
  exact Direction.name_inj ((String.append_right_inj _).mp quoted)

namespace DirectionSet

open Direction (Outdone)

/-! ## What a list leaves -/

/-- What an axis holds in the end: its winner if that occurs, or else its loser if that does. -/
def prevailing {α : Type} (name : α → Direction) (winner loser : α) (ds : List Direction) :
    Option α :=
  if name winner ∈ ds then some winner else if name loser ∈ ds then some loser else none

/-- The set that a list of directions leaves, whatever their order. -/
def among (ds : List Direction) : DirectionSet where
  zoom := prevailing .ofZoom .inward .outward ds
  horizontal := prevailing .ofHorizontal .left .right ds
  vertical := prevailing .ofVertical .up .down ds

theorem among_congr {ds es : List Direction} (same : ∀ d, d ∈ ds ↔ d ∈ es) :
    among ds = among es := by
  simp only [among, prevailing, same]

theorem prevailing_winner {α : Type} {name : α → Direction} {winner loser : α}
    {ds : List Direction} (apart : winner ≠ loser) :
    prevailing name winner loser ds = some winner ↔ name winner ∈ ds := by
  unfold prevailing
  split
  · simp [*]
  · split <;> simp [*, apart.symm]

theorem prevailing_loser {α : Type} {name : α → Direction} {winner loser : α}
    {ds : List Direction} (apart : winner ≠ loser) :
    prevailing name winner loser ds = some loser ↔ name loser ∈ ds ∧ name winner ∉ ds := by
  unfold prevailing
  split
  · simp [*]
  · split <;> simp [*]

theorem zoom_mem_iff {s : DirectionSet} {z : Zoom} : .ofZoom z ∈ s.toList ↔ s.zoom = some z := by
  revert s
  apply of_all
  cases z <;> decide

/-- What is left of a list is what nothing in it beats. -/
theorem mem_among {d : Direction} {ds : List Direction} :
    d ∈ (among ds).toList ↔ d ∈ ds ∧ ∀ winner, d.beatenBy? = some winner → winner ∉ ds := by
  cases d with
  | zoomIn =>
      refine (zoom_mem_iff (z := .inward)).trans ((prevailing_winner (by decide)).trans ?_)
      simp [Direction.beatenBy?, Direction.ofZoom]
  | zoomOut =>
      refine (zoom_mem_iff (z := .outward)).trans ((prevailing_loser (by decide)).trans ?_)
      simp [Direction.beatenBy?, Direction.ofZoom]
  | panLeft =>
      refine (horizontal_mem_iff (h := .left)).trans ((prevailing_winner (by decide)).trans ?_)
      simp [Direction.beatenBy?, Direction.ofHorizontal]
  | panRight =>
      refine (horizontal_mem_iff (h := .right)).trans ((prevailing_loser (by decide)).trans ?_)
      simp [Direction.beatenBy?, Direction.ofHorizontal]
  | panUp =>
      refine (vertical_mem_iff (v := .up)).trans ((prevailing_winner (by decide)).trans ?_)
      simp [Direction.beatenBy?, Direction.ofVertical]
  | panDown =>
      refine (vertical_mem_iff (v := .down)).trans ((prevailing_loser (by decide)).trans ?_)
      simp [Direction.beatenBy?, Direction.ofVertical]

/-- A set is its own directions put together. -/
theorem among_toList (s : DirectionSet) : among s.toList = s := by
  revert s
  apply of_all
  decide

/-- Sets with the same directions are the same. -/
theorem eq_of_mem_iff {s t : DirectionSet} (same : ∀ d, d ∈ s.toList ↔ d ∈ t.toList) : s = t := by
  rw [← among_toList s, ← among_toList t]
  exact among_congr same

/-- Whatever beats another direction is beaten by none. -/
theorem beatenBy?_winner {d winner : Direction} (beaten : d.beatenBy? = some winner) :
    winner.beatenBy? = none := by
  cases d <;> cases beaten <;> rfl

/-- What is left of the first directions decides as much as they do themselves. -/
theorem among_append (first later : List Direction) :
    among ((among first).toList ++ later) = among (first ++ later) := by
  refine eq_of_mem_iff fun d => ?_
  rw [mem_among, mem_among]
  cases beaten : d.beatenBy? with
  | none => simp [mem_among, beaten]
  | some winner =>
      have top : ∀ e, winner.beatenBy? ≠ some e := by simp [beatenBy?_winner beaten]
      simp only [List.mem_append, mem_among, beaten, Option.some.injEq]
      grind

/-- A direction is outdone among the first ones already, or later by what is left of them. -/
theorem outdone_append {d : Direction} (first later : List Direction) :
    d.Outdone (first ++ later) ↔
      d.Outdone first ∨ d.Outdone ((among first).toList ++ later) := by
  cases beaten : d.beatenBy? with
  | none => simp [Outdone, beaten]
  | some winner =>
      have top : ∀ e, winner.beatenBy? ≠ some e := by simp [beatenBy?_winner beaten]
      simp only [Outdone, List.mem_append, mem_among, beaten, Option.some.injEq]
      grind

theorem not_outdone (s : DirectionSet) (d : Direction) : ¬ d.Outdone s.toList := by
  revert s
  apply of_all
  cases d <;> decide

/-! ## One direction after the other -/

theorem insert_spec (s : DirectionSet) (d : Direction) :
    (s.insert d).1 = among (s.toList ++ [d])
      ∧ ∀ x, (s.insert d).2 = some x ↔ x.Outdone (s.toList ++ [d]) := by
  constructor
  · revert s
    apply of_all
    cases d <;> decide
  · intro x
    revert s
    apply of_all
    cases d <;> cases x <;> decide

theorem insertAll_cons (s : DirectionSet) (d : Direction) (rest : List Direction) :
    s.insertAll (d :: rest) = (((s.insert d).1.insertAll rest).1,
      (s.insert d).2.toList ++ ((s.insert d).1.insertAll rest).2) := rfl

theorem insertAll_spec (s : DirectionSet) (ds : List Direction) :
    (s.insertAll ds).1 = among (s.toList ++ ds)
      ∧ ∀ x, x ∈ (s.insertAll ds).2 ↔ x.Outdone (s.toList ++ ds) := by
  induction ds generalizing s with
  | nil =>
      rw [List.append_nil]
      refine ⟨(among_toList s).symm, fun x => ?_⟩
      constructor
      · intro member
        cases member
      · exact fun outdone => (s.not_outdone x outdone).elim
  | cons d rest ih =>
      obtain ⟨held, lost⟩ := s.insert_spec d
      obtain ⟨left, others⟩ := ih (s.insert d).1
      have split : s.toList ++ d :: rest = (s.toList ++ [d]) ++ rest := by simp
      rw [insertAll_cons, split]
      constructor
      · rw [left, held, among_append]
      · intro x
        rw [List.mem_append, Option.mem_toList, lost, others, held,
          outdone_append (s.toList ++ [d]) rest]

/-- **The order of directions does not matter.**  A list leaves the winner of an axis where
that occurs, the loser where only that does, and nothing else; those that are named as lost
are the ones that meet what beats them; and what is left is kept as it is. -/
theorem ofList_settles (ds : List Direction) :
    (ofList ds).1 = among ds
      ∧ (∀ es, (∀ d, d ∈ es ↔ d ∈ ds) → (ofList es).1 = (ofList ds).1)
      ∧ (∀ d, (Finding.conflictingDirections d).message
            ∈ ((ofList ds).2.map Finding.conflictingDirections).map Finding.message
          ↔ d.Outdone ds)
      ∧ ∀ s : DirectionSet, ofList s.toList = (s, []) := by
  have settled : ∀ es, (ofList es).1 = among es := fun es => (insertAll_spec empty es).1
  have lost : ∀ es x, x ∈ (ofList es).2 ↔ x.Outdone es := fun es => (insertAll_spec empty es).2
  refine ⟨settled ds, fun es same => ?_, fun d => ?_, fun s => Prod.ext ?_ ?_⟩
  · rw [settled, settled, among_congr same]
  · rw [← lost, List.map_map, List.mem_map]
    constructor
    · rintro ⟨x, member, same⟩
      exact Finding.lost_inj same ▸ member
    · exact fun member => ⟨d, member, rfl⟩
  · exact (settled s.toList).trans (among_toList s)
  · exact List.eq_nil_iff_forall_not_mem.mpr fun x member =>
      s.not_outdone x ((lost s.toList x).mp member)

/-- Both directions of two axes, asked for again and again. -/
theorem tangled_settles :
    (∀ d : Direction, d ∈ [.panLeft, .zoomIn, .panRight, .zoomOut, .panRight]
        ↔ d ∈ [.zoomOut, .panRight, .zoomIn, .panLeft])
      ∧ (ofList [.panLeft, .zoomIn, .panRight, .zoomOut, .panRight]).1
        = (ofList [.zoomOut, .panRight, .zoomIn, .panLeft]).1 := by
  have same : ∀ d : Direction, d ∈ [.panLeft, .zoomIn, .panRight, .zoomOut, .panRight]
      ↔ d ∈ [.zoomOut, .panRight, .zoomIn, .panLeft] := by
    intro d
    cases d <;> decide
  exact ⟨same, (ofList_settles _).2.1 _ same⟩

end DirectionSet

end Montage
