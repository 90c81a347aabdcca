/-
# Montage.Proofs.Json.Tokens -- a value is put together from its tokens

What is proved of values is proved once for the leaves and carried through the containers
(`Value.nested`), and so is what is asked of them: `Value.Every` asks something of every leaf.
A value is `Sound` if its numbers have values as doubles, as they do in whatever a text states, and
it is `Printable` if nothing in it is unreadable besides.  It is `Storable` if its counts are no
longer than a long word, too.

The tokens of a value, those of its items and members separated by commas, are put together to the
value again (`Value.run_tokens`).
-/
import Mathlib.Tactic
import Montage.Json.Parser

namespace Montage.Json

set_option autoImplicit false

section

variable {α β : Type} {f : α → Option β} {xs : List α} {ys : List β}

/-- A traversal succeeds if every step of it does. -/
theorem mapM_eq_some_iff : xs.mapM f = some ys ↔ List.Forall₂ (fun x y => f x = some y) xs ys := by
  induction xs generalizing ys with
  | nil =>
      rw [List.mapM_nil, List.forall₂_nil_left_iff]
      exact Option.some_inj.trans eq_comm
  | cons x xs ih =>
      rw [List.mapM_cons, List.forall₂_cons_left_iff]
      constructor
      · intro made
        obtain ⟨y, first, made⟩ := Option.bind_eq_some_iff.mp made
        obtain ⟨rest, later, made⟩ := Option.bind_eq_some_iff.mp made
        exact ⟨y, rest, first, ih.mp later, (Option.some.inj made).symm⟩
      · rintro ⟨y, rest, first, later, rfl⟩
        rw [first, ih.mpr later]
        rfl

/-- Whatever a traversal results in comes from somewhere. -/
theorem exists_of_mapM (made : xs.mapM f = some ys) : ∀ y ∈ ys, ∃ x ∈ xs, f x = some y := by
  have steps := mapM_eq_some_iff.mp made
  clear made
  induction steps with
  | nil => exact List.forall_mem_nil _
  | cons step _ ih =>
      refine List.forall_mem_cons.mpr ⟨⟨_, List.mem_cons_self, step⟩, fun y member => ?_⟩
      obtain ⟨x, there, known⟩ := ih y member
      exact ⟨x, List.mem_cons_of_mem _ there, known⟩

end

/-! ## Values that can be printed -/

namespace Value

/-- A value that contains no others. -/
def IsLeaf : Value → Prop
  | .list _ | .object _ => False
  | _ => True

/-- What holds of leaves, and of containers if it holds of their contents, holds of all values. -/
@[elab_as_elim]
theorem nested {P : Value → Prop} (leaf : ∀ v, v.IsLeaf → P v)
    (list : ∀ items : List Value, (∀ v ∈ items, P v) → P (.list items))
    (object : ∀ members : List (String × Value), (∀ m ∈ members, P m.2) → P (.object members)) :
    (v : Value) → P v
  | .list items => list items fun v _ => nested leaf list object v
  | .object members => object members fun m _ => nested leaf list object m.2
  | .null => leaf _ trivial
  | .bool _ => leaf _ trivial
  | .nat _ => leaf _ trivial
  | .real _ => leaf _ trivial
  | .text _ => leaf _ trivial
  | .unreadable => leaf _ trivial
  decreasing_by
    · have := List.sizeOf_lt_of_mem ‹v ∈ items›
      simp only [Value.list.sizeOf_spec]
      omega
    · have := List.sizeOf_lt_of_mem ‹m ∈ members›
      obtain ⟨k, v⟩ := m
      simp only [Prod.mk.sizeOf_spec, Value.object.sizeOf_spec] at *
      omega

end Value

mutual

/-- Whether a property holds of every leaf of a value. -/
def Value.Every (p : Value → Prop) : Value → Prop
  | .list items => everyItem p items
  | .object members => everyMember p members
  | v => p v

/-- `Value.Every` for the items of a list. -/
def everyItem (p : Value → Prop) : List Value → Prop
  | [] => True
  | v :: rest => v.Every p ∧ everyItem p rest

/-- `Value.Every` for the members of an object. -/
def everyMember (p : Value → Prop) : List (String × Value) → Prop
  | [] => True
  | m :: rest => m.2.Every p ∧ everyMember p rest

end

namespace Value

section

variable {p : Value → Prop}

theorem every_list_iff {items : List Value} :
    (Value.list items).Every p ↔ ∀ v ∈ items, v.Every p := by
  rw [Every]
  induction items with
  | nil => simp [everyItem]
  | cons v rest ih => simp [everyItem, ih]

theorem every_object_iff {members : List (String × Value)} :
    (Value.object members).Every p ↔ ∀ m ∈ members, m.2.Every p := by
  rw [Every]
  induction members with
  | nil => simp [everyMember]
  | cons m rest ih => simp [everyMember, ih]

theorem every_leaf_iff {v : Value} (leaf : v.IsLeaf) : v.Every p ↔ p v := by
  cases v <;> first | exact absurd leaf id | rw [Every] <;> simp

theorem every_imp {q : Value → Prop} (implies : ∀ v, v.IsLeaf → p v → q v) {v : Value}
    (every : v.Every p) : v.Every q := by
  induction v using nested with
  | leaf v leaf => exact (every_leaf_iff leaf).mpr (implies v leaf ((every_leaf_iff leaf).mp every))
  | list items ih =>
      have each := every_list_iff.mp every
      exact every_list_iff.mpr fun v member => ih v member (each v member)
  | object members ih =>
      have each := every_object_iff.mp every
      exact every_object_iff.mpr fun m member => ih m member (each m member)

end

/-! The containers of a value, level by level. -/

section

variable {depth : Nat}

theorem isReadable_list_iff {items : List Value} :
    (list items).isReadable (depth + 1) = true ↔ ∀ v ∈ items, v.isReadable depth = true := by
  rw [isReadable]
  induction items with
  | nil => simp [readableItems]
  | cons v rest ih => simp [readableItems, ih]

theorem isReadable_object_iff {members : List (String × Value)} :
    (object members).isReadable (depth + 1) = true
      ↔ ∀ m ∈ members, m.2.isReadable depth = true := by
  rw [isReadable]
  induction members with
  | nil => simp [readableMembers]
  | cons m rest ih => simp [readableMembers, ih]

end

/-- A number that has a value as a double. -/
def HasNumber : Value → Prop
  | .nat n => (Float.ofNat n).isFinite = true
  | .real x => x.isFinite = true
  | _ => True

/-- Every number has a value. -/
def Sound (v : Value) : Prop := v.Every HasNumber

/-- Every number has a value, and nothing is unreadable. -/
def Printable (v : Value) : Prop := v.Every (fun v => v.HasNumber ∧ v ≠ .unreadable)

/-- What may be stored in place of a leaf: a double that has a value, a count that a long word
holds, or anything else that can be read. -/
def IsStorable : Value → Prop
  | .real x => x.isFinite = true
  | .nat n => n ≤ maxLong
  | .unreadable => False
  | _ => True

/-- Every leaf may be stored. -/
def Storable (v : Value) : Prop := v.Every IsStorable

theorem printable_leaf {v : Value} (leaf : v.IsLeaf) (number : v.HasNumber)
    (readable : v ≠ .unreadable) : v.Printable :=
  (every_leaf_iff leaf).mpr ⟨number, readable⟩

theorem storable_leaf {v : Value} (leaf : v.IsLeaf) (fits : v.IsStorable) : v.Storable :=
  (every_leaf_iff leaf).mpr fits

end Value

/-! ## The tokens of a value -/

mutual

/-- The tokens that a value is written with. -/
def Value.tokens : Value → List Token
  | .list items => .openList :: (itemTokens items ++ [.closeList])
  | .object members => .openObject :: (memberTokens members ++ [.closeObject])
  | .text s => [.text (some s)]
  | v => [.scalar v]

/-- The items of a list, separated by commas. -/
def itemTokens : List Value → List Token
  | [] => []
  | [v] => v.tokens
  | v :: rest => v.tokens ++ .comma :: itemTokens rest

/-- The members of an object, separated by commas. -/
def memberTokens : List (String × Value) → List Token
  | [] => []
  | [(k, v)] => .text (some k) :: .colon :: v.tokens
  | (k, v) :: rest => .text (some k) :: .colon :: (v.tokens ++ .comma :: memberTokens rest)

end

theorem itemTokens_cons (v w : Value) (rest : List Value) :
    itemTokens (v :: w :: rest) = v.tokens ++ .comma :: itemTokens (w :: rest) := by
  simp [itemTokens]

theorem memberTokens_cons (k : String) (v : Value) (m : String × Value)
    (rest : List (String × Value)) :
    memberTokens ((k, v) :: m :: rest)
      = .text (some k) :: .colon :: (v.tokens ++ .comma :: memberTokens (m :: rest)) := by
  simp [memberTokens]

/-- An object all of whose keys can be read. -/
theorem ofMembers_named (members : List (String × Value)) :
    Value.ofMembers (members.map (fun m => (some m.1, m.2))) = .object members := by
  have named : (members.map (fun m => (some m.1, m.2))).mapM
      (fun m : Option String × Value => m.1.map (fun k => (k, m.2))) = some members :=
    mapM_eq_some_iff.mpr (List.forall₂_map_left_iff.mpr (List.forall₂_same.mpr fun _ _ => rfl))
  rw [Value.ofMembers, named]

section

variable {items : List Value} {members : List (String × Value)}

/-- The items of a list, each of which is put together, are put together to the list. -/
theorem run_itemTokens
    (each : ∀ v ∈ items, ∀ b stack, Parser.run ⟨.value b, stack⟩ v.tokens = some ⟨.after v, stack⟩)
    (some_ : items ≠ []) (b : Bool) (done : List Value) (stack : List Frame) :
    Parser.run ⟨.value b, .items done :: stack⟩ (itemTokens items ++ [.closeList])
      = some ⟨.after (.list (done.reverse ++ items)), stack⟩ := by
  induction items generalizing b done with
  | nil => exact absurd rfl some_
  | cons v rest ih =>
      have first := each v List.mem_cons_self
      cases rest with
      | nil =>
          rw [itemTokens, Parser.run_append, first]
          simp [Parser.run, Parser.step]
      | cons w rest =>
          have others := ih (fun v member => each v (List.mem_cons_of_mem _ member))
            (List.cons_ne_nil _ _) false (v :: done)
          rw [itemTokens_cons, List.append_assoc, Parser.run_append, first]
          exact others.trans (by simp)

/-- The members of an object, each of which is put together, are put together to the object. -/
theorem run_memberTokens
    (each : ∀ m ∈ members, ∀ b stack,
      Parser.run ⟨.value b, stack⟩ m.2.tokens = some ⟨.after m.2, stack⟩)
    (some_ : members ≠ []) (b : Bool) (done : List (String × Value)) (stack : List Frame) :
    Parser.run ⟨.key b (done.map (fun m => (some m.1, m.2))), stack⟩
        (memberTokens members ++ [.closeObject])
      = some ⟨.after (.object (done.reverse ++ members)), stack⟩ := by
  induction members generalizing b done with
  | nil => exact absurd rfl some_
  | cons m rest ih =>
      obtain ⟨k, v⟩ := m
      have first := each (k, v) List.mem_cons_self
      cases rest with
      | nil =>
          rw [memberTokens]
          show Parser.run ⟨.value false, .members _ (some k) :: stack⟩ (v.tokens ++ _) = _
          rw [Parser.run_append, first]
          have named := ofMembers_named (done.reverse ++ [(k, v)])
          simp only [List.map_append, List.map_reverse, List.map_cons, List.map_nil] at named
          simp [Parser.run, Parser.step, named]
      | cons w rest =>
          have others := ih (fun m member => each m (List.mem_cons_of_mem _ member))
            (List.cons_ne_nil _ _) false ((k, v) :: done)
          rw [memberTokens_cons]
          show Parser.run ⟨.value false, .members _ (some k) :: stack⟩
            ((v.tokens ++ Token.comma :: _) ++ _) = _
          rw [List.append_assoc, Parser.run_append, first]
          exact others.trans (by simp)

end

/-- **The tokens of a value are put together to the value.** -/
theorem Value.run_tokens (v : Value) (b : Bool) (stack : List Frame) :
    Parser.run ⟨.value b, stack⟩ v.tokens = some ⟨.after v, stack⟩ := by
  induction v using Value.nested generalizing b stack with
  | leaf v leaf => cases v <;> first | exact absurd leaf id | simp [tokens, Parser.run, Parser.step]
  | list items ih =>
      rw [tokens]
      cases items with
      | nil => rfl
      | cons v rest => exact run_itemTokens ih (List.cons_ne_nil _ _) true [] stack
  | object members ih =>
      rw [tokens]
      cases members with
      | nil => rfl
      | cons m rest => exact run_memberTokens ih (List.cons_ne_nil _ _) true [] stack

end Montage.Json
