/-
# Montage.Proofs.Json.Record -- fields are read back from what is written for them

A field is read from the value that is given for it, or from none.  It `Keeps` something if what
is written for that can be stored and is read as the same.  Not all that a type has room for is
kept: a double without a value is not, and neither is a count that is too large.  But a text
states no such thing, so reading a text `Yields` only what is kept.

A record is read from its fields, so it keeps what all of its fields keep (`keeps_record`), and what
it yields has been yielded by them (`yields_record`).  Its members are written under the first of
their names, and each of them is found again (`fields_object`).
-/
import Montage.Json.Settings
import Montage.Proofs.Json.Sound

namespace Montage.Json

set_option autoImplicit false

section

variable {α : Type}

/-- What is written for a field can be stored, and is read back. -/
structure Keeps (read : Option Value → Option α) (write : α → Value) (a : α) : Prop where
  storable : (write a).Storable
  back : read (some (write a)) = some a

/-- Every number in what is given for a field has a value. -/
def FieldSound (field : Option Value) : Prop := ∀ v ∈ field, v.Sound

theorem fieldSound_some {v : Value} (sound : v.Sound) : FieldSound (some v) := by
  intro w given
  obtain rfl := Option.some.inj given
  exact sound

/-- Whatever a field is read as out of a text has a property. -/
def Yields (read : Option Value → Option α) (P : α → Prop) : Prop :=
  ∀ ⦃field a⦄, FieldSound field → read field = some a → P a

variable {read : Value → Option α} {write : α → Value} {P : α → Prop} {a : α}

theorem yields_required (yields : ∀ v a, v.Sound → read v = some a → P a) :
    Yields (required read) P := by
  intro field a sound known
  obtain ⟨v, rfl, known⟩ := Option.bind_eq_some_iff.mp known
  exact yields v a (sound v rfl) known

/-- A field that is read takes part in what is read of it and the others. -/
theorem Yields.of_bind {β : Type} {read : Option Value → Option α} {k : α → Option β}
    {field : Option Value} {b : β} (yields : Yields read P) (sound : FieldSound field)
    (known : read field >>= k = some b) : ∃ a, P a ∧ k a = some b := by
  obtain ⟨a, first, rest⟩ := Option.bind_eq_some_iff.mp known
  exact ⟨a, yields sound first, rest⟩

/-! ## Fields that may be absent -/

theorem storable_text (s : String) : (Value.text s).Storable := Value.storable_leaf trivial trivial

theorem keeps_none : Keeps (optional read) (Value.ofOption write) none :=
  ⟨Value.storable_leaf trivial trivial, rfl⟩

/-- Nothing but `null` is read as nothing. -/
theorem optional_some {v : Value} (apart : v ≠ .null) :
    optional read (some v) = (read v).map some := by
  unfold optional
  split
  · contradiction
  · rename_i same
    exact absurd (Option.some.inj same) apart
  · rename_i same
    rw [Option.some.inj same]

theorem Keeps.optional (keeps : Keeps (required read) write a) (apart : write a ≠ .null) :
    Keeps (optional read) (Value.ofOption write) (some a) := by
  refine ⟨keeps.storable, ?_⟩
  have back : read (write a) = some a := keeps.back
  show Json.optional read (some (write a)) = some (some a)
  rw [optional_some apart, back]
  rfl

theorem keeps_optional {a : Option α} (keeps : ∀ x ∈ a, Keeps (required read) write x)
    (apart : ∀ x, write x ≠ .null) : Keeps (optional read) (Value.ofOption write) a := by
  cases a with
  | none => exact keeps_none
  | some x => exact (keeps x rfl).optional (apart x)

theorem Yields.optional (yields : Yields (required read) P) :
    Yields (optional read) (fun a => ∀ x ∈ a, P x) := by
  intro field a sound known x given
  obtain rfl : a = some x := given
  refine yields sound ?_
  unfold Json.optional at known
  split at known
  · cases known
  · cases known
  · obtain ⟨b, first, same⟩ := Option.map_eq_some_iff.mp known
    exact Option.some.inj same ▸ first

theorem Keeps.defaulted {default : α} (keeps : Keeps (required read) write a) :
    Keeps (defaulted default read) write a :=
  ⟨keeps.storable, keeps.back⟩

theorem Yields.defaulted {default : α} (yields : Yields (required read) P)
    (standard : P default) : Yields (defaulted default read) P := by
  intro field a sound known
  cases field with
  | none =>
      obtain rfl := Option.some.inj known
      exact standard
  | some v => exact yields sound known

/-! ## Numbers, texts and names -/

theorem keeps_double {x : Float} (finite : x.isFinite = true) :
    Keeps (required Value.double?) .real x :=
  ⟨Value.storable_leaf trivial finite, rfl⟩

theorem hasNumber_of_sound {v : Value} (sound : v.Sound) (leaf : v.IsLeaf) : v.HasNumber :=
  (Value.every_leaf_iff leaf).mp sound

theorem yields_double : Yields (required Value.double?) (fun x => x.isFinite = true) := by
  refine yields_required fun v x sound known => ?_
  cases v with
  | nat n =>
      obtain rfl := Option.some.inj known
      exact hasNumber_of_sound sound trivial
  | real y =>
      obtain rfl := Option.some.inj known
      exact hasNumber_of_sound sound trivial
  | _ => cases known

theorem keeps_text (s : String) : Keeps (required Value.text?) .text s :=
  ⟨storable_text s, rfl⟩

theorem keeps_count {most n : Nat} (most_ : most ≤ maxLong) (fits : n ≤ most) :
    Keeps (required (Value.count? most)) .nat n :=
  ⟨Value.storable_leaf trivial (fits.trans most_), if_pos fits⟩

theorem yields_count {most : Nat} : Yields (required (Value.count? most)) (fun n => n ≤ most) := by
  refine yields_required fun v n _ known => ?_
  cases v with
  | nat m =>
      obtain ⟨fits, same⟩ := Option.ite_none_right_eq_some.mp known
      exact Option.some.inj same ▸ fits
  | _ => cases known

theorem maxWord_le_maxLong : maxWord ≤ maxLong := by decide

theorem keeps_choice {vocabulary : List (String × α)} {name : α → String}
    (listed : vocabulary.lookup (name a) = some a) :
    Keeps (required (Value.choice? vocabulary)) (fun a => .text (name a)) a :=
  ⟨storable_text _, listed⟩

/-! ## Lists -/

theorem keeps_list {as : List α} (each : ∀ a ∈ as, Keeps (required read) write a) :
    Keeps (required (Value.listOf? read)) (fun as => .list (as.map write)) as := by
  constructor
  · refine Value.every_list_iff.mpr fun v member => ?_
    obtain ⟨a, there, rfl⟩ := List.mem_map.mp member
    exact (each a there).storable
  · refine mapM_eq_some_iff.mpr (List.forall₂_map_left_iff.mpr (List.forall₂_same.mpr ?_))
    exact fun a member => (each a member).back

theorem yields_list (yields : Yields (required read) P) :
    Yields (required (Value.listOf? read)) (fun as => ∀ a ∈ as, P a) := by
  refine yields_required fun v as sound known a member => ?_
  cases v with
  | list items =>
      obtain ⟨v, given, known⟩ := exists_of_mapM known a member
      exact yields (fieldSound_some (Value.every_list_iff.mp sound v given)) known
  | _ => cases known

end

/-! ## Depth -/

section

variable {depth : Nat}

/-- What may be absent is nested as deep as what it is. -/
theorem isReadable_ofOption {α : Type} {write : α → Value} {a : Option α}
    (each : ∀ x ∈ a, (write x).isReadable depth = true) :
    (Value.ofOption write a).isReadable depth = true := by
  cases a with
  | none => rfl
  | some x => exact each x rfl

theorem isReadable_list {α : Type} {write : α → Value} {as : List α}
    (each : ∀ a ∈ as, (write a).isReadable depth = true) :
    (Value.list (as.map write)).isReadable (depth + 1) = true :=
  Value.isReadable_list_iff.mpr (List.forall_mem_map.mpr each)

@[simp]
theorem isReadable_ofDouble? (x : Option Float) : (ofDouble? x).isReadable depth = true :=
  isReadable_ofOption fun _ _ => rfl

@[simp]
theorem isReadable_ofText? (s : Option String) : (ofText? s).isReadable depth = true :=
  isReadable_ofOption fun _ _ => rfl

@[simp]
theorem isReadable_ofCount? (n : Option Nat) : (ofCount? n).isReadable depth = true :=
  isReadable_ofOption fun _ _ => rfl

end

/-! ## Records -/

/-- A member whose name stands among the given ones, and no other's does. -/
theorem uniqueMember_eq {names : List String} {before after : List (String × Value)}
    {m : String × Value} (own : m.1 ∈ names) (left : ∀ x ∈ before, x.1 ∉ names)
    (right : ∀ x ∈ after, x.1 ∉ names) :
    uniqueMember names (before ++ m :: after) = some (some m.2) := by
  have skipped {members : List (String × Value)} (apart : ∀ x ∈ members, x.1 ∉ names) :
      members.filter (fun m => names.contains m.1) = [] :=
    List.filter_eq_nil_iff.mpr fun x member => by simpa using apart x member
  have found : (before ++ m :: after).filter (fun m => names.contains m.1) = [m] := by
    rw [List.filter_append, skipped left, List.filter_cons_of_pos (by simpa using own),
      skipped right]
    rfl
  rw [uniqueMember, found]

/-- **Members under the first of their names are found again**, if no two fields share a name. -/
theorem fields_object {names : List (List String)} {members : List (String × Value)}
    {complete : Bool} (named : names.map List.head? = members.map (fun m => some m.1))
    (apart : names.flatten.Nodup) :
    (Value.object members).fields names complete = some (members.map (fun m => some m.2)) := by
  -- The members before the ones that are still to be found are those that no name left refers to.
  suffices ∀ before : List (String × Value), (∀ x ∈ before, x.1 ∉ names.flatten) →
      List.Forall₂ (fun ns f => uniqueMember ns (before ++ members) = some f) names
        (members.map (fun m => some m.2)) from
    mapM_eq_some_iff.mpr (this [] (List.forall_mem_nil _))
  induction members generalizing names with
  | nil =>
      obtain rfl := List.map_eq_nil_iff.mp named
      exact fun _ _ => .nil
  | cons m rest ih =>
      intro before outside
      obtain ⟨ns, others, rfl, first, later⟩ := List.map_eq_cons_iff.mp named
      have own : m.1 ∈ ns := List.mem_of_head? first
      rw [List.flatten_cons, List.nodup_append'] at apart
      obtain ⟨-, apart, disjoint⟩ := apart
      have headed : ∀ x ∈ rest, x.1 ∈ others.flatten := by
        intro x member
        have listed : some x.1 ∈ others.map List.head? := later ▸ List.mem_map_of_mem member
        obtain ⟨ms, given, head⟩ := List.mem_map.mp listed
        exact List.mem_flatten.mpr ⟨ms, given, List.mem_of_head? head⟩
      refine .cons (uniqueMember_eq own (fun x member => ?_) (fun x member => ?_)) ?_
      · exact fun within => outside x member (List.mem_append_left _ within)
      · exact fun within => disjoint within (headed x member)
      · have tail := ih later apart (before ++ [m]) fun x member => ?_
        · simpa using tail
        · rcases List.mem_append.mp member with member | member
          · exact fun within => outside x member (List.mem_append_right _ within)
          · obtain rfl := List.mem_singleton.mp member
            exact fun within => disjoint own within

/-- What is found for the fields of a sound record is sound. -/
theorem sound_fields {v : Value} {names : List (List String)} {complete : Bool}
    {fields : List (Option Value)} (sound : v.Sound)
    (found : v.fields names complete = some fields) : ∀ f ∈ fields, FieldSound f := by
  cases v with
  | object members =>
      intro f member v given
      obtain ⟨ns, -, known⟩ := exists_of_mapM found f member
      unfold uniqueMember at known
      split at known
      · obtain rfl := Option.some.inj known
        cases given
      · rename_i m only
        obtain rfl := Option.some.inj known
        obtain rfl := Option.some.inj given
        have listed : m ∈ members := List.mem_of_mem_filter (only ▸ List.mem_singleton_self m)
        exact Value.every_object_iff.mp sound m listed
      · cases known
  | list items =>
      simp only [Value.fields] at found
      split at found
      · cases found
      · split at found
        · cases found
        · obtain rfl := Option.some.inj found
          intro f member v given
          rcases List.mem_append.mp member with member | member
          · obtain ⟨w, listed, rfl⟩ := List.mem_map.mp member
            obtain rfl := Option.some.inj given
            exact Value.every_list_iff.mp sound w listed
          · rw [List.eq_of_mem_replicate member] at given
            cases given
  | _ => cases found

section

variable {α : Type} {read : Value → Option α} {names : List (List String)} {complete : Bool}
  {build : List (Option Value) → Option α}

/-- **A record keeps what its fields keep.** -/
theorem keeps_record {write : α → Value} {a : α} {members : List (String × Value)}
    (reads : ∀ v, read v = (v.fields names complete).bind build)
    (writes : write a = .object members)
    (named : names.map List.head? = members.map (fun m => some m.1)) (apart : names.flatten.Nodup)
    (storable : ∀ m ∈ members, m.2.Storable)
    (built : build (members.map (fun m => some m.2)) = some a) : Keeps (required read) write a := by
  constructor
  · rw [writes]
    exact Value.every_object_iff.mpr storable
  · show read (write a) = some a
    rw [reads, writes, fields_object named apart]
    exact built

/-- What is read of a record has been read of its fields. -/
theorem yields_record {P : α → Prop} (reads : ∀ v, read v = (v.fields names complete).bind build)
    (yields : ∀ fields a, (∀ f ∈ fields, FieldSound f) → build fields = some a → P a) :
    Yields (required read) P := by
  refine yields_required fun v a sound known => ?_
  rw [reads] at known
  obtain ⟨fields, found, built⟩ := Option.bind_eq_some_iff.mp known
  exact yields fields a (sound_fields sound found) built

end

end Montage.Json
