/-
# Montage.Proofs.Json.Settings -- effects and settings are read back

Words out of a vocabulary are read back because no two have one name, and a set of directions is the
set that its own directions leave.  An effect is read back by way of its tag: the tag is found among
the members, whose names it does not share, and what is left are the parameters of that kind.

Effects and settings are kept if their doubles have values and their counts are those of machine
words (`Effect.keeps`, `Settings.keeps`).  Settings out of a text are of that kind
(`Settings.yields`).
-/
import Montage.Proofs.Effect.Shown
import Montage.Proofs.Json.Record

namespace Montage

set_option autoImplicit false

open Json

/-! ## Vocabularies -/

theorem Direction.keeps (d : Direction) : Keeps (required ofJson?) toJson d :=
  keeps_choice (by cases d <;> rfl)

theorem Slide.keeps (s : Slide) : Keeps (required ofJson?) toJson s :=
  keeps_choice (by cases s <;> rfl)

theorem Pulse.keeps (p : Pulse) : Keeps (required ofJson?) toJson p :=
  keeps_choice (by cases p <;> rfl)

theorem EffectKind.lookup_tag (k : EffectKind) : tags.lookup k.tag = some k := by
  cases k <;> rfl

theorem DirectionSet.ofList_toList (s : DirectionSet) : (ofList s.toList).1 = s := by
  revert s
  apply of_all
  decide

theorem DirectionSet.keeps (s : DirectionSet) : Keeps (required ofJson?) toJson s := by
  have directions := keeps_list fun d (_ : d ∈ s.toList) => d.keeps
  refine ⟨directions.storable, ?_⟩
  have back : s.toJson.listOf? Direction.ofJson? = some s.toList := directions.back
  show (s.toJson.listOf? Direction.ofJson?).map _ = some s
  rw [back, Option.map_some, s.ofList_toList]

/-! ## Effects -/

/-- A double that may be absent has a value if it is there. -/
def FiniteOrAbsent (x : Option Float) : Prop := ∀ y ∈ x, y.isFinite = true

theorem finiteOrAbsent_none : FiniteOrAbsent none := nofun

theorem finiteOrAbsent_some {x : Float} (finite : x.isFinite = true) : FiniteOrAbsent (some x) := by
  rintro y ⟨⟩
  exact finite

theorem keeps_double? {x : Option Float} (finite : FiniteOrAbsent x) :
    Keeps (optional Value.double?) ofDouble? x :=
  keeps_optional (fun y given => keeps_double (finite y given)) fun _ => nofun

theorem keeps_text? (s : Option String) : Keeps (optional Value.text?) ofText? s :=
  keeps_optional (fun s _ => keeps_text s) fun _ => nofun

namespace Effect

/-- Every double among the parameters has a value. -/
def Finite : Effect → Prop
  | kenBurns p =>
      p.intensity.isFinite = true ∧ p.startScale.isFinite = true ∧ p.endScale.isFinite = true
  | parallax p => p.intensity.isFinite = true ∧ p.speed.isFinite = true
  | cinemagraph p => p.intensity.isFinite = true ∧ FiniteOrAbsent p.period
  | dollyZoom p =>
      p.intensity.isFinite = true ∧ FiniteOrAbsent p.startView ∧ FiniteOrAbsent p.endView
  | still => True

variable {e : Effect}

/-- The parameters are kept once their kind is known. -/
theorem keeps_parameters (finite : e.Finite) :
    Keeps (required (fun v => ofParameters? v e.kind)) (fun e => .object e.members) e := by
  cases e with
  | kenBurns p =>
      obtain ⟨intensity, start, stop⟩ := finite
      have intensity := keeps_double intensity
      have start := keeps_double start
      have stop := keeps_double stop
      have directions := p.directions.keeps
      refine keeps_record (fun _ => rfl) rfl rfl (by decide) ?_ ?_
      · simp [members, intensity.storable, start.storable, stop.storable, directions.storable]
      · simp [members, intensity.back, start.back, stop.back, directions.back]
  | parallax p =>
      obtain ⟨intensity, speed⟩ := finite
      have intensity := keeps_double intensity
      have speed := keeps_double speed
      have slide := p.slide.keeps
      refine keeps_record (fun _ => rfl) rfl rfl (by decide) ?_ ?_
      · simp [members, intensity.storable, speed.storable, slide.storable]
      · simp [members, intensity.back, speed.back, slide.back]
  | cinemagraph p =>
      obtain ⟨intensity, period⟩ := finite
      have intensity := keeps_double intensity
      have mask := keeps_text p.mask
      have pulse := p.pulse.keeps
      have period := keeps_double? period
      refine keeps_record (fun _ => rfl) rfl rfl (by decide) ?_ ?_
      · simp [members, intensity.storable, mask.storable, pulse.storable, period.storable]
      · simp [members, intensity.back, mask.back, pulse.back, period.back]
  | dollyZoom p =>
      obtain ⟨intensity, start, stop⟩ := finite
      have intensity := keeps_double intensity
      have start := keeps_double? start
      have stop := keeps_double? stop
      have focus := keeps_text p.focus
      refine keeps_record (fun _ => rfl) rfl rfl (by decide) ?_ ?_
      · simp [members, intensity.storable, start.storable, stop.storable, focus.storable]
      · simp [members, intensity.back, start.back, stop.back, focus.back]
  | still => exact ⟨Value.every_object_iff.mpr (List.forall_mem_nil _), rfl⟩

/-- No parameter goes by the name of the tag. -/
theorem members_untagged : ∀ m ∈ e.members, m.1 ∉ ["kind"] := by
  cases e <;> simp [members]

/-- The object of an effect is nested two deep: directions are a list. -/
theorem isReadable_toJson {depth : Nat} (deep : 2 ≤ depth) : e.toJson.isReadable depth = true := by
  obtain ⟨depth, rfl⟩ := Nat.exists_eq_add_of_le' deep
  have directions (s : DirectionSet) : s.toJson.isReadable (depth + 1) = true :=
    isReadable_list fun _ _ => rfl
  refine Value.isReadable_object_iff.mpr ?_
  cases e <;>
    simp [members, Value.isReadable, directions, EffectKind.toJson, Slide.toJson, Pulse.toJson]

/-- **An effect is kept** if its doubles have values. -/
theorem keeps {depth : Nat} (deep : 2 ≤ depth) (finite : e.Finite) :
    Keeps (required (ofJson? depth)) toJson e := by
  have parameters := keeps_parameters finite
  constructor
  · exact Value.every_object_iff.mpr (List.forall_mem_cons.mpr
      ⟨storable_text _, Value.every_object_iff.mp parameters.storable⟩)
  · have tag : uniqueMember ["kind"] (("kind", e.kind.toJson) :: e.members)
        = some (some e.kind.toJson) := by
      exact uniqueMember_eq (by simp) (List.forall_mem_nil _) members_untagged
    have others : (("kind", e.kind.toJson) :: e.members).filter (fun m => m.1 ≠ "kind")
        = e.members := by
      rw [List.filter_cons_of_neg (by simp), List.filter_eq_self]
      exact fun m member => by simpa using members_untagged m member
    have known : EffectKind.tags.lookup e.kind.tag = some e.kind := e.kind.lookup_tag
    have back : ofParameters? (.object e.members) e.kind = some e := parameters.back
    show ofJson? depth e.toJson = some e
    unfold ofJson?
    rw [if_pos (isReadable_toJson deep)]
    show (uniqueMember ["kind"] (("kind", e.kind.toJson) :: e.members)).bind _ = some e
    rw [tag, others]
    show (EffectKind.tags.lookup e.kind.tag).bind (ofParameters? (.object e.members)) = some e
    rw [known]
    exact back

end Effect

/-! ## Settings -/

theorem keeps_count? {most : Nat} (most_ : most ≤ maxLong) {n : Option Nat}
    (fits : ∀ k ∈ n, k ≤ most) : Keeps (optional (Value.count? most)) ofCount? n :=
  keeps_optional (fun k given => keeps_count most_ (fits k given)) fun _ => nofun

theorem yields_double? : Yields (optional Value.double?) FiniteOrAbsent := yields_double.optional

theorem yields_count? {most : Nat} :
    Yields (optional (Value.count? most)) (fun n => ∀ k ∈ n, k ≤ most) :=
  yields_count.optional

theorem Tokens.keeps (ts : Tokens) : Keeps (required ofJson?) toJson ts := by
  cases ts with
  | one s => exact ⟨storable_text s, rfl⟩
  | many ss =>
      have texts := keeps_list fun s (_ : s ∈ ss) => keeps_text s
      refine ⟨texts.storable, ?_⟩
      have back : (ss.map Value.text).mapM Value.text? = some ss := texts.back
      show ((ss.map Value.text).mapM Value.text?).map _ = some (many ss)
      rw [back]
      rfl

namespace Settings

/-- Every double in the settings has a value, and the sides are those of machine words. -/
structure Storable (s : Settings) : Prop where
  intensity : FiniteOrAbsent s.intensity
  startScale : FiniteOrAbsent s.startScale
  endScale : FiniteOrAbsent s.endScale
  speed : FiniteOrAbsent s.speed
  loopDuration : FiniteOrAbsent s.loopDuration
  startView : FiniteOrAbsent s.startView
  endView : FiniteOrAbsent s.endView
  width : ∀ n ∈ s.width, n ≤ maxWord
  height : ∀ n ∈ s.height, n ≤ maxWord
  duration : FiniteOrAbsent s.duration

/-- **Settings are kept** if their doubles have values and their sides are words. -/
theorem keeps {s : Settings} (storable : s.Storable) : Keeps (required ofJson?) toJson s := by
  have label : Keeps (defaulted "" Value.text?) .text s.label := (keeps_text s.label).defaulted
  have intensity := keeps_double? storable.intensity
  have direction : Keeps (optional Tokens.ofJson?) (Value.ofOption Tokens.toJson) s.direction :=
    keeps_optional (fun ts _ => ts.keeps) fun ts => by cases ts <;> nofun
  have startScale := keeps_double? storable.startScale
  have endScale := keeps_double? storable.endScale
  have speed := keeps_double? storable.speed
  have mask := keeps_text? s.mask
  have motion := keeps_text? s.motion
  have loopDuration := keeps_double? storable.loopDuration
  have startView := keeps_double? storable.startView
  have endView := keeps_double? storable.endView
  have focus := keeps_text? s.focus
  have width := keeps_count? maxWord_le_maxLong storable.width
  have height := keeps_count? maxWord_le_maxLong storable.height
  have duration := keeps_double? storable.duration
  refine keeps_record (fun _ => rfl) rfl rfl (by decide) ?_ ?_
  · simp [label.storable, intensity.storable, direction.storable, startScale.storable,
      endScale.storable, speed.storable, mask.storable, motion.storable,
      loopDuration.storable, startView.storable, endView.storable, focus.storable,
      width.storable, height.storable, duration.storable]
  · simp [label.back, intensity.back, direction.back, startScale.back, endScale.back, speed.back,
      mask.back, motion.back, loopDuration.back, startView.back, endView.back, focus.back,
      width.back, height.back, duration.back]

/-- The object of settings is nested two deep: directions may be a list. -/
theorem isReadable_toJson {s : Settings} {depth : Nat} (deep : 2 ≤ depth) :
    s.toJson.isReadable depth = true := by
  obtain ⟨depth, rfl⟩ := Nat.exists_eq_add_of_le' deep
  have direction : (Value.ofOption Tokens.toJson s.direction).isReadable (depth + 1) = true := by
    refine isReadable_ofOption fun ts _ => ?_
    cases ts with
    | one s => rfl
    | many ss => exact isReadable_list fun _ _ => rfl
  refine Value.isReadable_object_iff.mpr ?_
  simp [Value.isReadable, direction]

/-- Settings out of a text can be stored. -/
theorem yields : Yields (required ofJson?) Storable := by
  refine yields_record (fun _ => rfl) fun fields s sound built => ?_
  split at built
  · simp only [List.forall_mem_cons] at sound
    obtain ⟨-, intensity, -, startScale, endScale, speed, -, -, loopDuration, startView, endView, -,
      width, height, duration, -⟩ := sound
    obtain ⟨_, -, built⟩ := Option.bind_eq_some_iff.mp built
    obtain ⟨_, intensity, built⟩ := yields_double?.of_bind intensity built
    obtain ⟨_, -, built⟩ := Option.bind_eq_some_iff.mp built
    obtain ⟨_, startScale, built⟩ := yields_double?.of_bind startScale built
    obtain ⟨_, endScale, built⟩ := yields_double?.of_bind endScale built
    obtain ⟨_, speed, built⟩ := yields_double?.of_bind speed built
    obtain ⟨_, -, built⟩ := Option.bind_eq_some_iff.mp built
    obtain ⟨_, -, built⟩ := Option.bind_eq_some_iff.mp built
    obtain ⟨_, loopDuration, built⟩ := yields_double?.of_bind loopDuration built
    obtain ⟨_, startView, built⟩ := yields_double?.of_bind startView built
    obtain ⟨_, endView, built⟩ := yields_double?.of_bind endView built
    obtain ⟨_, -, built⟩ := Option.bind_eq_some_iff.mp built
    obtain ⟨_, width, built⟩ := yields_count?.of_bind width built
    obtain ⟨_, height, built⟩ := yields_count?.of_bind height built
    obtain ⟨_, duration, built⟩ := yields_double?.of_bind duration built
    obtain rfl := Option.some.inj built
    exact ⟨intensity, startScale, endScale, speed, loopDuration, startView, endView, width, height,
      duration⟩
  · cases built

end Settings

end Montage
