/-
# Montage.Proofs.Json.Timeline -- what is stored can be read again

Whatever is kept is kept through a text, by every codec that obeys the laws: it can be stored, and
it is nested no deeper than a reader goes, so the text states what was written, and that is
read back (`Keeps.stores`).

What is kept are timelines and jobs whose doubles have values and whose counts are those of machine
words.  A job that was read out of a text is of that kind, however the text put it (`Job.yields`).
-/
import Montage.Json.Timeline
import Montage.Proofs.Json.Codec
import Montage.Proofs.Json.Settings

namespace Montage

set_option autoImplicit false

open Json

/-! ## Timelines -/

theorem TransitionKind.keeps (k : TransitionKind) : Keeps (required ofJson?) toJson k :=
  keeps_choice (by cases k <;> rfl)

theorem Transition.keeps {t : Transition Float} (finite : t.duration.isFinite = true) :
    Keeps (required ofJson?) toJson t := by
  have kind := t.kind.keeps
  have duration := keeps_double finite
  refine keeps_record (fun _ => rfl) rfl rfl (by decide) ?_ ?_
  · simp [kind.storable, duration.storable]
  · simp [kind.back, duration.back]

/-- Every double in a segment has a value. -/
structure Segment.Finite (s : Segment Float) : Prop where
  effect : ∀ e ∈ s.effect, e.Finite
  duration : s.duration.isFinite = true
  transition : ∀ t ∈ s.transition, t.duration.isFinite = true

theorem Segment.keeps {s : Segment Float} {depth : Nat} (deep : 3 ≤ depth) (finite : s.Finite) :
    Keeps (required (ofJson? depth)) toJson s := by
  have effect : Keeps (optional (Effect.ofJson? (depth - 1))) (Value.ofOption Effect.toJson)
      s.effect :=
    keeps_optional (fun e given => Effect.keeps (by omega) (finite.effect e given)) fun _ => nofun
  have duration := keeps_double finite.duration
  have image := keeps_text? s.image
  have transition : Keeps (optional Transition.ofJson?) (Value.ofOption Transition.toJson)
      s.transition :=
    keeps_optional (fun t given => Transition.keeps (finite.transition t given)) fun _ => nofun
  refine keeps_record (fun _ => rfl) rfl rfl (by decide) ?_ ?_
  · simp [effect.storable, duration.storable, image.storable, transition.storable]
  · simp [effect.back, duration.back, image.back, transition.back]

/-- The object of a segment is nested as deep as that of its effect, and once more. -/
theorem Segment.isReadable_toJson {s : Segment Float} {depth : Nat} (deep : 3 ≤ depth) :
    s.toJson.isReadable depth = true := by
  obtain ⟨depth, rfl⟩ := Nat.exists_eq_add_of_le' deep
  have effect : (Value.ofOption Effect.toJson s.effect).isReadable (depth + 2) = true :=
    isReadable_ofOption fun e _ => Effect.isReadable_toJson (by omega)
  have transition : (Value.ofOption Transition.toJson s.transition).isReadable (depth + 2) = true :=
    isReadable_ofOption fun t _ => rfl
  refine Value.isReadable_object_iff.mpr ?_
  simp [Value.isReadable, effect, transition]

/-- Every double in a timeline has a value, and every count fits into a word. -/
structure Timeline.Storable (t : Timeline Float) : Prop where
  segments : ∀ s ∈ t.segments, s.Finite
  rate : t.rate ≤ maxWord
  width : t.canvas.width ≤ maxWord
  height : t.canvas.height ≤ maxWord
  target : FiniteOrAbsent t.target

theorem Canvas.keeps {c : Canvas} (width : c.width ≤ maxWord) (height : c.height ≤ maxWord) :
    Keeps (required ofJson?) toJson c := by
  have width := keeps_count maxWord_le_maxLong width
  have height := keeps_count maxWord_le_maxLong height
  refine keeps_record (fun _ => rfl) rfl rfl (by decide) ?_ ?_
  · simp [width.storable, height.storable]
  · simp [width.back, height.back]

/-- **A timeline is kept** if its doubles have values and its counts are words. -/
theorem Timeline.keeps {t : Timeline Float} (storable : t.Storable) :
    Keeps (required ofJson?) toJson t := by
  have deep : 3 ≤ maxDepth - 2 := by decide
  have segments := keeps_list fun s given => Segment.keeps deep (storable.segments s given)
  have rate : Keeps (required rateOfJson?) .nat t.rate :=
    keeps_count maxWord_le_maxLong storable.rate
  have canvas := Canvas.keeps storable.width storable.height
  have image := keeps_text? t.image
  have target := keeps_double? storable.target
  refine keeps_record (fun _ => rfl) rfl rfl (by decide) ?_ ?_
  · simp [segments.storable, rate.storable, canvas.storable, image.storable, target.storable]
  · simp [segments.back, rate.back, canvas.back, image.back, target.back]

theorem Timeline.isReadable_toJson (t : Timeline Float) : t.toJson.isReadable maxDepth = true := by
  have segments : (Value.list (t.segments.map Segment.toJson)).isReadable (125 + 1) = true :=
    isReadable_list fun s _ => s.isReadable_toJson (by decide)
  have rate : (Value.nat t.rate).isReadable 126 = true := rfl
  have canvas : t.canvas.toJson.isReadable 126 = true := rfl
  refine Value.isReadable_object_iff.mpr ?_
  simp [segments, rate, canvas]

/-! ## Jobs -/

namespace JobFrame

/-- Every double in a frame has a value, and every count fits into a word. -/
structure Storable (f : JobFrame) : Prop where
  id : ∀ n ∈ f.id, n ≤ maxLong
  duration : f.duration.isFinite = true
  transitionDuration : FiniteOrAbsent f.transitionDuration
  settings : ∀ s ∈ f.settings, s.Storable

theorem keeps {f : JobFrame} (storable : f.Storable) : Keeps (required ofJson?) toJson f := by
  have id := keeps_count? le_rfl storable.id
  have duration : Keeps (defaulted 0.0 Value.double?) .real f.duration :=
    (keeps_double storable.duration).defaulted
  have transition := keeps_text? f.transition
  have transitionDuration := keeps_double? storable.transitionDuration
  have image := keeps_text? f.image
  have settings : Keeps (optional Settings.ofJson?) (Value.ofOption Settings.toJson) f.settings :=
    keeps_optional (fun s given => Settings.keeps (storable.settings s given)) fun _ => nofun
  refine keeps_record (fun _ => rfl) rfl rfl (by decide) ?_ ?_
  · simp [id.storable, duration.storable, transition.storable, transitionDuration.storable,
      image.storable, settings.storable]
  · simp [id.back, duration.back, transition.back, transitionDuration.back, image.back,
      settings.back]

/-- The object of a frame is nested as deep as that of its settings, and once more. -/
theorem isReadable_toJson {f : JobFrame} {depth : Nat} (deep : 3 ≤ depth) :
    f.toJson.isReadable depth = true := by
  obtain ⟨depth, rfl⟩ := Nat.exists_eq_add_of_le' deep
  have settings : (Value.ofOption Settings.toJson f.settings).isReadable (depth + 2) = true :=
    isReadable_ofOption fun s _ => Settings.isReadable_toJson (by omega)
  refine Value.isReadable_object_iff.mpr ?_
  simp [Value.isReadable, settings]

theorem yields : Yields (required ofJson?) Storable := by
  refine yields_record (fun _ => rfl) fun fields f sound built => ?_
  split at built
  · simp only [List.forall_mem_cons] at sound
    obtain ⟨id, duration, -, transitionDuration, -, settings, -⟩ := sound
    obtain ⟨_, id, built⟩ := yields_count?.of_bind id built
    obtain ⟨_, duration, built⟩ := (yields_double.defaulted rfl).of_bind duration built
    obtain ⟨_, -, built⟩ := Option.bind_eq_some_iff.mp built
    obtain ⟨_, transitionDuration, built⟩ := yields_double?.of_bind transitionDuration built
    obtain ⟨_, -, built⟩ := Option.bind_eq_some_iff.mp built
    obtain ⟨_, settings, built⟩ := Settings.yields.optional.of_bind settings built
    obtain rfl := Option.some.inj built
    exact ⟨id, duration, transitionDuration, settings⟩
  · cases built

end JobFrame

namespace Job

/-- Every double in a job has a value, and every count fits into a word. -/
structure Storable (j : Job) : Prop where
  frames : ∀ f ∈ j.frames, f.Storable
  duration : FiniteOrAbsent j.duration
  rate : ∀ n ∈ j.rate, n ≤ maxWord
  width : ∀ n ∈ j.width, n ≤ maxWord
  height : ∀ n ∈ j.height, n ≤ maxWord

/-- **A job is kept** if its doubles have values and its counts are words. -/
theorem keeps {j : Job} (storable : j.Storable) : Keeps (required ofJson?) toJson j := by
  have frames : Keeps (defaulted [] (Value.listOf? JobFrame.ofJson?))
      (fun fs => .list (fs.map JobFrame.toJson)) j.frames :=
    (keeps_list fun f given => JobFrame.keeps (storable.frames f given)).defaulted
  have duration := keeps_double? storable.duration
  have rate := keeps_count? maxWord_le_maxLong storable.rate
  have width := keeps_count? maxWord_le_maxLong storable.width
  have height := keeps_count? maxWord_le_maxLong storable.height
  have image := keeps_text? j.image
  have audio := keeps_text? j.audio
  have output := keeps_text? j.output
  refine keeps_record (fun _ => rfl) rfl rfl (by decide) ?_ ?_
  · simp [frames.storable, duration.storable, rate.storable, width.storable, height.storable,
      image.storable, audio.storable, output.storable]
  · simp [frames.back, duration.back, rate.back, width.back, height.back, image.back, audio.back,
      output.back]

theorem isReadable_toJson (j : Job) : j.toJson.isReadable maxDepth = true := by
  have frames : (Value.list (j.frames.map JobFrame.toJson)).isReadable (125 + 1) = true :=
    isReadable_list fun f _ => f.isReadable_toJson (by decide)
  refine Value.isReadable_object_iff.mpr ?_
  simp [frames]

/-- A job out of a text can be stored. -/
theorem yields : Yields (required ofJson?) Storable := by
  refine yields_record (fun _ => rfl) fun fields j sound built => ?_
  split at built
  · simp only [List.forall_mem_cons] at sound
    obtain ⟨frames, duration, rate, width, height, -⟩ := sound
    obtain ⟨_, frames, built⟩ :=
      ((yields_list JobFrame.yields).defaulted (List.forall_mem_nil _)).of_bind frames built
    obtain ⟨_, duration, built⟩ := yields_double?.of_bind duration built
    obtain ⟨_, rate, built⟩ := yields_count?.of_bind rate built
    obtain ⟨_, width, built⟩ := yields_count?.of_bind width built
    obtain ⟨_, height, built⟩ := yields_count?.of_bind height built
    obtain ⟨_, -, built⟩ := Option.bind_eq_some_iff.mp built
    obtain ⟨_, -, built⟩ := Option.bind_eq_some_iff.mp built
    obtain ⟨_, -, built⟩ := Option.bind_eq_some_iff.mp built
    obtain rfl := Option.some.inj built
    exact ⟨frames, duration, rate, width, height⟩
  · cases built

end Job

/-! ## Texts -/

namespace Json

section

variable {α : Type} {read : Value → Option α} {write : α → Value} {P : α → Prop} {a : α}
  {codec : Codec}

/-- The text of something is read as that. -/
def Codec.Stores (codec : Codec) (read : Value → Option α) (write : α → Value) (a : α) : Prop :=
  codec.read? read (codec.write write a) = some a

theorem Keeps.stores (lawful : codec.Lawful) (keeps : Keeps (required read) write a)
    (shallow : (write a).isReadable maxDepth = true) : codec.Stores read write a := by
  unfold Codec.Stores Codec.read? Codec.write
  rw [lawful.decode_encode keeps.storable shallow]
  exact keeps.back

theorem Yields.of_text (lawful : codec.Lawful) (yields : Yields (required read) P) {text : String}
    (stated : codec.read? read text = some a) : P a := by
  obtain ⟨v, stated, known⟩ := Option.bind_eq_some_iff.mp stated
  exact yields (fieldSound_some (lawful.sound text v stated)) known

end

end Json

/-- **What is stored can be read again, and is the same**, whatever lawful codec stores it.  This
holds of every job and of all settings that were read out of a text, in whatever way the text put
them.  It holds as well of all jobs, settings, timelines and effects whose doubles have values; a
timeline counts its frames and pixels in machine words, and so do jobs and settings. -/
theorem stored_readBack {codec : Codec} (lawful : codec.Lawful) :
    (∀ text job, codec.read? Job.ofJson? text = some job →
        codec.Stores Job.ofJson? Job.toJson job)
      ∧ (∀ text settings, codec.read? Settings.ofJson? text = some settings →
        codec.Stores Settings.ofJson? Settings.toJson settings)
      ∧ (∀ j : Job, j.Storable → codec.Stores Job.ofJson? Job.toJson j)
      ∧ (∀ s : Settings, s.Storable → codec.Stores Settings.ofJson? Settings.toJson s)
      ∧ (∀ t : Timeline Float, t.Storable → codec.Stores Timeline.ofJson? Timeline.toJson t)
      ∧ ∀ e : Effect, e.Finite → codec.Stores (Effect.ofJson? maxDepth) Effect.toJson e := by
  have jobs (j : Job) (storable : j.Storable) : codec.Stores Job.ofJson? Job.toJson j :=
    (Job.keeps storable).stores lawful j.isReadable_toJson
  have settings (s : Settings) (storable : s.Storable) :
      codec.Stores Settings.ofJson? Settings.toJson s :=
    (Settings.keeps storable).stores lawful (Settings.isReadable_toJson (by decide))
  refine ⟨fun _ job stated => jobs job (Job.yields.of_text lawful stated),
    fun _ s stated => settings s (Settings.yields.of_text lawful stated), jobs, settings, ?_, ?_⟩
  · exact fun t storable => (Timeline.keeps storable).stores lawful t.isReadable_toJson
  · intro e finite
    have deep : 2 ≤ maxDepth := by decide
    exact (Effect.keeps deep finite).stores lawful (Effect.isReadable_toJson deep)

/-! Files that put things in their own way: aliases, another order, lengths without a point. -/

def olderSettings : String :=
  "\x7b\"speed\":2,\"directions\":[\"pan-left\"],\"kind\":\"Parallax\"\x7d"

def olderJob : String :=
  "\x7b\"fps\":24,\"frames\":[\x7b\"uploadedImageData\":\"a.png\",\"duration\":2\x7d]\x7d"

def slidingLeft : Settings where
  label := "Parallax"
  direction := some (.many ["pan-left"])
  speed := some 2.0

def oneFrame : Job where
  frames := [{ duration := 2.0, image := some "a.png" }]
  rate := some 24

/-! And some that need not have been in a file. -/

def narrowed : Settings := { slidingLeft with width := some 640 }

def narrowedJob : Job where
  frames := [{ duration := 2.0, settings := some narrowed }]
  duration := some 4.5

/-- A zoom in towards the left, and a still that it fades into. -/
def fadedIntoStill : Timeline Float where
  segments := [
    { effect := some (.kenBurns ⟨1.0, 1.0, 1.5, ⟨some .inward, some .left, none⟩⟩)
      duration := 2.5 },
    { effect := some .still
      duration := 2.5
      image := some "b.png"
      transition := some ⟨.fade, 0.5⟩ }]
  target := some 4.5

theorem narrowed_storable : narrowed.Storable where
  intensity := finiteOrAbsent_none
  startScale := finiteOrAbsent_none
  endScale := finiteOrAbsent_none
  speed := finiteOrAbsent_some rfl
  loopDuration := finiteOrAbsent_none
  startView := finiteOrAbsent_none
  endView := finiteOrAbsent_none
  width := by
    rintro n ⟨⟩
    decide
  height := nofun
  duration := finiteOrAbsent_none

theorem narrowedJob_storable : narrowedJob.Storable := by
  refine ⟨List.forall_mem_singleton.mpr ⟨nofun, rfl, finiteOrAbsent_none, ?_⟩,
    finiteOrAbsent_some rfl, nofun, nofun, nofun⟩
  rintro s ⟨⟩
  exact narrowed_storable

theorem fadedIntoStill_storable : fadedIntoStill.Storable := by
  have first : Segment.Finite fadedIntoStill.segments[0] := by
    refine ⟨?_, rfl, nofun⟩
    rintro e ⟨⟩
    exact ⟨rfl, rfl, rfl⟩
  have second : Segment.Finite fadedIntoStill.segments[1] := by
    refine ⟨?_, rfl, ?_⟩
    · rintro e ⟨⟩
      trivial
    · rintro t ⟨⟩
      rfl
  exact ⟨List.forall_mem_cons.mpr ⟨first, List.forall_mem_singleton.mpr second⟩, by decide,
    by decide, by decide, finiteOrAbsent_some rfl⟩

/-- The codecs at hand. -/
def layouts : List Codec := [.compact, .pretty]

theorem layouts_lawful : ∀ codec ∈ layouts, codec.Lawful :=
  List.forall_mem_cons.mpr ⟨Codec.lawful_compact, List.forall_mem_singleton.mpr Codec.lawful_pretty⟩

set_option maxRecDepth 4000 in
theorem olderFiles_readBack :
    (∀ codec ∈ layouts, codec.Lawful)
      ∧ (∀ codec ∈ layouts, codec.read? Job.ofJson? olderJob = some oneFrame
        ∧ codec.Stores Job.ofJson? Job.toJson oneFrame)
      ∧ (∀ codec ∈ layouts, codec.read? Settings.ofJson? olderSettings = some slidingLeft
        ∧ codec.Stores Settings.ofJson? Settings.toJson slidingLeft)
      ∧ narrowedJob.Storable
      ∧ (∀ codec ∈ layouts, codec.Stores Job.ofJson? Job.toJson narrowedJob)
      ∧ narrowed.Storable
      ∧ (∀ codec ∈ layouts, codec.Stores Settings.ofJson? Settings.toJson narrowed)
      ∧ fadedIntoStill.Storable
      ∧ (∀ codec ∈ layouts, codec.Stores Timeline.ofJson? Timeline.toJson fadedIntoStill)
      ∧ (Effect.template .dollyZoom).Finite
      ∧ ∀ codec ∈ layouts,
        codec.Stores (Effect.ofJson? maxDepth) Effect.toJson (Effect.template .dollyZoom) := by
  have job : ∀ codec ∈ layouts, codec.read? Job.ofJson? olderJob = some oneFrame :=
    List.forall_mem_cons.mpr ⟨rfl, List.forall_mem_singleton.mpr rfl⟩
  have sliding : ∀ codec ∈ layouts, codec.read? Settings.ofJson? olderSettings = some slidingLeft :=
    List.forall_mem_cons.mpr ⟨rfl, List.forall_mem_singleton.mpr rfl⟩
  have finite : (Effect.template .dollyZoom).Finite :=
    ⟨rfl, finiteOrAbsent_some rfl, finiteOrAbsent_some rfl⟩
  have stored {codec : Codec} (given : codec ∈ layouts) :=
    stored_readBack (layouts_lawful codec given)
  refine ⟨layouts_lawful, fun codec given => ⟨job codec given, ?_⟩,
    fun codec given => ⟨sliding codec given, ?_⟩, narrowedJob_storable, fun codec given => ?_,
    narrowed_storable, fun codec given => ?_, fadedIntoStill_storable, fun codec given => ?_,
    finite, fun codec given => ?_⟩
  · exact (stored given).1 olderJob oneFrame (job codec given)
  · exact (stored given).2.1 olderSettings slidingLeft (sliding codec given)
  · exact (stored given).2.2.1 narrowedJob narrowedJob_storable
  · exact (stored given).2.2.2.1 narrowed narrowed_storable
  · exact (stored given).2.2.2.2.1 fadedIntoStill fadedIntoStill_storable
  · exact (stored given).2.2.2.2.2 (.template .dollyZoom) finite

end Montage
