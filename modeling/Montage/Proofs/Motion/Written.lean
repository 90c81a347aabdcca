/-
# Montage.Proofs.Motion.Written -- the numbers that effects are written with

A number without a value would be written as zero, and so is a length that is short enough.
Effects are checked before they are built, but what is checked are their settings, and what is
written is computed from these: a rate, the zoom of a field of view, a period in millionths.
Here is exactly when a number without a value is written, and when something is divided by a
number that is written as zero.

The values of a pan or zoom, the strength of a swing and the length of a clip always have a
value.  So there are two places left where one can get lost, the two quotients of
`Effect.Overflows`, and one place for every length that is divided by.
-/
import Montage.Proofs.Filter.Formula
import Montage.Proofs.Motion.Inside
import Montage.Proofs.Number.Overflow

namespace Montage

set_option autoImplicit false

/-! ## What is written -/

/-- The numeral stands for a number that has a value. -/
def Numeral.Known (n : Numeral) : Prop := n.millionths.isSome = true

instance : DecidablePred Numeral.Known := fun n => inferInstanceAs (Decidable (n.millionths.isSome = true))

namespace Expr

/-- All computed numbers in a formula have a value. -/
def Known (e : Expr) : Prop := ∀ n ∈ e.numerals, n.Known

/-- A formula divides by no number that is written as zero. -/
def Divides (e : Expr) : Prop := ∀ d ∈ e.divisors, d.isZero = false

instance : DecidablePred Known := fun e => inferInstanceAs (Decidable (∀ n ∈ e.numerals, n.Known))

instance : DecidablePred Divides :=
  fun e => inferInstanceAs (Decidable (∀ d ∈ e.divisors, d.isZero = false))

end Expr

namespace Fragment

/-- The formulas that a fragment is written with. -/
def formulas (f : Fragment) : List Expr := f.steps.flatMap Step.formulas

/-- All computed numbers that a fragment is written with have a value. -/
def Known (f : Fragment) : Prop := ∀ n ∈ f.steps.flatMap Step.numerals, n.Known

/-- No formula of a fragment divides by a number that is written as zero. -/
def Divides (f : Fragment) : Prop := ∀ e ∈ f.formulas, e.Divides

instance : DecidablePred Known :=
  fun f => inferInstanceAs (Decidable (∀ n ∈ f.steps.flatMap Step.numerals, n.Known))

instance : DecidablePred Divides :=
  fun f => inferInstanceAs (Decidable (∀ e ∈ f.formulas, e.Divides))

end Fragment

namespace Effect

/-- The settings of an effect are usable, but what is computed from them has no value. -/
def Overflows : Effect → Prop
  | .parallax p => ∃ speed, exact p.speed = some speed ∧ 2 ^ 1023 ≤ speed
  | .dollyZoom p => ∃ first last, p.startView.bind exact = some first ∧ 0 < first
      ∧ p.endView.bind exact = some last ∧ 0 < last ∧ min first last ≤ 50 / 2 ^ 1024
  | .kenBurns _ | .cinemagraph _ | .still => False

/-- The length that an effect divides the time by, in a clip of some length. -/
def dividesBy? (length : Float) : Effect → Option Float
  | .kenBurns p =>
      if p.clamped.pointless? = none ∧ p.directions.singlePan?.isSome = true then some length
      else none
  | .parallax _ => some length
  | .cinemagraph p => some ((Seconds.usable? p.period).getD length)
  | .dollyZoom _ | .still => none

/-- An effect divides the time by a length that is written as zero. -/
def Vanishes (length : Float) (e : Effect) : Prop :=
  ∃ d q, e.dividesBy? length = some d ∧ exact d = some q ∧ q ≤ 1 / 2000000

end Effect

/-! ## Numerals -/

namespace Numeral

theorem known_ofRat (q : Rat) : (ofRat q).Known := rfl

theorem known_ofFloat_iff (x : Float) : (ofFloat x).Known ↔ exact x ≠ none := by
  unfold ofFloat
  cases exact x with
  | none => simp [Known]
  | some q => simp [known_ofRat]

theorem known_ofFloat {x : Float} {q : Rat} (known : exact x = some q) : (ofFloat x).Known := by
  rw [known_ofFloat_iff, known]
  exact Option.some_ne_none q

/-- Only what is at most half a millionth is written as zero. -/
theorem value_ofRat_eq_zero_iff {q : Rat} (nonneg : 0 ≤ q) :
    (ofRat q).value = 0 ↔ q ≤ 1 / 2000000 := by
  rw [value_ofRat, div_eq_zero_iff, or_iff_left (by norm_num), Int.cast_eq_zero]
  constructor
  · intro zero
    rcases roundEven_cases (q * 1000000) with ⟨same, early⟩ | ⟨next, -⟩
    · rw [← same, zero] at early
      push_cast at early
      linarith
    · have below : 0 ≤ ⌊q * 1000000⌋ := Int.floor_nonneg.mpr (by positivity)
      omega
  · intro short
    have low := roundEven_mono (p := 0) (q := q * 1000000) (by positivity)
    have high := roundEven_mono (p := q * 1000000) (q := 1 / 2) (by linarith)
    have none : roundEven 0 = 0 := by decide +kernel
    have half : roundEven (1 / 2) = 0 := by decide +kernel
    omega

end Numeral

/-! ## Formulas -/

namespace Expr

variable {a b : Expr}

@[simp] theorem known_num (n : Numeral) : (num n).Known ↔ n.Known := by simp [Known, numerals]

@[simp] theorem known_nat (n : Nat) : (nat n).Known := by simp [Known, numerals]

@[simp] theorem known_var (v : Var) : (var v).Known := by simp [Known, numerals]

@[simp] theorem known_add : (a.add b).Known ↔ a.Known ∧ b.Known := by
  simp [Known, numerals, or_imp, forall_and]

@[simp] theorem known_sub : (a.sub b).Known ↔ a.Known ∧ b.Known := known_add

@[simp] theorem known_mul : (a.mul b).Known ↔ a.Known ∧ b.Known := known_add

@[simp] theorem known_div : (a.div b).Known ↔ a.Known ∧ b.Known := known_add

@[simp] theorem known_least : (a.least b).Known ↔ a.Known ∧ b.Known := known_add

@[simp] theorem known_group : (group a).Known ↔ a.Known := Iff.rfl

@[simp] theorem known_sine : (sine a).Known ↔ a.Known := Iff.rfl

@[simp] theorem divides_num (n : Numeral) : (num n).Divides := by simp [Divides, divisors]

@[simp] theorem divides_nat (n : Nat) : (nat n).Divides := by simp [Divides, divisors]

@[simp] theorem divides_var (v : Var) : (var v).Divides := by simp [Divides, divisors]

@[simp] theorem divides_add : (a.add b).Divides ↔ a.Divides ∧ b.Divides := by
  simp [Divides, divisors, or_imp, forall_and]

@[simp] theorem divides_sub : (a.sub b).Divides ↔ a.Divides ∧ b.Divides := divides_add

@[simp] theorem divides_mul : (a.mul b).Divides ↔ a.Divides ∧ b.Divides := divides_add

@[simp] theorem divides_least : (a.least b).Divides ↔ a.Divides ∧ b.Divides := divides_add

@[simp] theorem divides_div : (a.div b).Divides ↔ a.Divides ∧ b.isZero = false ∧ b.Divides := by
  simp [Divides, divisors, or_imp, forall_and]

@[simp] theorem divides_group : (group a).Divides ↔ a.Divides := Iff.rfl

@[simp] theorem divides_sine : (sine a).Divides ↔ a.Divides := Iff.rfl

@[simp] theorem isZero_var (v : Var) : (var v).isZero = false := rfl

@[simp] theorem isZero_group : (group a).isZero = false := rfl

@[simp] theorem isZero_nat (n : Nat) : (nat n).isZero = false ↔ n ≠ 0 := by
  rw [← Bool.not_eq_true, isZero_nat_iff]

/-- A usable length is written as zero if it is at most half a millionth. -/
theorem isZero_numeral_iff {x : Float} {q : Rat} (known : exact x = some q) (positive : 0 < q) :
    (num (Seconds.numeral x)).isZero = false ↔ ¬ q ≤ 1 / 2000000 := by
  rw [← Bool.not_eq_true, isZero_num_iff, Seconds.numeral_of_exact known,
    Numeral.value_ofRat_eq_zero_iff positive.le]

end Expr

namespace Motion

@[simp] theorem known_centred (side : Var) : (centred side).Known := by
  simp [centred, visible]

@[simp] theorem divides_centred (side : Var) : (centred side).Divides := by
  simp [centred, visible]

@[simp] theorem known_drift (side : Var) (strength : Numeral) (frames : Nat) :
    (drift side strength frames).Known ↔ strength.Known := by
  simp [drift, visible]

@[simp] theorem divides_drift (side : Var) (strength : Numeral) (frames : Nat) :
    (drift side strength frames).Divides ↔ frames ≠ 0 := by
  simp [drift, visible]

@[simp] theorem known_rampUp (a b : Numeral) (frames : Nat) :
    (rampUp a b frames).Known ↔ a.Known ∧ b.Known := by
  simp [rampUp, and_comm]

@[simp] theorem divides_rampUp (a b : Numeral) (frames : Nat) :
    (rampUp a b frames).Divides ↔ frames ≠ 0 := by
  simp [rampUp]

@[simp] theorem known_rampDown (a b : Numeral) (frames : Nat) :
    (rampDown a b frames).Known ↔ a.Known ∧ b.Known := by
  simp [rampDown]

@[simp] theorem divides_rampDown (a b : Numeral) (frames : Nat) :
    (rampDown a b frames).Divides ↔ frames ≠ 0 := by
  simp [rampDown]

/-! ## Fragments -/

/-- A fragment is written with no numbers but those in its formulas. -/
theorem Shape.known_iff {canvas : Canvas} {rate : Nat} {f : Fragment} (shape : Shape canvas rate f) :
    f.Known ↔ ∀ e ∈ f.formulas, e.Known := by
  have formulas : f.steps.flatMap Step.numerals = f.formulas.flatMap Expr.numerals := by
    have plain (s : Step) (larger : Enlarges s) : s.numerals = s.formulas.flatMap Expr.numerals := by
      cases larger <;> simp [Step.numerals]
    cases shape with
    | zoom z x y span => simp [Fragment.formulas, Step.numerals]
    | window enlarge window span larger =>
        rw [Fragment.formulas, List.flatMap_append, List.flatMap_append, List.flatMap_append,
          List.flatMap_assoc, List.flatMap_congr fun s member => plain s (larger s member)]
        simp [Step.numerals]
    | still span => simp [Fragment.formulas, Step.numerals]
  rw [Fragment.Known, formulas]
  simp only [List.mem_flatMap, forall_exists_index, and_imp, Expr.Known]
  exact ⟨fun all e inside n member => all n e inside member,
    fun all n e inside member => all e inside n member⟩

section

variable (clip : Clip Float)

@[simp] theorem known_zoomFragment (z x y : Expr) (span : Span) :
    (zoomFragment clip z x y span).Known ↔ z.Known ∧ x.Known ∧ y.Known := by
  rw [(zoomFragment_shape clip z x y span).known_iff]
  simp [Fragment.formulas, zoomFragment, Step.formulas]

@[simp] theorem divides_zoomFragment (z x y : Expr) (span : Span) :
    (zoomFragment clip z x y span).Divides ↔ z.Divides ∧ x.Divides ∧ y.Divides := by
  simp [Fragment.Divides, Fragment.formulas, zoomFragment, Step.formulas]

@[simp] theorem known_resized (width height : Nat) (window : Window) :
    (windowFragment clip [.resize width height] window).Known ↔ ∀ e ∈ window.formulas, e.Known := by
  rw [(windowFragment_shape clip window (enlarges_resize width height)).known_iff]
  simp [Fragment.formulas, windowFragment, Step.formulas]

@[simp] theorem divides_resized (width height : Nat) (window : Window) :
    (windowFragment clip [.resize width height] window).Divides
      ↔ ∀ e ∈ window.formulas, e.Divides := by
  simp [Fragment.Divides, Fragment.formulas, windowFragment, Step.formulas]

theorem known_passThrough : (passThrough clip).Known := by
  rw [(passThrough_shape clip).known_iff]
  simp [Fragment.formulas, passThrough, Step.formulas, Step.halfGap]

theorem divides_passThrough : (passThrough clip).Divides := by
  simp [Fragment.Divides, Fragment.formulas, passThrough, Step.formulas, Step.halfGap]

/-! ### Pans and zooms -/

theorem known_constantZoom (scale : Float) :
    (constantZoom clip scale).Known ↔ (Numeral.ofFloat scale).Known := by
  simp [constantZoom]

theorem divides_constantZoom (scale : Float) : (constantZoom clip scale).Divides := by
  simp [constantZoom]

/-- A pan or zoom within its bounds is written with numbers that have a value. -/
theorem known_zoomAndPan (p : KenBurns) : (zoomAndPan clip p.clamped).Known := by
  obtain ⟨s, strength, -⟩ := intensityFactor_between p.clamped.intensity
  obtain ⟨a, first, -⟩ := clampScale_between p.startScale
  obtain ⟨b, last, -⟩ := clampScale_between p.endScale
  have strength := Numeral.known_ofFloat strength
  have first : (Numeral.ofFloat p.clamped.startScale).Known := Numeral.known_ofFloat first
  have last : (Numeral.ofFloat p.clamped.endScale).Known := Numeral.known_ofFloat last
  unfold zoomAndPan
  rw [known_zoomFragment]
  refine ⟨?_, ?_, ?_⟩
  · rcases p.clamped.directions.zoom with _ | ⟨_ | _⟩ <;> simp [first, last]
  · rcases p.clamped.directions.horizontal with _ | ⟨_ | _⟩ <;> simp [strength]
  · rcases p.clamped.directions.vertical with _ | ⟨_ | _⟩ <;> simp [strength]

theorem divides_zoomAndPan (p : KenBurns) : (zoomAndPan clip p).Divides := by
  have counted : clip.frames ≠ 0 := clip.frames_pos.ne'
  unfold zoomAndPan
  rw [divides_zoomFragment]
  refine ⟨?_, ?_, ?_⟩
  · rcases p.directions.zoom with _ | ⟨_ | _⟩ <;> simp [counted]
  · rcases p.directions.horizontal with _ | ⟨_ | _⟩ <;> simp [counted]
  · rcases p.directions.vertical with _ | ⟨_ | _⟩ <;> simp [counted]

theorem known_singlePan (p : KenBurns) (pan : Direction)
    (known : (Seconds.numeral clip.duration).Known) : (singlePan clip p pan).Known := by
  obtain ⟨s, strength, -⟩ := intensityFactor_between p.intensity
  have strength := Numeral.known_ofFloat strength
  cases pan <;> simp [singlePan, room, Window.formulas, known, strength]

theorem divides_singlePan_iff (p : KenBurns) (pan : Direction) :
    (singlePan clip p pan).Divides
      ↔ (Expr.num (Seconds.numeral clip.duration)).isZero = false := by
  cases pan <;> simp [singlePan, room, Window.formulas]

/-! ### Other effects -/

theorem known_parallax_iff (p : Parallax) (known : (Seconds.numeral clip.duration).Known) :
    (parallax clip p).Known ↔ exact (p.speed / referenceSpeed) ≠ none := by
  rw [← Numeral.known_ofFloat_iff]
  unfold parallax
  cases p.slide <;> simp [Window.formulas, Slide.isHorizontal, Slide.isForward, known]

theorem divides_parallax_iff (p : Parallax) :
    (parallax clip p).Divides ↔ (Expr.num (Seconds.numeral clip.duration)).isZero = false := by
  unfold parallax
  cases p.slide <;> simp [Window.formulas, Slide.isHorizontal, Slide.isForward]

theorem known_amplitude (p : Cinemagraph) : (amplitude p).Known := by
  obtain ⟨q, factor, low, high⟩ := intensityFactor_between p.intensity
  have half : exact maxAmplitude = some (1 / 2) := by decide +kernel
  obtain ⟨r, swing, -⟩ := (Rounded.mul factor half low (by norm_num)).between isDouble_zero
    (isDouble_natCast (n := 1) (by decide)) (by positivity) (by push_cast; linarith)
  exact Numeral.known_ofFloat swing

theorem known_cinemagraph (p : Cinemagraph) (known : (period clip p).Known) :
    (cinemagraph clip p).Known := by
  have swing := known_amplitude p
  rw [(cinemagraph_shape clip p).known_iff]
  unfold cinemagraph
  cases p.pulse with
  | subtleZoom =>
      simp [subtleZoom, zoomFragment, Fragment.formulas, Step.formulas, angle, known, swing]
  | wave => simp [wave, windowFragment, Fragment.formulas, Step.formulas, Window.formulas, angle, known]
  | breathe =>
      simp [breathe, windowFragment, Fragment.formulas, Step.formulas, Window.formulas, angle, known,
        swing]

theorem divides_cinemagraph_iff (p : Cinemagraph) (plays : clip.rate ≠ 0) :
    (cinemagraph clip p).Divides ↔ (Expr.num (period clip p)).isZero = false := by
  unfold cinemagraph Fragment.Divides
  cases p.pulse with
  | subtleZoom =>
      simp [subtleZoom, zoomFragment, Fragment.formulas, Step.formulas, angle, plays]
  | wave => simp [wave, windowFragment, Fragment.formulas, Step.formulas, Window.formulas, angle]
  | breathe => simp [breathe, windowFragment, Fragment.formulas, Step.formulas, Window.formulas, angle]

/-- A field of view can be used if it stands for a positive number. -/
theorem view_eq_ok_iff {name : String} {v : Option Float} {x : Float} :
    view name v = .ok x ↔ v = some x ∧ Seconds.isUsable x = true := by
  unfold view
  cases v with
  | none => simp
  | some y =>
      dsimp only
      split
      · rename_i usable
        constructor
        · intro same
          cases same
          exact ⟨rfl, usable⟩
        · rintro ⟨same, -⟩
          cases same
          rfl
      · rename_i useless
        refine ⟨fun failed => (by cases failed), ?_⟩
        rintro ⟨same, usable⟩
        cases same
        exact absurd usable useless

/-- A dolly zoom is written with numbers that have a value exactly if neither zoom is too
large. -/
theorem known_dollyZoom_iff {p : DollyZoom} {f : Fragment} (made : dollyZoom clip p = .ok f) :
    f.Known ↔ ¬ (Effect.dollyZoom p).Overflows := by
  have reference : exact referenceView = some 50 := by decide +kernel
  obtain ⟨a, b, first, last, rfl⟩ := dollyZoom_eq_ok_iff.mp made
  obtain ⟨first, usable⟩ := view_eq_ok_iff.mp first
  obtain ⟨last, usable'⟩ := view_eq_ok_iff.mp last
  obtain ⟨q, known, positive⟩ := exists_exact_of_isUsable usable
  obtain ⟨r, known', positive'⟩ := exists_exact_of_isUsable usable'
  have overflows : (Effect.dollyZoom p).Overflows ↔ min q r ≤ 50 / 2 ^ 1024 := by
    simp [Effect.Overflows, first, last, known, known', positive, positive']
  rw [overflows, min_le_iff, not_or, known_zoomFragment, known_rampUp, Numeral.known_ofFloat_iff,
    Numeral.known_ofFloat_iff, ne_eq, ne_eq, exact_fifty_div_eq_none_iff reference known positive,
    exact_fifty_div_eq_none_iff reference known' positive']
  simp

theorem divides_dollyZoom {p : DollyZoom} {f : Fragment} (made : dollyZoom clip p = .ok f) :
    f.Divides := by
  obtain ⟨a, b, rfl⟩ := dollyZoom_eq_ok made
  simp [clip.frames_pos.ne']

/-- Where a dolly zoom is not built, it is not for the size of a zoom. -/
theorem not_overflows_of_error {p : DollyZoom} {finding : Finding}
    (failed : dollyZoom clip p = .error finding) : ¬ (Effect.dollyZoom p).Overflows := by
  rintro ⟨q, r, first, positive, last, positive', -⟩
  obtain ⟨a, first, known⟩ := Option.bind_eq_some_iff.mp first
  obtain ⟨b, last, known'⟩ := Option.bind_eq_some_iff.mp last
  have usable : Seconds.isUsable a = true := isUsable_of_exact known positive
  have usable' : Seconds.isUsable b = true := isUsable_of_exact known' positive'
  obtain ⟨f, made⟩ : ∃ f, dollyZoom clip p = .ok f :=
    ⟨_, dollyZoom_eq_ok_iff.mpr ⟨a, b, view_eq_ok_iff.mpr ⟨first, usable⟩,
      view_eq_ok_iff.mpr ⟨last, usable'⟩, rfl⟩⟩
  rw [failed] at made
  cases made

end

/-! ## All effects -/

/-- What divides by a usable length vanishes exactly if the length is written as zero. -/
theorem isZero_iff_vanishes {effect : Effect} {length d : Float} {q : Rat}
    (divides : effect.dividesBy? length = some d) (known : exact d = some q) (positive : 0 < q) :
    (Expr.num (Seconds.numeral d)).isZero = false ↔ ¬ effect.Vanishes length := by
  rw [Expr.isZero_numeral_iff known positive, not_iff_not]
  constructor
  · exact fun short => ⟨d, q, divides, known, short⟩
  · rintro ⟨d', q', same, known', short⟩
    obtain rfl := Option.some.inj (divides.symm.trans same)
    obtain rfl := Option.some.inj (known.symm.trans known')
    exact short

theorem not_vanishes {effect : Effect} {length : Float}
    (divides : effect.dividesBy? length = none) : ¬ effect.Vanishes length := by
  rintro ⟨d, q, some, -⟩
  rw [divides] at some
  cases some

/-- A clip whose length can be written. -/
theorem known_duration (clip : Clip Float) : (Seconds.numeral clip.sanitized.duration).Known := by
  obtain ⟨length, lasts, -⟩ := clip.sanitized_sound.lasts
  rw [Seconds.numeral_of_exact lasts]
  exact Numeral.known_ofRat length

theorem kenBurns_written (clip : Clip Float) (p : KenBurns) :
    (fragment clip (.kenBurns p)).value.Known
      ∧ ((fragment clip (.kenBurns p)).value.Divides
        ↔ ¬ (Effect.kenBurns p).Vanishes clip.sanitized.duration) := by
  obtain ⟨length, lasts, positive⟩ := clip.sanitized_sound.lasts
  rw [fragment_value]
  show (build clip p.check.value).value.Known ∧ ((build clip p.check.value).value.Divides ↔ _)
  cases pointless : p.clamped.pointless? with
  | some reason =>
      obtain ⟨q, known, -⟩ := clampScale_between p.startScale
      have divides : (Effect.kenBurns p).dividesBy? clip.sanitized.duration = none := by
        simp [Effect.dividesBy?, pointless]
      have checked : p.check.value = .fallback ⟨p.clamped.startScale, reason⟩ := by
        rw [KenBurns.check, pointless]
        rfl
      rw [checked, iff_true_right (not_vanishes divides)]
      exact ⟨(known_constantZoom _ _).mpr (Numeral.known_ofFloat known), divides_constantZoom _ _⟩
  | none =>
      rw [KenBurns.check_eq_effect_iff.mpr ⟨pointless, rfl⟩]
      show (kenBurns clip.sanitized p.clamped).Known ∧ ((kenBurns clip.sanitized p.clamped).Divides ↔ _)
      unfold kenBurns
      cases slides : p.clamped.directions.singlePan? with
      | none =>
          have divides : (Effect.kenBurns p).dividesBy? clip.sanitized.duration = none := by
            have zooms : p.directions.singlePan? = none := slides
            simp [Effect.dividesBy?, zooms]
          rw [iff_true_right (not_vanishes divides)]
          exact ⟨known_zoomAndPan _ p, divides_zoomAndPan _ _⟩
      | some pan =>
          have divides : (Effect.kenBurns p).dividesBy? clip.sanitized.duration
              = some clip.sanitized.duration := by
            have slides : p.directions.singlePan? = some pan := slides
            simp [Effect.dividesBy?, pointless, slides]
          refine ⟨known_singlePan _ _ pan (known_duration clip), ?_⟩
          exact (divides_singlePan_iff _ _ pan).trans (isZero_iff_vanishes divides lasts positive)

theorem parallax_written (clip : Clip Float) (p : Parallax) :
    ((fragment clip (.parallax p)).value.Known ↔ ¬ (Effect.parallax p).Overflows)
      ∧ ((fragment clip (.parallax p)).value.Divides
        ↔ ¬ (Effect.parallax p).Vanishes clip.sanitized.duration) := by
  obtain ⟨length, lasts, positive⟩ := clip.sanitized_sound.lasts
  have half : exact referenceSpeed = some (1 / 2) := by decide +kernel
  have built : ∃ q : Parallax, (fragment clip (.parallax p)).value = parallax clip.sanitized q
      ∧ (exact (q.speed / referenceSpeed) = none ↔ (Effect.parallax p).Overflows) := by
    by_cases usable : Seconds.isUsable p.speed = true
    · obtain ⟨speed, known, forward⟩ := exists_exact_of_isUsable usable
      refine ⟨p, by rw [fragment_value, Effect.check, if_pos usable]; rfl, ?_⟩
      rw [exact_div_half_eq_none_iff known half forward.le]
      simp [Effect.Overflows, known]
    · refine ⟨{ p with speed := 0.5 }, by rw [fragment_value, Effect.check, if_neg usable]; rfl, ?_⟩
      have rate : exact ((0.5 : Float) / referenceSpeed) = some 1 := by decide +kernel
      refine iff_of_false (by rw [rate]; exact Option.some_ne_none 1) ?_
      rintro ⟨speed, known, fast⟩
      exact usable (isUsable_of_exact known (lt_of_lt_of_le (by positivity) fast))
  obtain ⟨q, fragment, overflows⟩ := built
  rw [fragment, known_parallax_iff _ q (known_duration clip), divides_parallax_iff, ← overflows]
  exact ⟨Iff.rfl, isZero_iff_vanishes rfl lasts positive⟩

theorem cinemagraph_written (clip : Clip Float) (p : Cinemagraph) :
    (fragment clip (.cinemagraph p)).value.Known
      ∧ ((fragment clip (.cinemagraph p)).value.Divides
        ↔ ¬ (Effect.cinemagraph p).Vanishes clip.sanitized.duration) := by
  obtain ⟨length, lasts, positive⟩ := clip.sanitized_sound.lasts
  have plays := clip.sanitized_sound.plays
  have built : (fragment clip (.cinemagraph p)).value
      = cinemagraph clip.sanitized { p with period := Seconds.usable? p.period } := rfl
  have written : period clip.sanitized { p with period := Seconds.usable? p.period }
      = Seconds.numeral ((Seconds.usable? p.period).getD clip.sanitized.duration) := by
    unfold period
    cases Seconds.usable? p.period <;> rfl
  have swings : ∃ q, exact ((Seconds.usable? p.period).getD clip.sanitized.duration) = some q
      ∧ 0 < q := by
    cases usable : Seconds.usable? p.period with
    | none => exact ⟨length, lasts, positive⟩
    | some seconds => exact exists_exact_of_isUsable (Option.filter_eq_some_iff.mp usable).2
  obtain ⟨q, known, positive⟩ := swings
  rw [built, divides_cinemagraph_iff _ _ plays, written]
  refine ⟨known_cinemagraph _ _ ?_, isZero_iff_vanishes rfl known positive⟩
  rw [written, Seconds.numeral_of_exact known]
  exact Numeral.known_ofRat q

theorem dollyZoom_written (clip : Clip Float) (p : DollyZoom) :
    ((fragment clip (.dollyZoom p)).value.Known ↔ ¬ (Effect.dollyZoom p).Overflows)
      ∧ (fragment clip (.dollyZoom p)).value.Divides := by
  rw [fragment_value]
  show ((build clip (.effect (.dollyZoom p))).value.Known ↔ _)
    ∧ (build clip (.effect (.dollyZoom p))).value.Divides
  cases made : dollyZoom clip.sanitized p with
  | ok f =>
      simp only [build, made]
      exact ⟨known_dollyZoom_iff _ made, divides_dollyZoom _ made⟩
  | error finding =>
      simp only [build, made]
      exact ⟨iff_of_true (known_passThrough _) (not_overflows_of_error _ made), divides_passThrough _⟩

/-- **When an effect is written with the numbers that were computed for it**, whatever its
settings are and whatever the clip is: a number without a value is written exactly where one of
the two quotients overflows, and something is divided by a zero exactly where a length is
divided by that is at most half a millionth.  Each formula in question stands in an argument of
a filter. -/
theorem fragment_written (clip : Clip Float) (effect : Effect) :
    ((fragment clip effect).value.Known ↔ ¬ effect.Overflows)
      ∧ ((fragment clip effect).value.Divides ↔ ¬ effect.Vanishes clip.sanitized.duration)
      ∧ ∀ e ∈ (fragment clip effect).value.formulas, (fragment clip effect).value.chain.Writes e := by
  rw [← and_assoc]
  refine ⟨?_, Chain.writes_formulas⟩
  cases effect with
  | kenBurns p =>
      obtain ⟨known, divides⟩ := kenBurns_written clip p
      exact ⟨iff_of_true known not_false, divides⟩
  | parallax p => exact parallax_written clip p
  | cinemagraph p =>
      obtain ⟨known, divides⟩ := cinemagraph_written clip p
      exact ⟨iff_of_true known not_false, divides⟩
  | dollyZoom p =>
      obtain ⟨known, divides⟩ := dollyZoom_written clip p
      exact ⟨known, iff_of_true divides (not_vanishes rfl)⟩
  | still =>
      exact ⟨iff_of_true (known_passThrough _) not_false,
        iff_of_true (divides_passThrough _) (not_vanishes rfl)⟩

/-- A parallax of a usable speed is written with a rate that has no value, and a wave of a usable
period divides by zero. -/
theorem extreme_settings_lost :
    Seconds.isUsable (1e308 : Float) = true ∧ Seconds.isUsable (1e-7 : Float) = true
      ∧ ¬ (fragment (.standard : Clip Float) (.parallax ⟨1.0, 1e308, .leftToRight⟩)).value.Known
      ∧ ¬ (fragment (.standard : Clip Float)
        (.cinemagraph ⟨1.0, "", .wave, some 1e-7⟩)).value.Divides := by
  decide +kernel

end Motion

end Montage
