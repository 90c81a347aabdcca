/-
# Montage.Proofs.Motion.Inside -- no window leaves its picture

Every view lies at a share of the room beside it.  If the room is not negative, and the share
is none, all or something in between, the window lies in the picture, along both axes.

The room of a zoom is what a factor of one or more leaves, that of a slide is what a picture
has gained when it was made larger.  The share is that of a pan, which goes from one end
towards the other and is there at the end of the clip at the latest, or of a swing around
the middle, because a sine is nowhere beyond one.
-/
import Montage.Proofs.Direction
import Montage.Proofs.Motion.Shape
import Montage.Proofs.Motion.Stage
import Montage.Proofs.Seconds

namespace Montage

set_option autoImplicit false

/-! ## Windows and shares -/

/-- A window that lies in its picture: it is no larger, and begins where its end still fits. -/
structure View.Inside (v : View) : Prop where
  narrow : v.size.width ≤ v.whole.width
  low : v.size.height ≤ v.whole.height
  left : 0 ≤ v.x
  right : v.x ≤ v.whole.width - v.size.width
  top : 0 ≤ v.y
  bottom : v.y ≤ v.whole.height - v.size.height

/-- A part of the room: none, all or something in between. -/
def IsShare (q : Rat) : Prop := 0 ≤ q ∧ q ≤ 1

namespace IsShare

variable {q : Rat}

theorem half : IsShare (1 / 2) := by norm_num [IsShare]

theorem rest (share : IsShare q) : IsShare (1 - q) := by
  unfold IsShare at *
  constructor <;> linarith [share.1, share.2]

theorem mul {r : Rat} (first : IsShare q) (second : IsShare r) : IsShare (q * r) :=
  ⟨mul_nonneg first.1 second.1, mul_le_one₀ first.2 second.1 second.2⟩

theorem div {part whole : Rat} (nonneg : 0 ≤ part) (le : part ≤ whole) : IsShare (part / whole) :=
  ⟨div_nonneg nonneg (nonneg.trans le), div_le_one_of_le₀ le (nonneg.trans le)⟩

/-- What swings within one around the middle. -/
theorem swing (low : -1 ≤ q) (high : q ≤ 1) : IsShare ((1 + q) / 2) := by
  unfold IsShare
  constructor <;> linarith

end IsShare

theorem Direction.shares_isShare (d : Direction) {progress : Rat} (share : IsShare progress) :
    IsShare (d.shares progress).1 ∧ IsShare (d.shares progress).2 := by
  cases d with
  | panRight => exact ⟨share, .half⟩
  | panLeft => exact ⟨share.rest, .half⟩
  | panDown => exact ⟨.half, share⟩
  | panUp => exact ⟨.half, share.rest⟩
  | zoomIn | zoomOut => exact ⟨.half, .half⟩

theorem DirectionSet.shares_isShare (s : DirectionSet) {drift : Rat} (share : IsShare drift) :
    IsShare (s.shares drift).1 ∧ IsShare (s.shares drift).2 := by
  have swings {sign : Rat} (within : -1 ≤ sign ∧ sign ≤ 1) : IsShare ((1 + sign * drift) / 2) := by
    apply IsShare.swing
    · nlinarith [share.1, share.2, within.1]
    · nlinarith [share.1, share.2, within.2]
  constructor
  · apply swings
    rcases s.horizontal with _ | ⟨_ | _⟩ <;> norm_num [Horizontal.sign]
  · apply swings
    rcases s.vertical with _ | ⟨_ | _⟩ <;> norm_num [Vertical.sign]

/-- **A window at shares of the room lies in its picture**, if there is room. -/
theorem View.placed_inside {whole size : Extent} {shares : Rat × Rat}
    (narrow : size.width ≤ whole.width) (low : size.height ≤ whole.height)
    (across : IsShare shares.1) (down : IsShare shares.2) : (placed whole size shares).Inside where
  narrow := narrow
  low := low
  left := mul_nonneg (sub_nonneg.mpr narrow) across.1
  right := mul_le_of_le_one_right (sub_nonneg.mpr narrow) across.2
  top := mul_nonneg (sub_nonneg.mpr low) down.1
  bottom := mul_le_of_le_one_right (sub_nonneg.mpr low) down.2

/-! ## Clips that are fit to be rendered -/

/-- What is used of a clip with everything replaced that an encoder would refuse. -/
structure Clip.Sound (clip : Clip Float) : Prop where
  even_width : clip.canvas.width % 2 = 0
  even_height : clip.canvas.height % 2 = 0
  plays : clip.rate ≠ 0
  lasts : ∃ length, exact clip.duration = some length ∧ 0 < length

theorem Clip.sanitized_sound (clip : Clip Float) : clip.sanitized.Sound := by
  have even := Canvas.coerced_even clip.canvas.width clip.canvas.height
  simp only [Canvas.isEven, Bool.decide_and, Bool.and_eq_true, decide_eq_true_eq] at even
  refine ⟨even.1, even.2, ?_, ?_⟩
  · show (if clip.rate = 0 then defaultRate else clip.rate) ≠ 0
    split
    · decide
    · assumption
  · show ∃ length, exact (if Seconds.isUsable clip.duration then clip.duration
      else Clip.defaultDuration) = some length ∧ 0 < length
    split
    · rename_i usable
      exact exists_exact_of_isUsable usable
    · exact ⟨5, by decide +kernel, by norm_num⟩

theorem Clip.frames_pos {τ : Type} [Seconds τ] (clip : Clip τ) : 0 < clip.frames :=
  Seconds.one_le_wholeFrames clip.rate clip.duration

theorem Clip.Sound.length_pos {clip : Clip Float} (sound : clip.Sound) {length : Rat}
    (length_eq : exact clip.duration = some length) : 0 < length := by
  obtain ⟨length', known, positive⟩ := sound.lasts
  obtain rfl := Option.some.inj (length_eq.symm.trans known)
  exact positive

/-- The length of a sound clip is not negative, as it is written. -/
theorem Clip.Sound.length_nonneg {clip : Clip Float} (sound : clip.Sound) :
    0 ≤ (Seconds.numeral clip.duration).value := by
  obtain ⟨length, known, positive⟩ := sound.lasts
  rw [Seconds.numeral_of_exact known]
  exact Numeral.value_ofRat_nonneg positive.le

namespace Motion

variable {c : Circle} {lens : Rat → Rat} {picture : Extent} {m : Moment} {clip : Clip Float}

/-! ## Zooms -/

section

variable (wide : 0 ≤ picture.width) (high : 0 ≤ picture.height) (magnifies : ∀ z, 1 ≤ lens z)

include wide high magnifies

theorem centred_inside {z : Expr} (span : Span) {factor : Rat}
    (hz : z.value? (m.names c picture clip.canvas.extent 1) c.sin = some factor) :
    ∃ v, (zoomFragment clip z (centred .iw) (centred .ih) span).view? c lens picture m = some v
      ∧ v.Inside :=
  ⟨_, view_centred span hz (zero_lt_one.trans_le (magnifies factor)).ne',
    View.placed_inside (div_le_self wide (magnifies factor)) (div_le_self high (magnifies factor))
      .half .half⟩

theorem zoomAndPan_inside (p : KenBurns) (from_start : 0 ≤ m.frame)
    (to_end : m.frame ≤ clip.frames) :
    ∃ v, (zoomAndPan clip p).view? c lens picture m = some v ∧ v.Inside := by
  have drift : IsShare (p.strength * (m.frame / clip.frames)) :=
    IsShare.mul (strength_between p) (.div from_start to_end)
  obtain ⟨across, down⟩ := p.directions.shares_isShare drift
  exact ⟨_, view_zoomAndPan p clip.frames_pos.ne' (zero_lt_one.trans_le (magnifies _)).ne',
    View.placed_inside (div_le_self wide (magnifies _)) (div_le_self high (magnifies _)) across down⟩

end

/-! ## Slides -/

/-- The picture that a single pan moves over is no smaller than the clip. -/
theorem canvas_le_panStage (sound : clip.Sound) (wide : clip.canvas.width ≤ maxWord)
    (high : clip.canvas.height ≤ maxWord) (p : KenBurns) :
    clip.canvas.extent.width ≤ (p.clamped.stage clip).width
      ∧ clip.canvas.extent.height ≤ (p.clamped.stage clip).height :=
  ⟨Nat.cast_le.mpr (le_enlarged p sound.even_width wide),
    Nat.cast_le.mpr (le_enlarged p sound.even_height high)⟩

theorem singlePan_inside (sound : clip.Sound) (wide : clip.canvas.width ≤ maxWord)
    (high : clip.canvas.height ≤ maxWord) (p : KenBurns) {pan : Direction} (pans : pan.isPan = true)
    (lasts : (Seconds.numeral clip.duration).value ≠ 0) (from_start : 0 ≤ m.time)
    (to_end : m.time ≤ (Seconds.numeral clip.duration).value) :
    ∃ v, (singlePan clip p.clamped pan).view? c lens picture m = some v ∧ v.Inside := by
  have progress : IsShare (panProgress clip p.clamped m.time) :=
    IsShare.mul (.div from_start to_end) (strength_between p.clamped)
  obtain ⟨across, down⟩ := pan.shares_isShare progress
  obtain ⟨narrow, low⟩ := canvas_le_panStage sound wide high p
  exact ⟨_, view_singlePan p.clamped pans lasts, View.placed_inside narrow low across down⟩

/-- The picture that a parallax moves over is no smaller than the clip. -/
theorem canvas_le_stage (sound : clip.Sound) (wide : clip.canvas.width ≤ maxWord)
    (high : clip.canvas.height ≤ maxWord) (s : Slide) :
    clip.canvas.extent.width ≤ (s.stage clip).width
      ∧ clip.canvas.extent.height ≤ (s.stage clip).height := by
  unfold Slide.stage
  split
  · exact ⟨Nat.cast_le.mpr (le_widened sound.even_width wide), le_rfl⟩
  · exact ⟨le_rfl, Nat.cast_le.mpr (le_widened sound.even_height high)⟩

theorem parallax_inside (sound : clip.Sound) (wide : clip.canvas.width ≤ maxWord)
    (high : clip.canvas.height ≤ maxWord) (p : Parallax)
    (usable : Seconds.isUsable p.speed = true)
    (lasts : (Seconds.numeral clip.duration).value ≠ 0) (from_start : 0 ≤ m.time) :
    ∃ v, (parallax clip p).view? c lens picture m = some v ∧ v.Inside := by
  have progress : IsShare (slideProgress clip p m.time) := by
    refine ⟨le_min zero_le_one ?_, min_le_left _ _⟩
    exact div_nonneg (mul_nonneg (rate_nonneg usable) from_start) sound.length_nonneg
  obtain ⟨across, down⟩ := p.slide.pan.shares_isShare progress
  obtain ⟨narrow, low⟩ := canvas_le_stage sound wide high p.slide
  exact ⟨_, view_parallax p lasts, View.placed_inside narrow low across down⟩

theorem wave_inside (wide : clip.canvas.width + 100 ≤ maxWord) (p : Cinemagraph)
    (repeats : (period clip p).value ≠ 0) :
    ∃ v, (wave clip p).view? c lens picture m = some v ∧ v.Inside := by
  have offset := waveOffset_le p
  refine ⟨_, view_wave p repeats (by omega), View.placed_inside ?_ le_rfl ?_ .half⟩
  · exact Nat.cast_le.mpr (Nat.le_add_right clip.canvas.width (2 * waveOffset p))
  · exact .swing (c.low _) (c.high _)

theorem breathe_inside (p : Cinemagraph) (repeats : (period clip p).value ≠ 0) :
    ∃ v, (breathe clip p).view? c lens picture m = some v ∧ v.Inside := by
  have swells : 1 ≤ swell c m clip p := by
    unfold swell
    nlinarith [amplitude_nonneg p, c.low (2 * c.pi * m.time / (period clip p).value)]
  refine ⟨_, view_breathe p repeats, View.placed_inside ?_ ?_ .half .half⟩
  · exact le_mul_of_one_le_right (Nat.cast_nonneg _) swells
  · exact le_mul_of_one_le_right (Nat.cast_nonneg _) swells

/-! ## Fragments -/

section

variable (wide : 0 ≤ picture.width) (high : 0 ≤ picture.height) (magnifies : ∀ z, 1 ≤ lens z)

include wide high magnifies

theorem kenBurns_inside (sound : clip.Sound) (clip_wide : clip.canvas.width ≤ maxWord)
    (clip_high : clip.canvas.height ≤ maxWord) (p : KenBurns)
    (lasts : (Seconds.numeral clip.duration).value ≠ 0) (first_frame : 0 ≤ m.frame)
    (last_frame : m.frame ≤ clip.frames) (from_start : 0 ≤ m.time)
    (to_end : m.time ≤ (Seconds.numeral clip.duration).value) :
    ∃ v, (kenBurns clip p.clamped).view? c lens picture m = some v ∧ v.Inside := by
  unfold kenBurns
  cases alone : p.clamped.directions.singlePan? with
  | none => exact zoomAndPan_inside wide high magnifies p.clamped first_frame last_frame
  | some pan =>
      have pans := DirectionSet.isPan_of_singlePan? alone
      exact singlePan_inside sound clip_wide clip_high p pans lasts from_start to_end

theorem cinemagraph_inside (sound : clip.Sound) (clip_wide : clip.canvas.width + 100 ≤ maxWord)
    (p : Cinemagraph) (repeats : (period clip p).value ≠ 0) :
    ∃ v, (cinemagraph clip p).view? c lens picture m = some v ∧ v.Inside := by
  unfold cinemagraph
  cases p.pulse with
  | subtleZoom =>
      exact centred_inside wide high magnifies _ (value?_subtleZoom p sound.plays repeats)
  | wave => exact wave_inside clip_wide p repeats
  | breathe => exact breathe_inside p repeats

theorem dollyZoom_inside {p : DollyZoom} {f : Fragment} (made : dollyZoom clip p = .ok f) :
    ∃ v, f.view? c lens picture m = some v ∧ v.Inside := by
  obtain ⟨a, b, rfl⟩ := dollyZoom_eq_ok made
  exact centred_inside wide high magnifies _ (value?_rampUp a b clip.frames_pos.ne')

end

/-- **No window leaves its picture.**  Whatever the effect and its parameters, a fragment that is
not a still shows a part of its picture at every moment of the clip, and the part lies in the
picture: where it zooms, under any factor of one or more; where it slides, because the
picture has been made no smaller than the clip along either axis. -/
theorem fragment_inside (clip : Clip Float) (effect : Effect)
    (wide : clip.sanitized.canvas.width ≤ 2 ^ 30) (high : clip.sanitized.canvas.height ≤ 2 ^ 30)
    (lasts : (Seconds.numeral clip.sanitized.duration).value ≠ 0)
    (repeats : ∀ p, effect = .cinemagraph p → ∀ seconds ∈ Seconds.usable? p.period,
      (Seconds.numeral seconds).value ≠ 0)
    (c : Circle) {lens : Rat → Rat} (magnifies : ∀ z, 1 ≤ lens z) {picture : Extent}
    (picture_wide : 0 ≤ picture.width) (picture_high : 0 ≤ picture.height) {m : Moment}
    (first_frame : 0 ≤ m.frame) (last_frame : m.frame ≤ clip.sanitized.frames)
    (from_start : 0 ≤ m.time)
    (to_end : m.time ≤ (Seconds.numeral clip.sanitized.duration).value)
    (moves : (fragment clip effect).value.family ≠ .passThrough) :
    ∃ v, (fragment clip effect).value.view? c lens picture m = some v ∧ v.Inside := by
  have sound := clip.sanitized_sound
  have wide_word : clip.sanitized.canvas.width + 100 ≤ maxWord := by
    unfold maxWord
    omega
  have high_word : clip.sanitized.canvas.height ≤ maxWord := by
    unfold maxWord
    omega
  rw [fragment_value] at moves ⊢
  cases effect with
  | kenBurns p =>
      change ∃ v, (build clip p.check.value).value.view? c lens picture m = some v ∧ _
      cases checked : p.check.value with
      | fallback f => exact centred_inside picture_wide picture_high magnifies _ (value?_num _)
      | effect e =>
          obtain ⟨-, rfl⟩ := KenBurns.check_eq_effect_iff.mp checked
          exact kenBurns_inside picture_wide picture_high magnifies sound (by omega) high_word p
            lasts first_frame last_frame from_start to_end
  | parallax p =>
      obtain ⟨q, checked, -, usable⟩ := Effect.check_parallax p
      rw [checked]
      exact parallax_inside sound (by omega) high_word q usable lasts from_start
  | cinemagraph p =>
      let q : Cinemagraph := { p with period := Seconds.usable? p.period }
      have period_ne : (period clip.sanitized q).value ≠ 0 := by
        unfold period
        split
        · rename_i seconds given
          exact repeats p rfl seconds given
        · exact lasts
      exact cinemagraph_inside picture_wide picture_high magnifies sound wide_word q period_ne
  | dollyZoom p =>
      change (build clip (.effect (.dollyZoom p))).value.family ≠ _ at moves
      change ∃ v, (build clip (.effect (.dollyZoom p))).value.view? c lens picture m = some v ∧ _
      cases made : dollyZoom clip.sanitized p with
      | error finding =>
          simp only [build, made] at moves
          exact absurd rfl moves
      | ok f =>
          simp only [build, made]
          exact dollyZoom_inside picture_wide picture_high magnifies made
  | still => exact absurd rfl moves

/-- The strongest wave there is, over the smallest clip, at its crest: the window touches the end
of its picture. -/
theorem crest_inside :
    let clip : Clip Float := ⟨0.0, ⟨3, 2⟩, 0⟩
    let wave : Effect := .cinemagraph ⟨1000.0, "center", .wave, some 0.7⟩
    ∃ v, (fragment clip wave).value.view? ⟨22 / 7, fun _ => 1, by norm_num, by norm_num⟩ (max 1)
        ⟨0, 0⟩ ⟨125, 5⟩ = some v ∧ v.Inside :=
  fragment_inside _ _ (by decide) (by decide) (by decide +kernel)
    (by
      rintro p same seconds given
      cases same
      obtain ⟨asked, -⟩ := Option.filter_eq_some_iff.mp given
      cases asked
      decide +kernel)
    _ (fun _ => le_max_left _ _) le_rfl le_rfl (by norm_num) (by decide +kernel) (by norm_num)
    (by decide +kernel) (by decide)

end Motion

end Montage
