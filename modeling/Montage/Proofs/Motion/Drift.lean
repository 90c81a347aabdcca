/-
# Montage.Proofs.Motion.Drift -- whether the middle of a window keeps to a direction

A window that slides keeps to its direction: the room beside it stays the same, and the share
of it that is over grows.  Under a zoom the room changes as well.  The middle of the window is
away from the middle of the picture by half of the room, times a share that grows in equal
steps, so it goes back where the room shrinks faster than the share grows.

From one frame to the next it does not go back if and only if the product of both factors is no
less than the first factor (`gain_le_succ_iff`).  Factors go in equal steps too, so that
product is the least at the end of a clip, unless the factors grow, where it is large
enough anyway.  So a zoom keeps to a direction if and only if its last step does.
-/
import Montage.Proofs.Motion.Ramp

namespace Montage

set_option autoImplicit false

/-! ## The middle of a view -/

/-- The middle of a view. -/
def View.middle (v : View) : Rat × Rat := (v.x + v.size.width / 2, v.y + v.size.height / 2)

/-- The middle of a picture. -/
def Extent.middle (picture : Extent) : Rat × Rat := (picture.width / 2, picture.height / 2)

/-- The side of a picture along the axis of a pan. -/
def Direction.side (picture : Extent) : Direction → Rat
  | .panLeft | .panRight => picture.width
  | _ => picture.height

/-- How far along a direction a place lies. -/
def Direction.along (place : Rat × Rat) : Direction → Rat
  | .panRight => place.1
  | .panLeft => -place.1
  | .panDown => place.2
  | .panUp => -place.2
  | .zoomIn | .zoomOut => 0

/-- A fragment keeps to a direction: something is seen at every moment of a clip, and the middle of
it never goes back. -/
def Fragment.KeepsTo (f : Fragment) (d : Direction) (c : Circle) (picture : Extent) (frames : Nat)
    (length : Rat) : Prop :=
  ∀ (j k : Nat) (s t : Rat), j ≤ k → k ≤ frames → 0 ≤ s → s ≤ t → t ≤ length →
    ∃ v w, f.view? c id picture ⟨j, s⟩ = some v ∧ f.view? c id picture ⟨k, t⟩ = some w
      ∧ d.along v.middle ≤ d.along w.middle

/-- In a picture that stays as large as it is, the middle of a window goes in its direction by the
part of the room that it has crossed. -/
theorem Direction.along_shares {pan : Direction} (pans : pan.isPan = true) (whole size : Extent)
    (progress : Rat) :
    pan.along (View.placed whole size (pan.shares progress)).middle
      = pan.along (View.placed whole size (pan.shares 0)).middle
        + (pan.side whole - pan.side size) * progress := by
  cases pan with
  | zoomIn | zoomOut => cases pans
  | panLeft | panRight | panUp | panDown =>
      simp only [along, side, View.middle, View.placed, shares]
      ring

/-- Under a zoom, the middle of the window is half of the room away from the middle of the
picture, times the share that it has drifted. -/
theorem DirectionSet.along_placed {s : DirectionSet} {pan : Direction} (holds : pan ∈ s.toList)
    (pans : pan.isPan = true) (picture : Extent) (zoom drift : Rat) :
    pan.along (View.placed picture (picture.under zoom) (s.shares drift)).middle
      = pan.along picture.middle
        + (pan.side picture - pan.side picture / zoom) * drift / 2 := by
  cases pan with
  | zoomIn | zoomOut => cases pans
  | panLeft =>
      have held : s.horizontal = some .left := horizontal_mem_iff.mp holds
      simp only [Direction.along, Direction.side, View.middle, View.placed, Extent.middle,
        Extent.under, shares, held, Option.elim, Horizontal.sign]
      ring
  | panRight =>
      have held : s.horizontal = some .right := horizontal_mem_iff.mp holds
      simp only [Direction.along, Direction.side, View.middle, View.placed, Extent.middle,
        Extent.under, shares, held, Option.elim, Horizontal.sign]
      ring
  | panUp =>
      have held : s.vertical = some .up := vertical_mem_iff.mp holds
      simp only [Direction.along, Direction.side, View.middle, View.placed, Extent.middle,
        Extent.under, shares, held, Option.elim, Vertical.sign]
      ring
  | panDown =>
      have held : s.vertical = some .down := vertical_mem_iff.mp holds
      simp only [Direction.along, Direction.side, View.middle, View.placed, Extent.middle,
        Extent.under, shares, held, Option.elim, Vertical.sign]
      ring

/-- A window keeps to the direction of its pan if the part of the way that is over never shrinks. -/
theorem Fragment.keepsTo_of_placed {f : Fragment} {pan : Direction} (pans : pan.isPan = true)
    {c : Circle} {picture : Extent} {whole size : Extent} {progress : Rat → Rat}
    (narrow : size.width ≤ whole.width) (low : size.height ≤ whole.height)
    (forward : Monotone progress)
    (seen : ∀ m, f.view? c id picture m
      = some (.placed whole size (pan.shares (progress m.time)))) (frames : Nat) (length : Rat) :
    f.KeepsTo pan c picture frames length := by
  intro j k s t _ _ _ le _
  have room : 0 ≤ pan.side whole - pan.side size := by
    cases pan <;> simp only [Direction.side, sub_nonneg] <;> assumption
  refine ⟨_, _, seen ⟨j, s⟩, seen ⟨k, t⟩, ?_⟩
  rw [Direction.along_shares pans, Direction.along_shares pans _ _ (progress t),
    add_le_add_iff_left]
  exact mul_le_mul_of_nonneg_left (forward le) room

/-- What is never seen keeps to no direction. -/
theorem Fragment.not_keepsTo {f : Fragment} {pan : Direction} {c : Circle} {picture : Extent}
    (unseen : ∀ m, f.view? c id picture m = none) (frames : Nat) {length : Rat}
    (lasts : 0 ≤ length) : ¬ f.KeepsTo pan c picture frames length := by
  intro keeps
  obtain ⟨v, w, seen, -⟩ := keeps 0 0 0 0 le_rfl (Nat.zero_le _) le_rfl le_rfl lasts
  cases (unseen _).symm.trans seen

/-! ## Steps of a zoom -/

namespace Motion

/-- Factors that go in equal steps. -/
def GoesEvenly (z : Nat → Rat) : Prop := ∃ step, ∀ k : Nat, z k = z 0 + step * k

/-- How far a window has drifted after so many steps, as a share of what it drifts in one step
over the whole of the room. -/
def gain (z : Nat → Rat) (k : Nat) : Rat := k * (1 - 1 / z k)

section

variable {z : Nat → Rat} {frames : Nat} (even : GoesEvenly z)

include even

/-- **One step does not go back if and only if** the product of the factors before and after it is
no less than the first one. -/
theorem gain_le_succ_iff {k : Nat} (before : 0 < z k) (after : 0 < z (k + 1)) :
    gain z k ≤ gain z (k + 1) ↔ z 0 ≤ z k * z (k + 1) := by
  obtain ⟨step, steps⟩ := even
  have difference : gain z (k + 1) - gain z k
      = (z k * z (k + 1) - z 0) / (z k * z (k + 1)) := by
    unfold gain
    field_simp
    rw [steps k, steps (k + 1)]
    push_cast
    ring
  rw [← sub_nonneg, difference, le_div_iff₀ (mul_pos before after), zero_mul, sub_nonneg]

/-- Where no step goes back, no run of steps does. -/
theorem gain_mono (positive : ∀ k ≤ frames, 0 < z k)
    (forward : ∀ k < frames, z 0 ≤ z k * z (k + 1)) {j k : Nat} (le : j ≤ k)
    (counted : k ≤ frames) : gain z j ≤ gain z k := by
  induction k, le using Nat.le_induction with
  | base => exact le_rfl
  | succ k _ ih =>
      have stays := (gain_le_succ_iff even (positive k (by omega)) (positive (k + 1) counted)).mpr
        (forward k (by omega))
      exact (ih (by omega)).trans stays

/-- If the last step does not go back, none does. -/
theorem forward_of_last (magnifies : ∀ k ≤ frames, 1 ≤ z k)
    (last : z 0 ≤ z (frames - 1) * z frames) {k : Nat} (before : k < frames) :
    z 0 ≤ z k * z (k + 1) := by
  obtain ⟨step, steps⟩ := even
  have now := magnifies k before.le
  have next := magnifies (k + 1) before
  rcases le_total 0 step with grows | shrinks
  · have started : z 0 ≤ z k := by
      rw [steps k]
      exact le_add_of_nonneg_right (mul_nonneg grows k.cast_nonneg)
    exact started.trans (le_mul_of_one_le_right (zero_le_one.trans now) next)
  · have later (i j : Nat) (le : i ≤ j) : z j ≤ z i := by
      rw [steps i, steps j]
      exact add_le_add le_rfl (mul_le_mul_of_nonpos_left (Nat.cast_le.mpr le) shrinks)
    have end_nonneg : 0 ≤ z frames := zero_le_one.trans (magnifies frames le_rfl)
    calc z 0 ≤ z (frames - 1) * z frames := last
      _ ≤ z k * z (k + 1) := mul_le_mul (later k _ (by omega)) (later (k + 1) _ before) end_nonneg
          (zero_le_one.trans now)

/-- **Steps never go back if and only if** the last one does not. -/
theorem gain_mono_iff (counted : 0 < frames) (magnifies : ∀ k ≤ frames, 1 ≤ z k) :
    (∀ j k, j ≤ k → k ≤ frames → gain z j ≤ gain z k) ↔ z 0 ≤ z (frames - 1) * z frames := by
  have positive (k : Nat) (le : k ≤ frames) : 0 < z k := zero_lt_one.trans_le (magnifies k le)
  constructor
  · intro runs
    obtain ⟨k, rfl⟩ := Nat.exists_eq_succ_of_ne_zero counted.ne'
    exact (gain_le_succ_iff even (positive k (by omega)) (positive (k + 1) le_rfl)).mp
      (runs k (k + 1) (by omega) le_rfl)
  · intro last j k le within
    have forward (k : Nat) (before : k < frames) : z 0 ≤ z k * z (k + 1) :=
      forward_of_last even magnifies last before
    exact gain_mono even positive forward le within

end

/-- The factors of a pan or zoom go in equal steps, which are none without a zoom. -/
theorem factor_goesEvenly (p : KenBurns) (frames : Nat) :
    GoesEvenly fun k => p.factor frames k := by
  by_cases zooms : p.directions.hasZoom = true
  · refine ⟨(p.last.value - p.first.value) / frames, fun k => ?_⟩
    simp only [KenBurns.factor, if_pos zooms, ramp]
    push_cast
    ring
  · refine ⟨0, fun k => ?_⟩
    simp only [KenBurns.factor, if_neg zooms, zero_mul, add_zero]

theorem factor_zero (p : KenBurns) (frames : Nat) : p.factor frames 0 = p.first.value := by
  unfold KenBurns.factor
  split
  · exact ramp_zero
  · rfl

variable {c : Circle} {picture : Extent} {clip : Clip Float} {length : Rat}

/-! ## Slides -/

theorem panProgress_mono (sound : clip.Sound) (p : KenBurns) : Monotone (panProgress clip p) := by
  intro s t le
  have faster := div_le_div_of_nonneg_right le sound.length_nonneg
  exact mul_le_mul_of_nonneg_right faster (strength_between p).1

theorem slideProgress_mono (sound : clip.Sound) {p : Parallax}
    (usable : Seconds.isUsable p.speed = true) : Monotone (slideProgress clip p) := by
  intro s t le
  have further := mul_le_mul_of_nonneg_left le (rate_nonneg usable)
  exact min_le_min le_rfl (div_le_div_of_nonneg_right further sound.length_nonneg)

theorem singlePan_keeps_iff (sound : clip.Sound) (wide : clip.canvas.width ≤ maxWord)
    (high : clip.canvas.height ≤ maxWord) (p : KenBurns) {pan : Direction}
    (pans : pan.isPan = true) (frames : Nat) (lasts : 0 ≤ length) :
    (singlePan clip p.clamped pan).KeepsTo pan c picture frames length
      ↔ (Seconds.numeral clip.duration).value ≠ 0 := by
  constructor
  · intro keeps zero
    exact Fragment.not_keepsTo (fun m => view_singlePan_of_zero _ pans zero) frames lasts keeps
  · intro nonzero
    obtain ⟨narrow, low⟩ := canvas_le_panStage sound wide high p
    exact Fragment.keepsTo_of_placed pans narrow low (panProgress_mono sound p.clamped)
      (fun m => view_singlePan _ pans nonzero) frames length

theorem parallax_keeps_iff (sound : clip.Sound) (wide : clip.canvas.width ≤ maxWord)
    (high : clip.canvas.height ≤ maxWord) {p : Parallax} (usable : Seconds.isUsable p.speed = true)
    (frames : Nat) (lasts : 0 ≤ length) :
    (parallax clip p).KeepsTo p.slide.pan c picture frames length
      ↔ (Seconds.numeral clip.duration).value ≠ 0 := by
  constructor
  · intro keeps zero
    exact Fragment.not_keepsTo (fun m => view_parallax_of_zero _ zero) frames lasts keeps
  · intro nonzero
    obtain ⟨narrow, low⟩ := canvas_le_stage sound wide high p.slide
    exact Fragment.keepsTo_of_placed p.slide.isPan_pan narrow low (slideProgress_mono sound usable)
      (fun m => view_parallax _ nonzero) frames length

/-! ## Pans under a zoom -/

/-- What is seen under a zoom has drifted by what has been gained so far, at the pace of one step
over the whole of the room. -/
theorem exists_view_zoomAndPan (p : KenBurns) {pan : Direction}
    (holds : pan ∈ p.directions.toList) (pans : pan.isPan = true) {k : Nat}
    (nonzero : p.factor clip.frames k ≠ 0) (t : Rat) :
    ∃ v, (zoomAndPan clip p).view? c id picture ⟨k, t⟩ = some v ∧ pan.along v.middle
      = pan.along picture.middle + pan.side picture * p.strength / clip.frames / 2
          * gain (fun k => p.factor clip.frames k) k := by
  refine ⟨_, view_zoomAndPan p clip.frames_pos.ne' nonzero, ?_⟩
  rw [DirectionSet.along_placed holds pans]
  simp only [gain, id]
  ring

/-- A pan under a zoom keeps to its direction if and only if its last step does, or it has no
strength. -/
theorem zoomAndPan_keeps_iff (p : KenBurns) {pan : Direction} (holds : pan ∈ p.directions.toList)
    (pans : pan.isPan = true) (magnifies : ∀ k ≤ clip.frames, 1 ≤ p.factor clip.frames k)
    (wide : 0 < picture.width) (high : 0 < picture.height) (lasts : 0 ≤ length) :
    (zoomAndPan clip p).KeepsTo pan c picture clip.frames length
      ↔ p.strength = 0 ∨ p.first.value
          ≤ p.factor clip.frames (clip.frames - 1 : Nat) * p.factor clip.frames clip.frames := by
  have counted := clip.frames_pos
  have strength_nonneg : 0 ≤ p.strength := (strength_between p).1
  have side_pos : 0 < pan.side picture := by
    cases pan <;> assumption
  have nonzero (k : Nat) (le : k ≤ clip.frames) : p.factor clip.frames k ≠ 0 :=
    (zero_lt_one.trans_le (magnifies k le)).ne'
  have runs := gain_mono_iff (factor_goesEvenly p clip.frames) counted magnifies
  rw [Nat.cast_zero, factor_zero] at runs
  rw [← runs]
  constructor
  · intro keeps
    rcases strength_nonneg.eq_or_lt with weak | strong
    · exact .inl weak.symm
    · right
      intro j k le within
      obtain ⟨v, w, at_j, at_k, further⟩ := keeps j k 0 0 le within le_rfl le_rfl lasts
      obtain ⟨v', seen_j, along_j⟩ :=
        exists_view_zoomAndPan p holds pans (nonzero j (le.trans within)) 0
      obtain ⟨w', seen_k, along_k⟩ := exists_view_zoomAndPan p holds pans (nonzero k within) 0
      cases at_j.symm.trans seen_j
      cases at_k.symm.trans seen_k
      rw [along_j, along_k, add_le_add_iff_left] at further
      exact le_of_mul_le_mul_left further (by positivity)
  · intro forward j k s t le within _ _ _
    obtain ⟨v, seen_j, along_j⟩ :=
      exists_view_zoomAndPan p holds pans (nonzero j (le.trans within)) s
    obtain ⟨w, seen_k, along_k⟩ := exists_view_zoomAndPan p holds pans (nonzero k within) t
    refine ⟨v, w, seen_j, seen_k, ?_⟩
    rw [along_j, along_k, add_le_add_iff_left]
    rcases forward with weak | mono
    · simp [weak]
    · exact mul_le_mul_of_nonneg_left (mono j k le within) (by positivity)

/-! ## Pans and parallaxes -/

/-- **Whether what moves keeps to its direction**, from the first frame of a clip to the last.  A
pan on its own does, and so does a parallax, unless the length of the clip is written as
nothing; a pan together with a zoom or another pan does if and only if its last step does, or it
has no strength, as long as no factor is less than one. -/
theorem pans_keep_iff (clip : Clip Float) (wide : clip.sanitized.canvas.width ≤ maxWord)
    (high : clip.sanitized.canvas.height ≤ maxWord)
    (length_eq : exact clip.sanitized.duration = some length) (c : Circle)
    (picture_wide : 0 < picture.width) (picture_high : 0 < picture.height) :
    (∀ p e pan, p.check.value = .effect e → pan ∈ p.directions.toList → pan.isPan = true →
      (p.directions.singlePan? = some pan →
        ((fragment clip (.kenBurns p)).value.KeepsTo pan c picture clip.sanitized.frames length
          ↔ (Seconds.numeral clip.sanitized.duration).value ≠ 0))
      ∧ (p.directions.singlePan? = none →
        (∀ k ≤ clip.sanitized.frames, 1 ≤ p.clamped.factor clip.sanitized.frames k) →
        ((fragment clip (.kenBurns p)).value.KeepsTo pan c picture clip.sanitized.frames length
          ↔ p.clamped.strength = 0 ∨ p.clamped.first.value
              ≤ p.clamped.factor clip.sanitized.frames (clip.sanitized.frames - 1 : Nat)
                * p.clamped.factor clip.sanitized.frames clip.sanitized.frames)))
    ∧ ∀ p : Parallax,
      (fragment clip (.parallax p)).value.KeepsTo p.slide.pan c picture clip.sanitized.frames length
        ↔ (Seconds.numeral clip.sanitized.duration).value ≠ 0 := by
  have sound := clip.sanitized_sound
  have lasts : 0 ≤ length := (sound.length_pos length_eq).le
  constructor
  · intro p e pan kept holds pans
    rw [fragment_of_kept kept]
    constructor
    · intro alone
      have alone' : p.clamped.directions.singlePan? = some pan := alone
      rw [kenBurns, alone']
      exact singlePan_keeps_iff sound wide high p pans _ lasts
    · intro together magnifies
      rw [kenBurns_of_none (p := p.clamped) together]
      exact zoomAndPan_keeps_iff p.clamped holds pans magnifies picture_wide picture_high lasts
  · intro p
    obtain ⟨q, checked, same, usable⟩ := Effect.check_parallax p
    have built : (fragment clip (.parallax p)).value = parallax clip.sanitized q := by
      rw [fragment_value, checked]
      rfl
    rw [built, ← same]
    exact parallax_keeps_iff sound wide high usable _ lasts

/-- A zoom outwards that is slow enough for a pan to the right. -/
theorem leisurely_keeps :
    let clip : Clip Float := .standard
    let p : KenBurns := ⟨10.0, 1.1, 1.05, { zoom := some .outward, horizontal := some .right }⟩
    (fragment clip (.kenBurns p)).value.KeepsTo .panRight
      ⟨22 / 7, fun _ => 0, by norm_num, by norm_num⟩ ⟨4000, 3000⟩ clip.sanitized.frames 5 :=
  (((pans_keep_iff _ (by decide) (by decide) (by decide +kernel) _ (by norm_num) (by norm_num)).1
    _ _ .panRight (KenBurns.check_eq_effect_iff.mpr ⟨by decide +kernel, rfl⟩) (by decide) rfl).2
      rfl fun _ le => le_factor (by decide +kernel) (by decide +kernel) (Clip.frames_pos _)
        le).mpr (.inr (by decide +kernel))

/-- A zoom outwards to the whole picture takes the window back to its middle, from where a pan to
the right had brought it. -/
theorem unwound_goes_back :
    let clip : Clip Float := .standard
    ∃ p e, p.check.value = .effect e ∧ .panRight ∈ p.directions.toList
      ∧ (∀ k ≤ clip.sanitized.frames, 1 ≤ p.clamped.factor clip.sanitized.frames k)
      ∧ ¬ (fragment clip (.kenBurns p)).value.KeepsTo .panRight
          ⟨22 / 7, fun _ => 0, by norm_num, by norm_num⟩ ⟨4000, 3000⟩ clip.sanitized.frames 5 := by
  intro clip
  let p : KenBurns := ⟨5.0, 1.5, 1.0, { zoom := some .outward, horizontal := some .right }⟩
  refine ⟨p, _, KenBurns.check_eq_effect_iff.mpr ⟨by decide +kernel, rfl⟩, by decide,
    fun _ le => le_factor (by decide +kernel) (by decide +kernel) (Clip.frames_pos _) le, ?_⟩
  intro keeps
  let c : Circle := ⟨22 / 7, fun _ => 0, by norm_num, by norm_num⟩
  obtain ⟨v, w, before, after, further⟩ :=
    keeps 62 125 0 0 (by decide) (by decide +kernel) le_rfl le_rfl (by norm_num)
  have away : ((fragment clip (.kenBurns p)).value.view? c id ⟨4000, 3000⟩ ⟨(62 : Nat), 0⟩).map
      View.middle = some (657248 / 313, 1500) := by
    decide +kernel
  have back : ((fragment clip (.kenBurns p)).value.view? c id ⟨4000, 3000⟩ ⟨(125 : Nat), 0⟩).map
      View.middle = some (2000, 1500) := by
    decide +kernel
  rw [before, Option.map_some, Option.some_inj] at away
  rw [after, Option.map_some, Option.some_inj] at back
  rw [away, back] at further
  exact absurd further (by norm_num [Direction.along])

end Motion

end Montage
