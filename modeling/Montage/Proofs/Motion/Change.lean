/-
# Montage.Proofs.Motion.Change -- whether what is kept moves

A pan or zoom that would not move is replaced by a constant zoom before anything is built
from it, if one of three reasons is found.  They are looked for in the parameters, but what moves
is decided later: a pan under a zoom has only the room that the zoom leaves, a single pan only
the room that its picture has gained, and scales and strengths are written with six places.

Here is what a pan or zoom moves by, after all of that.  Two views of it differ if and only if the
factor changes, or the window goes through a room that is not empty.
-/
import Montage.Proofs.Motion.Drift

namespace Montage

set_option autoImplicit false

/-- A fragment moves: at two moments, up to a last frame and within a length, it shows different
parts of a picture. -/
def Fragment.Moves (f : Fragment) (c : Circle) (picture : Extent) (last : Nat) (length : Rat) :
    Prop :=
  ∃ (j k : Nat) (s t : Rat), (j ≤ last ∧ k ≤ last) ∧ (0 ≤ s ∧ s ≤ length)
    ∧ (0 ≤ t ∧ t ≤ length) ∧ ∃ v w, f.view? c id picture ⟨j, s⟩ = some v
      ∧ f.view? c id picture ⟨k, t⟩ = some w ∧ v ≠ w

/-- What always looks as it does at the start does not move. -/
theorem Fragment.not_moves {f : Fragment} {c : Circle} {picture : Extent} {last : Nat}
    {length : Rat} (still : ∀ (k : Nat) (t : Rat), k ≤ last →
      f.view? c id picture ⟨k, t⟩ = f.view? c id picture ⟨(0 : Nat), 0⟩) :
    ¬ f.Moves c picture last length := by
  rintro ⟨j, k, s, t, ⟨hj, hk⟩, -, -, v, w, first, second, differ⟩
  have same : some v = some w :=
    calc some v = f.view? c id picture ⟨(0 : Nat), 0⟩ := first.symm.trans (still j s hj)
      _ = some w := (still k t hk).symm.trans second
  exact differ (Option.some.inj same)

namespace Motion

variable {c : Circle} {picture : Extent} {clip : Clip Float} {last : Nat} {length : Rat}
  {p : KenBurns} {e : Effect}

/-! ## Slides -/

/-- Where there is no room along its axis, a window cannot go anywhere. -/
theorem placed_of_no_room {pan : Direction} (pans : pan.isPan = true) {whole size : Extent}
    (full : pan.side size = pan.side whole) (progress : Rat) :
    View.placed whole size (pan.shares progress) = View.placed whole size (pan.shares 0) := by
  cases pan with
  | zoomIn | zoomOut => cases pans
  | panLeft | panRight | panUp | panDown =>
      simp only [Direction.side] at full
      simp [View.placed, Direction.shares, full]

theorem singlePan_moves_iff (p : KenBurns) {pan : Direction} (pans : pan.isPan = true)
    (lasts : 0 < length) :
    (singlePan clip p pan).Moves c picture last length
      ↔ p.strength ≠ 0 ∧ (Seconds.numeral clip.duration).value ≠ 0
        ∧ pan.side clip.canvas.extent ≠ pan.side (p.stage clip) := by
  constructor
  · intro moves
    have nonzero : (Seconds.numeral clip.duration).value ≠ 0 := by
      intro zero
      refine Fragment.not_moves (fun k t _ => ?_) moves
      rw [view_singlePan_of_zero p pans zero, view_singlePan_of_zero p pans zero]
    refine ⟨?strength, nonzero, ?room⟩
    case strength =>
      intro weak
      refine Fragment.not_moves (fun k t _ => ?_) moves
      rw [view_singlePan p pans nonzero, view_singlePan p pans nonzero, panProgress, panProgress,
        weak, mul_zero, mul_zero]
    case room =>
      intro full
      refine Fragment.not_moves (fun k t _ => ?_) moves
      rw [view_singlePan p pans nonzero, view_singlePan p pans nonzero,
        placed_of_no_room pans full, placed_of_no_room pans full (panProgress clip p 0)]
  · rintro ⟨strong, nonzero, room⟩
    refine ⟨0, 0, 0, length, ⟨last.zero_le, last.zero_le⟩, ⟨le_rfl, lasts.le⟩, ⟨lasts.le, le_rfl⟩,
      _, _, view_singlePan p pans nonzero, view_singlePan p pans nonzero, ?_⟩
    intro same
    have crossed : panProgress clip p length ≠ 0 :=
      mul_ne_zero (div_ne_zero lasts.ne' nonzero) strong
    have stays := congrArg (fun v => pan.along v.middle) same
    have start : panProgress clip p 0 = 0 := by simp [panProgress]
    rw [start, Direction.along_shares pans _ _ (panProgress clip p length), left_eq_add] at stays
    exact mul_ne_zero (sub_ne_zero.mpr room.symm) crossed stays

/-! ## Zooms -/

/-- A zoom between scales that are written alike stays as it is. -/
theorem factor_of_constant (p : KenBurns) (frames : Nat) (frame : Rat)
    (constant : p.directions.hasZoom = true → p.first.value = p.last.value) :
    p.factor frames frame = p.first.value := by
  unfold KenBurns.factor
  split
  · rename_i zooms
    rw [ramp, constant zooms, sub_self, zero_mul, zero_div, add_zero]
  · rfl

/-- The first step of a zoom shows that there is one. -/
theorem factor_zero_ne_one (p : KenBurns) {frames : Nat} (counted : frames ≠ 0)
    (zooms : p.directions.hasZoom = true) (changes : p.first.value ≠ p.last.value) :
    p.factor frames 0 ≠ p.factor frames 1 := by
  rw [KenBurns.factor, KenBurns.factor, if_pos zooms, if_pos zooms]
  intro same
  have step : (p.last.value - p.first.value) * ((1 - 0) / frames) = 0 := by
    rw [← ramp_sub, same, sub_self]
  have nonzero : ((1 : Rat) - 0) / frames ≠ 0 :=
    div_ne_zero (by norm_num) (Nat.cast_ne_zero.mpr counted)
  exact mul_ne_zero (sub_ne_zero.mpr changes.symm) nonzero step

/-- Under another factor a window has another size. -/
theorem placed_ne_of_zoom {zoom zoom' : Rat} (changes : zoom ≠ zoom') (wide : 0 < picture.width)
    (shares shares' : Rat × Rat) :
    View.placed picture (picture.under zoom) shares
      ≠ View.placed picture (picture.under zoom') shares' := by
  intro same
  have widths : picture.width / zoom = picture.width / zoom' :=
    congrArg (fun v => v.size.width) same
  rw [div_eq_mul_inv, div_eq_mul_inv, mul_right_inj' wide.ne', inv_inj] at widths
  exact changes widths

/-- Where a zoom leaves room, a window that drifts gets somewhere else. -/
theorem placed_ne_of_pan {s : DirectionSet} (pans : s.hasPan = true) {zoom drift : Rat}
    (positive : 0 < zoom) (beside : zoom ≠ 1) (drifts : drift ≠ 0) (wide : 0 < picture.width)
    (high : 0 < picture.height) :
    View.placed picture (picture.under zoom) (s.shares drift)
      ≠ View.placed picture (picture.under zoom) (s.shares 0) := by
  obtain ⟨pan, holds, isPan⟩ := DirectionSet.hasPan_iff.mp pans
  have side_pos : 0 < pan.side picture := by
    cases pan <;> assumption
  have room : pan.side picture - pan.side picture / zoom ≠ 0 := by
    intro full
    have whole := (sub_eq_zero.mp full).symm
    rw [div_eq_iff positive.ne', left_eq_mul₀ side_pos.ne'] at whole
    exact beside whole
  intro same
  have stays := congrArg (fun v : View => pan.along v.middle) same
  simp only [DirectionSet.along_placed holds isPan, mul_zero, zero_div, add_zero,
    add_eq_left] at stays
  exact div_ne_zero (mul_ne_zero room drifts) two_ne_zero stays

/-- Where a pan has no strength, or no room, or there is none, a window stays where it is. -/
theorem placed_of_no_pan {s : DirectionSet} {zoom strength : Rat}
    (still : s.hasPan = true → strength ≠ 0 → zoom = 1) (picture : Extent) (part : Rat) :
    View.placed picture (picture.under zoom) (s.shares (strength * part))
      = View.placed picture (picture.under zoom) (s.shares 0) := by
  by_cases weak : strength = 0
  · rw [weak, zero_mul]
  by_cases pans : s.hasPan = true
  · simp [View.placed, Extent.under, still pans weak]
  · have none : s.horizontal = none ∧ s.vertical = none := by
      simpa [DirectionSet.hasPan] using pans
    simp [DirectionSet.shares, none]

theorem zoomAndPan_moves_iff (p : KenBurns)
    (positive : ∀ k ≤ last, 0 < p.factor clip.frames k) (several : 1 ≤ last)
    (wide : 0 < picture.width) (high : 0 < picture.height) (lasts : 0 ≤ length) :
    (zoomAndPan clip p).Moves c picture last length
      ↔ p.directions.hasZoom = true ∧ p.first.value ≠ p.last.value
        ∨ p.directions.hasPan = true ∧ p.strength ≠ 0 ∧ p.first.value ≠ 1 := by
  have counted : clip.frames ≠ 0 := clip.frames_pos.ne'
  have seen (k : Nat) (t : Rat) (le : k ≤ last) :
      (zoomAndPan clip p).view? c id picture ⟨k, t⟩
        = some (.placed picture (picture.under (p.factor clip.frames k))
            (p.directions.shares (p.strength * (k / clip.frames)))) :=
    view_zoomAndPan p counted (positive k le).ne'
  -- The first two frames tell all there is to tell.
  have moves_of_ne (differ : View.placed picture (picture.under (p.factor clip.frames (0 : Nat)))
        (p.directions.shares (p.strength * ((0 : Nat) / clip.frames)))
      ≠ .placed picture (picture.under (p.factor clip.frames (1 : Nat)))
        (p.directions.shares (p.strength * ((1 : Nat) / clip.frames)))) :
      (zoomAndPan clip p).Moves c picture last length :=
    ⟨0, 1, 0, 0, ⟨last.zero_le, several⟩, ⟨le_rfl, lasts⟩, ⟨le_rfl, lasts⟩, _, _,
      seen 0 0 last.zero_le, seen 1 0 several, differ⟩
  by_cases constant : p.directions.hasZoom = true → p.first.value = p.last.value
  · have factor (k : Nat) : p.factor clip.frames k = p.first.value :=
      factor_of_constant p clip.frames k constant
    constructor
    · intro moves
      by_contra neither
      push Not at neither
      refine Fragment.not_moves (fun k t before => ?_) moves
      rw [seen k t before, seen 0 0 last.zero_le, factor, factor, placed_of_no_pan neither.2,
        placed_of_no_pan neither.2 picture ((0 : Nat) / clip.frames)]
    · rintro (⟨zooms, changes⟩ | ⟨pans, strong, beside⟩)
      · exact absurd (constant zooms) changes
      · have first_pos : 0 < p.first.value := factor 0 ▸ positive 0 last.zero_le
        have drifts : p.strength * ((1 : Nat) / clip.frames) ≠ 0 :=
          mul_ne_zero strong (div_ne_zero (by norm_num) (Nat.cast_ne_zero.mpr counted))
        apply moves_of_ne
        rw [factor, factor, Nat.cast_zero, zero_div, mul_zero]
        exact (placed_ne_of_pan pans first_pos beside drifts wide high).symm
  · push Not at constant
    obtain ⟨zooms, changes⟩ := constant
    have differ : p.factor clip.frames (0 : Nat) ≠ p.factor clip.frames (1 : Nat) := by
      rw [Nat.cast_zero, Nat.cast_one]
      exact factor_zero_ne_one p counted zooms changes
    constructor
    · intro _
      exact .inl ⟨zooms, changes⟩
    · intro _
      exact moves_of_ne (placed_ne_of_zoom differ wide _ _)

/-! ## Pans and zooms -/

/-- **What a pan or zoom that is kept moves by.**  A single pan moves if and only if it has a
strength, the length of the clip is not written as nothing, and its picture has been made
larger along its axis.  Anything else moves if and only if it zooms between scales that are not
written alike, or it pans with a strength, under a factor that is not one at first.  Whether the
frame behind the last is counted as well does not matter, if there are two. -/
theorem kenBurns_moves_iff (clip : Clip Float) (kept : p.check.value = .effect e)
    (several : 1 ≤ last) (counted : last ≤ clip.sanitized.frames)
    (length_eq : exact clip.sanitized.duration = some length) (c : Circle)
    (wide : 0 < picture.width) (high : 0 < picture.height) :
    (fragment clip (.kenBurns p)).value.Moves c picture last length
      ↔ match p.directions.singlePan? with
        | some pan => p.clamped.strength ≠ 0 ∧ (Seconds.numeral clip.sanitized.duration).value ≠ 0
            ∧ pan.side clip.sanitized.canvas.extent ≠ pan.side (p.clamped.stage clip.sanitized)
        | none => p.directions.hasZoom = true ∧ p.clamped.first.value ≠ p.clamped.last.value
            ∨ p.directions.hasPan = true ∧ p.clamped.strength ≠ 0 ∧ p.clamped.first.value ≠ 1 := by
  have lasts := clip.sanitized_sound.length_pos length_eq
  rw [fragment_of_kept kept]
  cases alone : p.directions.singlePan? with
  | some pan =>
      have alone' : p.clamped.directions.singlePan? = some pan := alone
      rw [kenBurns, alone']
      exact singlePan_moves_iff p.clamped (DirectionSet.isPan_of_singlePan? alone) lasts
  | none =>
      rw [kenBurns_of_none (p := p.clamped) alone]
      obtain ⟨first, final⟩ := tenth_le_scales p
      have positive (k : Nat) (le : k ≤ last) : 0 < p.clamped.factor clip.sanitized.frames k := by
        have low := le_factor first final clip.sanitized.frames_pos (le.trans counted)
        linarith
      exact zoomAndPan_moves_iff p.clamped positive several wide high lasts.le

/-- A single pan between scales that are nearly the same: its picture is one pair of pixels wider
than the clip. -/
theorem sliver_moves :
    let clip : Clip Float := .standard
    let p : KenBurns := ⟨0.1, 1.0, 1.001, { horizontal := some .left }⟩
    (fragment clip (.kenBurns p)).value.Moves ⟨22 / 7, fun _ => 0, by norm_num, by norm_num⟩
      ⟨4000, 3000⟩ 124 5 :=
  (kenBurns_moves_iff _ (KenBurns.check_eq_effect_iff.mpr ⟨by decide +kernel, rfl⟩)
    (by decide) (by decide +kernel) (by decide +kernel) _ (by norm_num) (by norm_num)).mpr
      ⟨by decide +kernel, by decide +kernel, by decide +kernel⟩

/-- A pan along both axes that is asked for without scales is kept, although it shows the whole
picture all the time. -/
theorem diagonal_default_still :
    ∃ p e, (Settings.effect
          { label := "Ken Burns", direction := some (.one "pan-up,pan-right") }).value
        = some (.kenBurns p)
      ∧ p.check.value = .effect e ∧ 2 ≤ (Clip.standard : Clip Float).sanitized.frames
      ∧ ∀ (c : Circle) (picture : Extent),
        ¬ (fragment (.standard : Clip Float) (.kenBurns p)).value.Moves c picture
            (Clip.standard : Clip Float).sanitized.frames 5 := by
  let p : KenBurns := ⟨1.0, 1.0, 1.0 + 0.1, { horizontal := some .right, vertical := some .up }⟩
  have kept : p.check.value = .effect (.kenBurns p.clamped) :=
    KenBurns.check_eq_effect_iff.mpr ⟨by decide +kernel, rfl⟩
  refine ⟨p, _, by rfl, kept, by decide +kernel, fun c picture => ?_⟩
  have unzoomed (frame : Rat) :
      id (p.clamped.factor (Clip.standard : Clip Float).sanitized.frames frame) = 1 :=
    (factor_of_constant p.clamped _ _ fun zooms => absurd zooms Bool.false_ne_true).trans
      (by decide +kernel)
  refine Fragment.not_moves fun k t _ => ?_
  rw [fragment_of_kept kept, kenBurns_of_none (p := p.clamped) rfl,
    view_zoomAndPan _ (Clip.frames_pos _).ne' (by rw [unzoomed]; exact one_ne_zero),
    view_zoomAndPan _ (Clip.frames_pos _).ne' (by rw [unzoomed]; exact one_ne_zero),
    unzoomed, unzoomed, placed_of_no_pan fun _ _ => rfl,
    placed_of_no_pan (fun _ _ => rfl) picture (_ / _)]

end Motion

end Montage
