/-
# Montage.Proofs.Motion.Ramp -- which way a zoom goes

A zoom inwards and a zoom outwards are written as two formulas, and both have one value: they go
in equal steps from the first scale to the last.  So it is the scales that decide which way
a zoom goes, and not the direction that it was asked to go in.  It goes in its direction
if and only if its scales, as they are written, are in the order that the direction says.
-/
import Montage.Proofs.Direction
import Montage.Proofs.Motion.Inside

namespace Montage

set_option autoImplicit false

/-! ## Ramps -/

namespace Motion

variable {a b : Numeral} {frames : Nat}

theorem ramp_zero : ramp a b frames 0 = a.value := by simp [ramp]

theorem ramp_frames (counted : 0 < frames) : ramp a b frames frames = b.value := by
  have nonzero : (frames : Rat) ≠ 0 := by exact_mod_cast counted.ne'
  rw [ramp, mul_div_cancel_right₀ _ nonzero, add_sub_cancel]

/-- A ramp goes in equal steps. -/
theorem ramp_sub (x y : Rat) :
    ramp a b frames y - ramp a b frames x = (b.value - a.value) * ((y - x) / frames) := by
  unfold ramp
  ring

theorem ramp_mono (grows : a.value ≤ b.value) {x y : Rat} (le : x ≤ y) :
    ramp a b frames x ≤ ramp a b frames y := by
  rw [← sub_nonneg, ramp_sub]
  have nonneg : 0 ≤ (y - x) / frames := div_nonneg (sub_nonneg.mpr le) frames.cast_nonneg
  exact mul_nonneg (sub_nonneg.mpr grows) nonneg

theorem ramp_anti (shrinks : b.value ≤ a.value) {x y : Rat} (le : x ≤ y) :
    ramp a b frames y ≤ ramp a b frames x := by
  rw [← sub_nonpos, ramp_sub]
  have nonneg : 0 ≤ (y - x) / frames := div_nonneg (sub_nonneg.mpr le) frames.cast_nonneg
  exact mul_nonpos_of_nonpos_of_nonneg (sub_nonpos.mpr shrinks) nonneg

/-- Up to its last frame a ramp stays above what lies below both of its ends. -/
theorem le_ramp {low x : Rat} (first : low ≤ a.value) (last : low ≤ b.value) (counted : 0 < frames)
    (from_start : 0 ≤ x) (to_end : x ≤ frames) : low ≤ ramp a b frames x := by
  rcases le_total a.value b.value with grows | shrinks
  · calc low ≤ ramp a b frames 0 := by rwa [ramp_zero]
      _ ≤ ramp a b frames x := ramp_mono grows from_start
  · calc low ≤ ramp a b frames frames := by rwa [ramp_frames counted]
      _ ≤ ramp a b frames x := ramp_anti shrinks to_end

/-- Up to the last frame the factor stays above what lies below both scales. -/
theorem le_factor {p : KenBurns} {low : Rat} (first : low ≤ p.first.value)
    (last : low ≤ p.last.value) (counted : 0 < frames) {k : Nat} (le : k ≤ frames) :
    low ≤ p.factor frames k := by
  unfold KenBurns.factor
  split
  · exact le_ramp first last counted k.cast_nonneg (Nat.cast_le.mpr le)
  · exact first

end Motion

/-! ## Directions of zooms -/

/-- From one value to a later one, a zoom goes the way that it says. -/
def Zoom.Goes {α : Type} [LE α] : Zoom → α → α → Prop
  | .inward, a, b => a ≤ b
  | .outward, a, b => b ≤ a

/-- A fragment zooms in a direction: it asks for a factor at every frame up to a last one, and
never goes back. -/
def Fragment.ZoomsTo (f : Fragment) (z : Zoom) (frames : Nat) : Prop :=
  ∀ (c : Circle) (picture : Extent) (j k : Nat) (s t : Rat), j ≤ k → k ≤ frames →
    ∃ a b, f.zoom? c picture ⟨j, s⟩ = some a ∧ f.zoom? c picture ⟨k, t⟩ = some b ∧ z.Goes a b

/-- A set that holds a zoom holds no single pan. -/
theorem DirectionSet.singlePan?_of_zoom {s : DirectionSet} {z : Zoom} (zooms : s.zoom = some z) :
    s.singlePan? = none := by
  simp [singlePan?, zooms]

/-- Doubles are written in their order, or alike. -/
theorem Numeral.value_ofFloat_le_iff {x y : Float} {p q : Rat} (hx : exact x = some p)
    (hy : exact y = some q) :
    (ofFloat x).value ≤ (ofFloat y).value ↔ x ≤ y ∨ ofFloat x = ofFloat y := by
  rw [le_iff_exact hx hy, ofFloat_of_exact hx, ofFloat_of_exact hy]
  constructor
  · intro written
    rcases le_or_gt p q with le | less
    · exact .inl le
    · have back := value_ofRat_mono less.le
      exact .inr (ofRat_inj_of_value (le_antisymm written back))
  · rintro (le | alike)
    · exact value_ofRat_mono le
    · exact (congrArg value alike).le

/-- The scales are written in the order that a zoom says if they are in it, or are written alike. -/
theorem Zoom.goes_written (z : Zoom) {x y : Float} {p q : Rat} (hx : exact x = some p)
    (hy : exact y = some q) :
    z.Goes (Numeral.ofFloat x).value (Numeral.ofFloat y).value
      ↔ z.Goes x y ∨ Numeral.ofFloat x = Numeral.ofFloat y := by
  cases z with
  | inward => exact Numeral.value_ofFloat_le_iff hx hy
  | outward => exact (Numeral.value_ofFloat_le_iff hy hx).trans (or_congr_right eq_comm)

namespace Motion

variable {clip : Clip Float} {p : KenBurns} {e : Effect}

/-- A pan or zoom that is kept is built from its scales within their bounds. -/
theorem fragment_of_kept (kept : p.check.value = .effect e) :
    (fragment clip (.kenBurns p)).value = kenBurns clip.sanitized p.clamped := by
  obtain ⟨-, rfl⟩ := KenBurns.check_eq_effect_iff.mp kept
  change (build clip p.check.value).value = _
  rw [kept]
  rfl

theorem kenBurns_of_none {clip : Clip Float} (together : p.directions.singlePan? = none) :
    kenBurns clip p = zoomAndPan clip p := by
  rw [kenBurns, together]

/-- **A zoom that is kept goes in its direction if and only if its scales do**, within their
bounds and as they are written: it asks for the factors of a ramp from the first scale to
the last, whichever direction it has. -/
theorem kenBurns_zooms_iff (clip : Clip Float) (kept : p.check.value = .effect e) {z : Zoom}
    (zooms : p.directions.zoom = some z) :
    (∀ (c : Circle) (picture : Extent) (m : Moment),
        (fragment clip (.kenBurns p)).value.zoom? c picture m
          = some (ramp (.ofFloat (clampScale p.startScale)) (.ofFloat (clampScale p.endScale))
              clip.sanitized.frames m.frame))
      ∧ ((fragment clip (.kenBurns p)).value.ZoomsTo z clip.sanitized.frames
          ↔ z.Goes (clampScale p.startScale) (clampScale p.endScale)
            ∨ Numeral.ofFloat (clampScale p.startScale)
                = Numeral.ofFloat (clampScale p.endScale)) := by
  have counted := clip.sanitized.frames_pos
  have factors (c : Circle) (picture : Extent) (m : Moment) :
      (fragment clip (.kenBurns p)).value.zoom? c picture m
        = some (ramp p.clamped.first p.clamped.last clip.sanitized.frames m.frame) := by
    have zooms' : p.clamped.directions.zoom = some z := zooms
    rw [fragment_of_kept kept, kenBurns_of_none (DirectionSet.singlePan?_of_zoom zooms'),
      zoom_zoomAndPan _ counted.ne', KenBurns.factor, DirectionSet.hasZoom, zooms']
    rfl
  refine ⟨factors, ?_⟩
  obtain ⟨first, known, -⟩ := clampScale_between p.startScale
  obtain ⟨last, known', -⟩ := clampScale_between p.endScale
  rw [← z.goes_written known known']
  constructor
  · intro keeps
    obtain ⟨a, b, start, stop, goes⟩ := keeps ⟨0, fun _ => 0, by norm_num, by norm_num⟩ ⟨0, 0⟩
      0 clip.sanitized.frames 0 0 (Nat.zero_le _) le_rfl
    rw [factors, Nat.cast_zero, ramp_zero] at start
    rw [factors, ramp_frames counted] at stop
    cases start
    cases stop
    exact goes
  · intro ordered c picture j k s t le _
    have later : (j : Rat) ≤ k := by exact_mod_cast le
    refine ⟨_, _, factors c picture ⟨j, s⟩, factors c picture ⟨k, t⟩, ?_⟩
    cases z with
    | inward => exact ramp_mono ordered later
    | outward => exact ramp_anti ordered later

/-- Scales that shrink, in a zoom outwards. -/
theorem shrinking_zooms :
    let clip : Clip Float := .standard
    let p : KenBurns := ⟨1.0, 1.5, 1.0, { zoom := some .outward }⟩
    (fragment clip (.kenBurns p)).value.ZoomsTo .outward clip.sanitized.frames :=
  (kenBurns_zooms_iff _ (KenBurns.check_eq_effect_iff.mpr ⟨by decide +kernel, rfl⟩) rfl).2.mpr
    (.inl (show clampScale 1.0 ≤ clampScale 1.5 by decide +kernel))

/-- A zoom outwards that is asked for without scales gets larger: its scales are those that a zoom
inwards has by default. -/
theorem outward_default_grows :
    ∃ p e, (Settings.effect { label := "Ken Burns", direction := some (.one "zoom-out") }).value
        = some (.kenBurns p)
      ∧ p.check.value = .effect e ∧ p.directions.zoom = some .outward
      ∧ ¬ (fragment (.standard : Clip Float) (.kenBurns p)).value.ZoomsTo .outward
          (Clip.standard : Clip Float).sanitized.frames := by
  refine ⟨⟨1.0, 1.0, 1.0 + 0.1, { zoom := some .outward }⟩, _, by rfl,
    KenBurns.check_eq_effect_iff.mpr ⟨by decide +kernel, rfl⟩, rfl, ?_⟩
  intro keeps
  let c : Circle := ⟨0, fun _ => 0, by norm_num, by norm_num⟩
  obtain ⟨a, b, start, stop, goes⟩ := keeps c ⟨0, 0⟩ 0 125 0 0 (by decide) (by decide +kernel)
  obtain rfl : (1 : Rat) = a := Option.some.inj (start.symm.trans (by decide +kernel)).symm
  obtain rfl : (11 / 10 : Rat) = b := Option.some.inj (stop.symm.trans (by decide +kernel)).symm
  exact absurd goes (by norm_num [Zoom.Goes])

end Motion

end Montage
