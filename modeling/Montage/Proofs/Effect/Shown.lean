/-
# Montage.Proofs.Effect.Shown -- effects that show, and why others are replaced

`Effect.Shows` says what an effect has to be like to show, without the check: scales within
their bounds, and nothing that would make a pan or zoom pointless; a speed and a period that
can be used.  The check leaves such an effect alone, and whatever it keeps is one, so a second
check finds nothing left to do.

What it does not keep is a pan or zoom that is pointless within its bounds.  Several things can
make it so at once, and `KenBurns.FailsFirst` says which of them counts: the one that is looked
for first.
-/
import Montage.Proofs.Direction
import Montage.Proofs.Effect.Check
import Montage.Proofs.Seconds

namespace Montage

set_option autoImplicit false

/-! ## Scales and shares -/

theorem isFinite_of_exact {x : Float} {q : Rat} (known : exact x = some q) : x.isFinite = true := by
  unfold exact at known
  show x.toModel.unpack.isFinite = true
  generalize x.toModel.unpack = u at known
  cases u with
  | zero s => rfl
  | finite s m e positive => rfl
  | infinity s | notANumber => cases known

/-- A scale within its bounds. -/
def IsScale (scale : Float) : Prop := 0.1 ≤ scale ∧ scale ≤ 3.0

theorem isScale_clampScale (scale : Float) : IsScale (clampScale scale) := by
  have low : (0.1 : Float) ≤ 0.1 := by decide
  have high : (3.0 : Float) ≤ 3.0 := by decide
  unfold clampScale clampFloat
  split
  · rename_i finite
    obtain ⟨q, known⟩ := exists_exact_of_isFinite finite
    have self : scale ≤ scale := le_self_of_exact (by rw [known]; rfl)
    split
    · exact ⟨low, by decide⟩
    · split
      · exact ⟨by decide, high⟩
      · rename_i notBelow notAbove
        exact ⟨Seconds.le_of_not_lt self low notBelow, Seconds.le_of_not_lt high self notAbove⟩
  · exact ⟨by decide, by decide⟩

/-- A scale within its bounds is where it is moved to. -/
theorem IsScale.clampScale {scale : Float} (within : IsScale scale) : clampScale scale = scale := by
  obtain ⟨low, high⟩ := within
  have finite : (exact scale).isSome = true :=
    exact_of_le (Seconds.nonneg_of_tenth_le low) high (by decide)
  obtain ⟨q, known⟩ := Option.isSome_iff_exists.mp finite
  have notBelow : ¬ scale < minScale := Seconds.not_lt_of_le low
  have notAbove : ¬ maxScale < scale := Seconds.not_lt_of_le high
  rw [Montage.clampScale, if_pos (isFinite_of_exact known), clampFloat, if_neg notBelow,
    if_neg notAbove]

/-- A share of an intensity is positive exactly if it is not zero or less. -/
theorem intensityFactor_pos_iff (intensity : Float) :
    0.0 < intensityFactor intensity ↔ ¬ intensityFactor intensity ≤ 0.0 := by
  have zero : exact (0.0 : Float) = some 0 := by decide +kernel
  obtain ⟨r, known, -, -⟩ := intensityFactor_between intensity
  rw [lt_iff_exact zero known, le_iff_exact known zero, not_le]

/-! ## Pans and zooms -/

/-- A pan or zoom that shows. -/
structure KenBurns.Shows (p : KenBurns) : Prop where
  /-- There is a direction to go. -/
  directed : p.directions.toList ≠ []
  start : IsScale p.startScale
  stop : IsScale p.endScale
  /-- A zoom gets somewhere. -/
  zooms : (∃ zoom ∈ p.directions.toList, zoom.isZoom = true) → (p.startScale != p.endScale) = true
  /-- A pan has some strength. -/
  pans : (∃ pan ∈ p.directions.toList, pan.isPan = true) → 0.0 < intensityFactor p.intensity

/-- What makes a pan or zoom pointless, and nothing that is looked for before. -/
inductive KenBurns.FailsFirst (p : KenBurns) : Fallback.Reason → Prop
  | emptyDirections : p.directions.toList = [] → FailsFirst p .emptyDirections
  | degenerateZoom : (∃ zoom ∈ p.directions.toList, zoom.isZoom = true) →
      (p.startScale == p.endScale) = true → FailsFirst p .degenerateZoom
  | zeroIntensityPan : (∃ pan ∈ p.directions.toList, pan.isPan = true) →
      ((∃ zoom ∈ p.directions.toList, zoom.isZoom = true) →
        (p.startScale != p.endScale) = true) →
      ¬ 0.0 < intensityFactor p.intensity → FailsFirst p .zeroIntensityPan

namespace KenBurns

variable {p : KenBurns}

theorem pointless?_eq_some {reason : Fallback.Reason} (pointless : p.pointless? = some reason) :
    p.FailsFirst reason := by
  unfold pointless? at pointless
  split at pointless
  · rename_i empty
    obtain rfl := Option.some.inj pointless
    exact .emptyDirections (DirectionSet.isEmpty_iff.mp empty)
  · split at pointless
    · rename_i degenerate
      obtain rfl := Option.some.inj pointless
      obtain ⟨zooms, same⟩ := Bool.and_eq_true_iff.mp degenerate
      exact .degenerateZoom (DirectionSet.hasZoom_iff.mp zooms) same
    · split at pointless
      · rename_i moves still
        obtain rfl := Option.some.inj pointless
        obtain ⟨pans, weak⟩ := Bool.and_eq_true_iff.mp still
        refine .zeroIntensityPan (DirectionSet.hasPan_iff.mp pans) (fun zooms => ?_) ?_
        · rw [DirectionSet.hasZoom_iff.mpr zooms, Bool.true_and] at moves
          simpa [bne] using moves
        · rw [intensityFactor_pos_iff, not_not]
          exact of_decide_eq_true weak
      · cases pointless

/-- Within its bounds, a pan or zoom shows unless something makes it pointless. -/
theorem pointless?_eq_none_iff (start : IsScale p.startScale) (stop : IsScale p.endScale) :
    p.pointless? = none ↔ p.Shows := by
  constructor
  · intro none
    unfold pointless? at none
    split at none
    · cases none
    · rename_i directed
      split at none
      · cases none
      · rename_i moves
        split at none
        · cases none
        · rename_i strong
          refine ⟨fun empty => directed (DirectionSet.isEmpty_iff.mpr empty), start, stop, ?_, ?_⟩
          · intro zooms
            rw [DirectionSet.hasZoom_iff.mpr zooms, Bool.true_and] at moves
            simpa [bne] using moves
          · intro pans
            rw [DirectionSet.hasPan_iff.mpr pans, Bool.true_and] at strong
            rw [intensityFactor_pos_iff]
            exact fun weak => strong (decide_eq_true weak)
  · intro shows
    by_contra pointless
    obtain ⟨reason, found⟩ := Option.ne_none_iff_exists'.mp pointless
    cases pointless?_eq_some found with
    | emptyDirections empty => exact shows.directed empty
    | degenerateZoom zooms same =>
        have differ := shows.zooms zooms
        rw [bne, same] at differ
        cases differ
    | zeroIntensityPan pans _ weak => exact weak (shows.pans pans)

theorem clamped_scales (p : KenBurns) : IsScale p.clamped.startScale ∧ IsScale p.clamped.endScale :=
  ⟨isScale_clampScale _, isScale_clampScale _⟩

/-- What shows is within its bounds already. -/
theorem Shows.clamped (shows : p.Shows) : p.clamped = p := by
  rw [KenBurns.clamped, shows.start.clampScale, shows.stop.clampScale]

end KenBurns

/-! ## Effects -/

namespace Effect

/-- An effect that shows. -/
def Shows : Effect → Prop
  | .kenBurns p => p.Shows
  | .parallax p => Seconds.isUsable p.speed = true
  | .cinemagraph p => ∀ period ∈ p.period, Seconds.isUsable period = true
  | .dollyZoom _ | .still => True

theorem usable?_eq_self {period : Option Float}
    (usable : ∀ length ∈ period, Seconds.isUsable length = true) :
    Seconds.usable? period = period := by
  cases period with
  | none => rfl
  | some length => exact Option.filter_some_pos (usable length rfl)

/-- An effect that shows is left alone, and there is nothing to report. -/
theorem Shows.check_eq {e : Effect} (shows : e.Shows) : e.check = pure (.effect e) := by
  cases e with
  | kenBurns p =>
      have shows : p.Shows := shows
      show p.check = _
      rw [KenBurns.check, shows.clamped,
        (KenBurns.pointless?_eq_none_iff shows.start shows.stop).mpr shows]
  | parallax p =>
      have usable : Seconds.isUsable p.speed = true := shows
      rw [check, if_pos usable]
  | cinemagraph p => rw [check, usable?_eq_self shows]
  | dollyZoom p => rfl
  | still => rfl

/-- An effect with what will not do replaced, and all else as it was. -/
inductive Mended : Effect → Effect → Prop
  | kenBurns (p : KenBurns) : Mended (.kenBurns p) (.kenBurns p.clamped)
  | parallax (p : Parallax) (speed : Float) :
      (Seconds.isUsable p.speed = true → speed = p.speed) →
      Mended (.parallax p) (.parallax { p with speed := speed })
  | cinemagraph (p : Cinemagraph) (period : Option Float) :
      (∀ length, period = some length ↔ p.period = some length ∧ Seconds.isUsable length = true) →
      Mended (.cinemagraph p) (.cinemagraph { p with period := period })
  | dollyZoom (p : DollyZoom) : Mended (.dollyZoom p) (.dollyZoom p)
  | still : Mended .still .still

theorem Mended.kind {e v : Effect} (mended : Mended e v) : v.kind = e.kind := by
  cases mended <;> rfl

theorem mended_of_check {e v : Effect} (kept : e.check.value = .effect v) : e.Mended v := by
  cases e with
  | kenBurns p =>
      obtain ⟨-, rfl⟩ := KenBurns.check_eq_effect_iff.mp kept
      exact .kenBurns p
  | parallax p =>
      by_cases usable : Seconds.isUsable p.speed = true
      · rw [check, if_pos usable] at kept
        obtain rfl := Checked.effect.inj kept
        exact .parallax p p.speed fun _ => rfl
      · rw [check, if_neg usable] at kept
        obtain rfl := Checked.effect.inj kept
        exact .parallax p 0.5 fun fine => absurd fine usable
  | cinemagraph p =>
      obtain rfl := Checked.effect.inj kept
      exact .cinemagraph p _ fun length => Option.filter_eq_some_iff
  | dollyZoom p =>
      obtain rfl := Checked.effect.inj kept
      exact .dollyZoom p
  | still =>
      obtain rfl := Checked.effect.inj kept
      exact .still

/-- What is kept of an effect shows. -/
theorem shows_of_check {e v : Effect} (kept : e.check.value = .effect v) : v.Shows := by
  cases e with
  | kenBurns p =>
      obtain ⟨fine, rfl⟩ := KenBurns.check_eq_effect_iff.mp kept
      obtain ⟨start, stop⟩ := p.clamped_scales
      exact (KenBurns.pointless?_eq_none_iff start stop).mp fine
  | parallax p =>
      obtain ⟨q, made, -, usable⟩ := check_parallax p
      obtain rfl := Checked.effect.inj (made.symm.trans kept)
      exact usable
  | cinemagraph p =>
      obtain rfl := Checked.effect.inj kept
      exact fun length given => (Option.filter_eq_some_iff.mp given).2
  | dollyZoom p =>
      obtain rfl := Checked.effect.inj kept
      trivial
  | still =>
      obtain rfl := Checked.effect.inj kept
      trivial

/-- What is put in the place of an effect, and what is said of it. -/
structure Replaced (e : Effect) (f : Fallback) : Prop where
  /-- Only a pan or zoom is replaced, and what it starts with remains. -/
  pointless : ∃ p, e = .kenBurns p ∧ f.scale = p.clamped.startScale ∧ p.clamped.FailsFirst f.reason
  scale : IsScale f.scale
  /-- One thing is reported, and it is the reason. -/
  reported : ∃ d, e.check.diagnostics = [d] ∧ d.finding.category.name = f.reason.name

theorem replaced_of_check {e : Effect} {f : Fallback} (made : e.check.value = .fallback f) :
    e.Replaced f := by
  cases e with
  | kenBurns p =>
      have made : p.check.value = .fallback f := made
      show Replaced (.kenBurns p) f
      cases found : p.clamped.pointless? with
      | none =>
          rw [KenBurns.check, found] at made
          cases made
      | some reason =>
          have outcome : p.check = ⟨.fallback ⟨p.clamped.startScale, reason⟩,
              [⟨none, reason.finding p.clamped.startScale⟩]⟩ := by
            rw [KenBurns.check, found]
            rfl
          rw [outcome] at made
          obtain rfl := Checked.fallback.inj made
          refine ⟨⟨p, rfl, rfl, KenBurns.pointless?_eq_some found⟩, p.clamped_scales.1, ?_⟩
          refine ⟨_, congrArg Outcome.diagnostics outcome, ?_⟩
          cases reason <;> rfl
  | parallax p =>
      obtain ⟨q, kept, -⟩ := check_parallax p
      rw [kept] at made
      cases made
  | cinemagraph p => cases made
  | dollyZoom p => cases made
  | still => cases made

/-- An effect is replaced exactly if it is a pan or zoom that does not show within its bounds. -/
theorem exists_fallback_iff (e : Effect) :
    (∃ f, e.check.value = .fallback f) ↔ ∃ p, e = .kenBurns p ∧ ¬ p.clamped.Shows := by
  constructor
  · rintro ⟨f, made⟩
    obtain ⟨p, rfl, -, fails⟩ := (replaced_of_check made).pointless
    refine ⟨p, rfl, fun shows => ?_⟩
    have kept : p.check.value = .effect (.kenBurns p.clamped) := by
      refine KenBurns.check_eq_effect_iff.mpr ⟨?_, rfl⟩
      exact (KenBurns.pointless?_eq_none_iff shows.start shows.stop).mpr shows
    exact absurd (kept.symm.trans made) (by simp)
  · rintro ⟨p, rfl, hidden⟩
    cases outcome : p.check.value with
    | fallback f => exact ⟨f, outcome⟩
    | effect v =>
        obtain ⟨fine, -⟩ := KenBurns.check_eq_effect_iff.mp outcome
        obtain ⟨start, stop⟩ := p.clamped_scales
        exact absurd ((KenBurns.pointless?_eq_none_iff start stop).mp fine) hidden

/-- **A check keeps what shows, says why it keeps nothing else, and is done with it.**  What it
keeps of an effect is of the same kind, with nothing changed but what will not do; it shows, and
it passes a second check as it is and without a report.  An effect is replaced exactly if it is
a pan or zoom which does not show within its bounds: by a scale within bounds, for the first
reason there is, and with one report that names it.  An effect that shows is not touched. -/
theorem check_settles (e : Effect) :
    (∀ v, e.check.value = .effect v →
      v.kind = e.kind ∧ e.Mended v ∧ v.Shows ∧ v.check = pure (.effect v))
      ∧ (∀ f, e.check.value = .fallback f → e.Replaced f)
      ∧ ((∃ f, e.check.value = .fallback f) ↔ ∃ p, e = .kenBurns p ∧ ¬ p.clamped.Shows)
      ∧ (e.Shows → e.check = pure (.effect e)) := by
  refine ⟨fun v kept => ?_, fun f => replaced_of_check, e.exists_fallback_iff, Shows.check_eq⟩
  have mended := mended_of_check kept
  have shows := shows_of_check kept
  exact ⟨mended.kind, mended, shows, shows.check_eq⟩

/-- Two scales that are the same within their bounds, and a pan without strength as well: the
zoom is looked at first. -/
example :
    (Effect.kenBurns ⟨0.0 / 0.0, 5.0, 9.0, ⟨some .inward, some .left, none⟩⟩).check.value
      = .fallback ⟨3.0, .degenerateZoom⟩ := by
  rfl

end Effect

end Montage
