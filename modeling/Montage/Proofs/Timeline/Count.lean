/-
# Montage.Proofs.Timeline.Count -- a still becomes exactly its frames

Each segment is fed by a single frame, and three different things make as many of it as the
segment has: a zoom that is told to hold it, a repetition, or a last frame that is held.  What
a zoom is told is set afterwards, by the name of its filter and of its argument, and its
formulas count to the same number of frames on their own account.  Here it is shown that
these agree: the name is always found where it is looked for, and nothing else is changed.

Frames are counted in doubles and kept in 64 bits, so there are never more than such a count
holds, however long a segment is.
-/
import Montage.Proofs.Filter.Formula
import Montage.Proofs.Motion.Inside
import Montage.Proofs.Timeline.Piece
import Montage.Proofs.Timeline.Reach

namespace Montage

set_option autoImplicit false

/-! ## One still, and its frames -/

/-- The filter with every argument `d` set to a number of frames, if it is a zoom. -/
def Filter.holding (frames : Nat) (f : Filter) : Filter :=
  if f.name = "zoompan" then
    { f with args := f.args.map (fun a =>
      if a.key = some "d" then { a with value := toString frames } else a) }
  else f

/-- The filters that end a piece. -/
def Chain.ending (length : Numeral) : Chain :=
  [⟨"trim", [⟨some "duration", length.text, false⟩]⟩, ⟨"setpts", [⟨none, "PTS-STARTPTS", false⟩]⟩,
    ⟨"setsar", [⟨none, "1", false⟩]⟩]

/-- How the piece of a segment makes its frames of one. -/
structure Timeline.Expands (t : Timeline Float) (s : Segment Float) (p : Piece Float) : Prop where
  duration : p.duration = if Seconds.isUsable s.duration then s.duration else 5.0
  /-- It has as many whole frames as its length covers, but at least one, and at most as many
  as can be counted. -/
  frames : ∀ q, exact (p.duration * Float.ofNat t.playRate) = some q →
    p.frames = min (2 ^ 64 - 1) (max 1 ⌊q⌋.toNat)
  /-- A length that covers more frames than a double can stand for has the most there can be. -/
  uncounted : exact (p.duration * Float.ofNat t.playRate) = none → p.frames = 2 ^ 64 - 1
  /-- The one zoom of the fragment is found and told how many frames to hold, and that is all
  that is changed. -/
  zoomPan : p.family = .zoomPan →
    (t.fragment s).value.chain.set "zoompan" "d" (toString p.frames)
        = ((t.fragment s).value.chain.map (Filter.holding p.frames), some true)
      ∧ p.chain = (t.fragment s).value.chain.map (Filter.holding p.frames)
        ++ Chain.ending (Seconds.numeral p.duration)
      ∧ (p.chain.filter (fun f => f.name = "zoompan")).map (fun f => f.get? "d")
        = [some (toString p.frames)]
  /-- The formulas of a pan, of a zoom or of a dolly zoom, as they stand in its arguments, count to
  the same. -/
  formulas : p.family = .zoomPan → (∀ q, s.effect ≠ some (.cinemagraph q)) →
    ∃ steps, p.chain = .ofSteps steps
      ∧ ∀ e ∈ steps.flatMap Step.formulas, p.chain.Writes e ∧ e.CountsTo p.frames
  /-- The frame is repeated for all frames but itself, and stamped anew. -/
  timeExpression : p.family = .timeExpression → 1 ≤ p.frames
    ∧ p.chain = ⟨"loop", [⟨some "loop", toString (p.frames - 1), false⟩, ⟨some "size", "1", false⟩,
        ⟨some "start", "0", false⟩]⟩
      :: ⟨"setpts", [⟨none, "N/" ++ toString t.playRate ++ "/TB", false⟩]⟩
      :: (t.fragment s).value.chain ++ Chain.ending (Seconds.numeral p.duration)
    ∧ ∀ f ∈ p.chain, f.name ≠ "zoompan"
  /-- The last frame is held for as long as the piece lasts. -/
  passThrough : p.family = .passThrough →
    p.chain = (t.fragment s).value.chain
      ++ ⟨"tpad", [⟨some "stop_mode", "clone", false⟩,
        ⟨some "stop_duration", (Seconds.numeral p.duration).text, false⟩]⟩
      :: Chain.ending (Seconds.numeral p.duration)
    ∧ ∀ f ∈ p.chain, f.name ≠ "zoompan" ∧ f.name ≠ "loop"

/-! ## The steps of a piece -/

section

variable {τ : Type} [Seconds τ] {clip : Clip τ} {f : Fragment}

theorem Chain.ofSteps_ending (length : Numeral) :
    Chain.ofSteps [.trim length, .restart, .square] = Chain.ending length := rfl

/-- The name of the filter that makes frames larger. -/
theorem Motion.Enlarges.name {s : Step} (larger : Enlarges s) : s.filter.name = "scale" := by
  cases larger <;> simp [Step.filter]

/-- A zoom is found by its name, and so is what it is told to hold. -/
theorem pieceSteps_zoomPan (shape : Motion.Shape clip.canvas clip.rate f)
    (family : f.family = .zoomPan) :
    f.chain.set "zoompan" "d" (toString clip.frames)
        = (f.chain.map (Filter.holding clip.frames), some true)
      ∧ Chain.ofSteps (pieceSteps clip f) = f.chain.map (Filter.holding clip.frames)
        ++ Chain.ending (Seconds.numeral clip.duration)
      ∧ ((Chain.ofSteps (pieceSteps clip f)).filter (fun f => f.name = "zoompan")).map
        (fun f => f.get? "d") = [some (toString clip.frames)] := by
  cases shape with
  | zoom z x y span =>
      refine ⟨?_, ?_, ?_⟩
      · simp [Fragment.chain, Chain.ofSteps, Chain.set, Step.filter, Filter.set?, Filter.setFirst,
          Filter.holding, Filter.formula, Filter.arg]
      · rw [← Chain.ofSteps_ending]
        simp [Fragment.chain, Chain.ofSteps, pieceSteps, holdFor, Step.filter, Filter.holding,
          Filter.formula, Filter.arg]
      · simp [Chain.ofSteps, pieceSteps, holdFor, Step.filter, Filter.get?, Filter.formula,
          Filter.arg, Filter.pos]
  | window enlarge window span larger => cases family
  | still span => cases family

theorem pieceSteps_timeExpression (shape : Motion.Shape clip.canvas clip.rate f)
    (family : f.family = .timeExpression) :
    Chain.ofSteps (pieceSteps clip f) = (Step.again (clip.frames - 1)).filter
        :: (Step.stamp clip.rate).filter :: f.chain
        ++ Chain.ending (Seconds.numeral clip.duration)
      ∧ ∀ g ∈ Chain.ofSteps (pieceSteps clip f), g.name ≠ "zoompan" := by
  cases shape with
  | zoom z x y span => cases family
  | window enlarge window span larger =>
      refine ⟨?_, fun g member => ?_⟩
      · rw [pieceSteps_window, ← Chain.ofSteps_ending]
        simp [Fragment.chain, Chain.ofSteps]
      · obtain ⟨s, among, rfl⟩ := List.mem_map.mp member
        rw [pieceSteps_window] at among
        simp only [List.mem_append, List.mem_cons, List.not_mem_nil, or_false] at among
        rcases among with (front | inside) | rfl | back
        · rcases front with rfl | rfl <;> simp [Step.filter]
        · simp [(larger s inside).name]
        · simp [Step.name_crop]
        · rcases back with rfl | rfl | rfl | rfl <;> simp [Step.filter]
  | still span => cases family

theorem pieceSteps_passThrough (shape : Motion.Shape clip.canvas clip.rate f)
    (family : f.family = .passThrough) :
    Chain.ofSteps (pieceSteps clip f) = f.chain
        ++ (Step.hold (Seconds.numeral clip.duration)).filter
        :: Chain.ending (Seconds.numeral clip.duration)
      ∧ ∀ g ∈ Chain.ofSteps (pieceSteps clip f), g.name ≠ "zoompan" ∧ g.name ≠ "loop" := by
  cases shape with
  | zoom z x y span => cases family
  | window enlarge window span larger => cases family
  | still span =>
      refine ⟨rfl, fun g member => ?_⟩
      obtain ⟨s, among, rfl⟩ := List.mem_map.mp member
      simp only [pieceSteps, List.cons_append, List.nil_append, List.mem_cons, List.not_mem_nil,
        or_false] at among
      rcases among with rfl | rfl | rfl | rfl | rfl | rfl | rfl <;> simp [Step.filter]

/-! ## Formulas that count frames -/

/-- Every formula of a fragment counts to a number of frames. -/
def Fragment.CountsTo (n : Nat) (f : Fragment) : Prop :=
  ∀ e ∈ f.steps.flatMap Step.formulas, e.CountsTo n

/-- What a zoom is told to hold is no part of its formulas. -/
theorem formulas_holdFor (frames : Nat) (steps : List Step) :
    (holdFor frames steps).flatMap Step.formulas = steps.flatMap Step.formulas := by
  induction steps with
  | nil => rfl
  | cons s rest ih =>
      cases s with
      | zoompan => rfl
      | _ => simp only [holdFor, List.flatMap_cons, ih]

/-- The piece of a zoom is written with the formulas of the zoom. -/
theorem formulas_pieceSteps (clip : Clip τ) (family : f.family = .zoomPan) :
    (pieceSteps clip f).flatMap Step.formulas = f.steps.flatMap Step.formulas := by
  unfold pieceSteps
  rw [family]
  simp [formulas_holdFor, Step.formulas]

namespace Motion

omit [Seconds τ] in
theorem zoomFragment_countsTo (clip : Clip τ) {z x y : Expr} (span : Span) {n : Nat}
    (zoom : z.CountsTo n) (across : x.CountsTo n) (down : y.CountsTo n) :
    (zoomFragment clip z x y span).CountsTo n := by
  intro e member
  rcases (by simpa [zoomFragment, Step.formulas] using member : e = z ∨ e = x ∨ e = y)
    with rfl | rfl | rfl
  · exact zoom
  · exact across
  · exact down

theorem constantZoom_countsTo (clip : Clip τ) (scale : Float) (n : Nat) :
    (constantZoom clip scale).CountsTo n :=
  zoomFragment_countsTo clip _ rfl rfl rfl

theorem zoomAndPan_countsTo (clip : Clip τ) (p : KenBurns) :
    (zoomAndPan clip p).CountsTo clip.frames := by
  refine zoomFragment_countsTo clip _ ?_ ?_ ?_
  · rcases p.directions.zoom with _ | ⟨_ | _⟩ <;> rfl
  · rcases p.directions.horizontal with _ | ⟨_ | _⟩ <;> rfl
  · rcases p.directions.vertical with _ | ⟨_ | _⟩ <;> rfl

theorem dollyZoom_countsTo {clip : Clip τ} {p : DollyZoom} (made : dollyZoom clip p = .ok f) :
    f.CountsTo clip.frames := by
  obtain ⟨a, b, rfl⟩ := dollyZoom_eq_ok made
  exact zoomFragment_countsTo clip _ rfl rfl rfl

/-- **The formulas of every zoom but a swinging one count to the frames of the clip.** -/
theorem build_countsTo (clip : Clip τ) {checked : Checked}
    (zooms : (build clip checked).value.family = .zoomPan)
    (other : ∀ q, checked ≠ .effect (.cinemagraph q)) :
    (build clip checked).value.CountsTo clip.sanitized.frames := by
  cases checked with
  | fallback f => exact constantZoom_countsTo _ _ _
  | effect e =>
      cases e with
      | still => cases zooms
      | kenBurns p =>
          change (kenBurns clip.sanitized p).family = .zoomPan at zooms
          show (kenBurns clip.sanitized p).CountsTo _
          unfold kenBurns at zooms ⊢
          split
          · rename_i slides
            rw [slides] at zooms
            cases zooms
          · exact zoomAndPan_countsTo _ p
      | parallax p =>
          change (parallax clip.sanitized p).family = .zoomPan at zooms
          unfold parallax at zooms
          dsimp only at zooms
          split at zooms <;> cases zooms
      | cinemagraph q => exact absurd rfl (other q)
      | dollyZoom p =>
          cases made : dollyZoom clip.sanitized p with
          | ok fragment =>
              simp only [build, made] at zooms ⊢
              exact dollyZoom_countsTo made
          | error finding =>
              simp only [build, made] at zooms
              cases zooms

end Motion

end

/-! ## Pieces -/

namespace Clip

theorem usable_sanitized (clip : Clip Float) : Seconds.isUsable clip.sanitized.duration = true := by
  obtain ⟨length, lasts, positive⟩ := clip.sanitized_sound.lasts
  exact isUsable_of_exact lasts positive

/-- A clip that has been made fit stays as it is. -/
theorem sanitized_sanitized (clip : Clip Float) : clip.sanitized.sanitized = clip.sanitized := by
  have duration : clip.sanitized.sanitized.duration = clip.sanitized.duration := by
    show (if Seconds.isUsable clip.sanitized.duration then clip.sanitized.duration else _) = _
    rw [if_pos clip.usable_sanitized]
  calc clip.sanitized.sanitized
    _ = ⟨clip.sanitized.sanitized.duration, clip.sanitized.sanitized.canvas,
        clip.sanitized.sanitized.rate⟩ := rfl
    _ = clip.sanitized := by rw [duration, clip.sanitized_canvas, clip.sanitized_rate]

end Clip

/-- A pan, a zoom or a dolly zoom is not a swing, once it is within its bounds. -/
theorem Effect.check_ne_cinemagraph {e : Effect} (other : ∀ q, e ≠ .cinemagraph q) (q : Cinemagraph) :
    e.check.value ≠ .effect (.cinemagraph q) := by
  intro swings
  cases e with
  | kenBurns p => cases (KenBurns.check_eq_effect_iff.mp swings).2
  | parallax p =>
      obtain ⟨p', checked, -⟩ := Effect.check_parallax p
      rw [checked] at swings
      cases swings
  | cinemagraph p => exact other p rfl
  | dollyZoom p => cases swings
  | still => cases swings

namespace Timeline

/-- **Every segment expands its still into exactly its frames.**  A timeline with an image has
a piece for each of its segments, and each does it as its family does, whatever the effect is
and whatever became of it. -/
theorem piece_expands {t : Timeline Float} (image : t.image.isSome = true) {index : Nat}
    (inside : index < t.segments.length) :
    ∃ s p, t.segments[index]? = some s ∧ t.piece index = .ok p ∧ t.Expands s p := by
  obtain ⟨p, made⟩ := exists_piece inside image
  obtain ⟨s, scene, makes⟩ := exists_makes made
  refine ⟨s, p, makes.segment, made, ?_⟩
  have shape := t.fragment_shape s
  have usable : Seconds.isUsable (t.clip s).duration = true := Clip.usable_sanitized _
  constructor
  case duration => exact makes.duration
  case frames =>
    intro q product
    rw [makes.duration] at product
    rw [makes.frames]
    exact Seconds.wholeFrames_of_exact usable product
  case uncounted =>
    intro product
    rw [makes.duration] at product
    rw [makes.frames]
    exact Seconds.wholeFrames_of_none usable product
  case zoomPan =>
    intro family
    rw [makes.family] at family
    rw [makes.chain, makes.frames, makes.duration]
    exact pieceSteps_zoomPan shape family
  case formulas =>
    intro family other
    rw [makes.family] at family
    refine ⟨_, makes.chain, fun e member => ⟨?_, ?_⟩⟩
    · rw [makes.chain]
      exact Chain.writes_formulas e member
    rw [formulas_pieceSteps _ family] at member
    rw [makes.frames]
    have counts := Motion.build_countsTo (t.clip s) family
      (Effect.check_ne_cinemagraph fun q swings => ?_)
    · rw [clip, Clip.sanitized_sanitized] at counts
      exact counts e member
    · cases effect : s.effect with
      | none => rw [effect] at swings; cases swings
      | some e => rw [effect] at swings; exact other q (by rw [effect]; exact congrArg some swings)
  case timeExpression =>
    intro family
    rw [makes.family] at family
    rw [makes.chain, makes.frames, makes.duration]
    exact ⟨(t.clip s).frames_pos, pieceSteps_timeExpression shape family⟩
  case passThrough =>
    intro family
    rw [makes.family] at family
    rw [makes.chain, makes.duration]
    exact pieceSteps_passThrough shape family

/-- A zoom that fell back to a constant one holds its image for two and a half seconds. -/
theorem outlandish_expands :
    ∃ s p, outlandish.segments[0]? = some s ∧ outlandish.piece 0 = .ok p ∧ outlandish.Expands s p
      ∧ p.frames = 62 ∧ p.family = .zoomPan
      ∧ (p.chain.filter (fun f => f.name = "zoompan")).map (fun f => f.get? "d") = [some "62"] := by
  obtain ⟨s, p, found, made, expands⟩ := piece_expands (t := outlandish) rfl (by decide : 0 < 3)
  have counted : (outlandish.piece 0).toOption.map (fun p => (p.frames, p.family))
      = some (62, .zoomPan) := by
    decide +kernel
  rw [made] at counted
  obtain ⟨frames, family⟩ := Prod.mk.inj (Option.some.inj counted)
  have held := (expands.zoomPan family).2.2
  rw [frames] at held
  exact ⟨s, p, found, made, expands, frames, family, held⟩

/-- A still of a quintillion seconds. -/
def eternal : Timeline Float where
  segments := [⟨none, 1e18, none, none⟩]
  image := some "scene.png"

/-- It covers more whole frames than are counted. -/
theorem eternal_capped :
    ∃ p, eternal.piece 0 = .ok p ∧ exact (p.duration * Float.ofNat eternal.playRate) = some (25 * 10 ^ 18)
      ∧ p.frames = 18446744073709551615 ∧ p.frames ≠ max 1 ⌊(25 * 10 ^ 18 : Rat)⌋.toNat := by
  obtain ⟨p, made⟩ : ∃ p, eternal.piece 0 = .ok p := exists_piece (by decide) rfl
  have counted : (eternal.piece 0).toOption.map
        (fun p => (exact (p.duration * Float.ofNat eternal.playRate), p.frames))
      = some (some (25 * 10 ^ 18), 18446744073709551615) := by
    decide +kernel
  rw [made] at counted
  obtain ⟨product, frames⟩ := Prod.mk.inj (Option.some.inj counted)
  refine ⟨p, made, product, frames, ?_⟩
  rw [frames]
  decide +kernel

end Timeline

end Montage
