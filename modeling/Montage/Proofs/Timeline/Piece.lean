/-
# Montage.Proofs.Timeline.Piece -- what a piece is like where it meets another

Pieces are joined by filters that refuse streams of different sizes or rates.  The walk
over the chain of a piece (`Chain.picture`) ends at a picture that is the same for every
piece of a timeline: frames may be made larger on the way, but every shape of fragment
cuts, fills up or zooms back to the size of the timeline after that, and what a piece adds
in front of it and behind it leaves the size and the rate alone.

The walk begins with nothing known about the image that is fed in, and ends with
everything known.
-/
import Montage.Proofs.Filter.Picture
import Montage.Proofs.Motion.Shape
import Montage.Proofs.Timeline.Compile

namespace Montage

set_option autoImplicit false

variable {τ : Type} [Seconds τ]

/-- What is asked of the piece made of a segment, so that it can be joined with others. -/
structure Timeline.Joins (t : Timeline τ) (s : Segment τ) (p : Piece τ) : Prop where
  /-- Whatever image comes in, the picture that comes out is that of the timeline. -/
  picture : ∀ start, p.chain.picture start
    = ⟨some (.coerced t.canvas.width t.canvas.height), some (if t.rate = 0 then 25 else t.rate),
      some "1"⟩
  /-- Wherever a rate is written, it is the same. -/
  rates : ∀ text ∈ p.chain.flatMap Filter.rateTexts,
    text = toString (if t.rate = 0 then 25 else t.rate)
  duration : p.duration = if Seconds.isUsable s.duration then s.duration else 5.0
  ending : [⟨"trim", [⟨some "duration", (Seconds.numeral p.duration).text, false⟩]⟩,
    ⟨"setpts", [⟨none, "PTS-STARTPTS", false⟩]⟩, ⟨"setsar", [⟨none, "1", false⟩]⟩] <:+ p.chain

/-! ## The steps of a piece -/

/-- Steps that make frames larger are not written with a rate. -/
theorem Motion.Enlarges.rates {steps : List Step} (larger : ∀ s ∈ steps, Enlarges s) :
    steps.flatMap Step.rates = [] := by
  refine List.flatMap_eq_nil_iff.mpr fun s member => ?_
  cases larger s member with
  | resize width height => rfl
  | stretch width height => rfl

/-- The steps of a piece that cuts a window out of its frames. -/
theorem pieceSteps_window (clip : Clip τ) (enlarge : List Step) (window : Window) (span : Span) :
    pieceSteps clip ⟨enlarge ++ [.crop clip.canvas window, .setRate clip.rate], .timeExpression,
        span, clip.canvas⟩
      = [.again (clip.frames - 1), .stamp clip.rate] ++ enlarge
        ++ [.crop clip.canvas window, .setRate clip.rate, .trim (Seconds.numeral clip.duration),
          .restart, .square] := by
  simp only [pieceSteps, List.append_assoc, List.cons_append, List.nil_append]

/-- Whatever the shape of a fragment, its piece ends at the size and the rate of the clip. -/
theorem pieceSteps_picture {clip : Clip τ} {f : Fragment}
    (shape : Motion.Shape clip.canvas clip.rate f) (start : Picture) :
    (pieceSteps clip f).foldl Picture.through start
      = ⟨some clip.canvas, some clip.rate, some "1"⟩ := by
  cases shape with
  | zoom z x y span => rfl
  | window enlarge window span larger =>
      -- The crop and the rate behind it overrule whatever made the frames larger.
      rw [pieceSteps_window, List.foldl_append]
      rfl
  | still span => rfl

/-- A piece is written with the rate of the clip, once or twice. -/
theorem pieceSteps_rates {clip : Clip τ} {f : Fragment}
    (shape : Motion.Shape clip.canvas clip.rate f) :
    (pieceSteps clip f).flatMap Step.rates = [clip.rate]
      ∨ (pieceSteps clip f).flatMap Step.rates = [clip.rate, clip.rate] := by
  cases shape with
  | zoom z x y span => exact .inl rfl
  | window enlarge window span larger =>
      right
      rw [pieceSteps_window, List.flatMap_append, List.flatMap_append,
        Motion.Enlarges.rates larger]
      rfl
  | still span => exact .inl rfl

namespace Timeline

theorem fragment_shape (t : Timeline τ) (s : Segment τ) :
    Motion.Shape (t.clip s).canvas (t.clip s).rate (t.fragment s).value := by
  have shape := Motion.fragment_shape (t.clip s) (s.effect.getD .still)
  rw [clip, Clip.sanitized_canvas, Clip.sanitized_rate] at shape
  exact shape

/-- The piece of a segment can be joined with others. -/
theorem piece_joins {t : Timeline τ} {index : Nat} {p : Piece τ} (made : t.piece index = .ok p) :
    ∃ s, t.segments[index]? = some s ∧ t.Joins s p := by
  obtain ⟨s, scene, makes⟩ := exists_makes made
  have shape := t.fragment_shape s
  refine ⟨s, makes.segment, ?_⟩
  constructor
  case picture =>
    intro start
    rw [makes.chain, Chain.picture_ofSteps, pieceSteps_picture shape]
    rfl
  case rates =>
    intro text member
    rw [makes.chain, Chain.rateTexts_ofSteps, List.mem_map] at member
    obtain ⟨n, member, rfl⟩ := member
    obtain rfl : n = (t.clip s).rate := by
      rcases pieceSteps_rates shape with same | same <;> simpa [same] using member
    rfl
  case duration => exact makes.duration
  case ending =>
    rw [makes.chain, makes.duration]
    unfold pieceSteps Chain.ofSteps
    rw [List.map_append]
    exact List.suffix_append _ _

/-- **Pieces of one timeline can always be joined.**  Whatever the size and the rate of a
timeline and whatever its effects, every segment has a piece, and every piece ends at the
same size, which an encoder takes, at the same rate and with square pixels, cut to the
length of its segment. -/
theorem pieces_join {t : Timeline τ} (image : t.image.isSome = true) :
    (Canvas.coerced t.canvas.width t.canvas.height).isEven = true
      ∧ 2 ≤ (Canvas.coerced t.canvas.width t.canvas.height).width
      ∧ 2 ≤ (Canvas.coerced t.canvas.width t.canvas.height).height
      ∧ (∀ index < t.segments.length, ∃ s p, t.segments[index]? = some s
        ∧ t.piece index = .ok p ∧ t.Joins s p)
      ∧ ∀ i j p q, t.piece i = .ok p → t.piece j = .ok q →
        ∀ start other, p.chain.picture start = q.chain.picture other := by
  have large := Canvas.two_le_coerced t.canvas.width t.canvas.height
  refine ⟨Canvas.coerced_even _ _, large.1, large.2, fun index inside => ?_, ?_⟩
  · obtain ⟨p, made⟩ := exists_piece inside image
    obtain ⟨s, found, joins⟩ := piece_joins made
    exact ⟨s, p, found, made, joins⟩
  · intro i j p q first second start other
    obtain ⟨_, -, left⟩ := piece_joins first
    obtain ⟨_, -, right⟩ := piece_joins second
    rw [left.picture, right.picture]

/-- A zoom without a strength, a wave of unlimited period, and a still of no length, on an
odd canvas at no rate. -/
def outlandish : Timeline Float where
  segments := [⟨some (.kenBurns ⟨0.0 / 0.0, 1.0, 1.0 / 0.0, (DirectionSet.ofList [.zoomIn]).1⟩), 2.5,
      none, none⟩,
    ⟨some (.cinemagraph ⟨1.0, "", .wave, some (1.0 / 0.0)⟩), 3.0, none, none⟩,
    ⟨none, 0.0 / 0.0, none, none⟩]
  rate := 0
  canvas := ⟨641, 3⟩
  image := some "scene.png"

theorem outlandish_join :
    ∃ zoom wave still, outlandish.piece 0 = .ok zoom ∧ outlandish.piece 1 = .ok wave
      ∧ outlandish.piece 2 = .ok still ∧ [zoom, wave, still].map Piece.duration = [2.5, 3.0, 5.0]
      ∧ ∀ p ∈ [zoom, wave, still], ∀ start,
        p.chain.picture start = ⟨some ⟨640, 2⟩, some 25, some "1"⟩ := by
  obtain ⟨-, -, -, each, -⟩ := pieces_join (t := outlandish) rfl
  obtain ⟨s, zoom, found, first, joinsZoom⟩ := each 0 (by decide)
  obtain ⟨s', wave, found', second, joinsWave⟩ := each 1 (by decide)
  obtain ⟨s'', still, found'', third, joinsStill⟩ := each 2 (by decide)
  cases found
  cases found'
  cases found''
  refine ⟨zoom, wave, still, first, second, third, ?_, ?_⟩
  · rw [List.map_cons, List.map_cons, List.map_singleton, joinsZoom.duration, joinsWave.duration,
      joinsStill.duration]
    decide +kernel
  · intro p member start
    simp only [List.mem_cons, List.not_mem_nil, or_false] at member
    rcases member with rfl | rfl | rfl
    · exact joinsZoom.picture start
    · exact joinsWave.picture start
    · exact joinsStill.picture start

end Timeline

end Montage
