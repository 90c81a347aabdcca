/-
# Montage.Proofs.Motion.Shape -- the three shapes of fragments

However many effects there are, what they come to has one of three shapes: a single
zoom, a window that is cut out of frames made larger, or a still that is filled up.  The
effects differ in the formulas, and in how frames are made larger.  Every shape ends at
the size and the rate of the clip, which have been made fit for an encoder first.
-/
import Montage.Motion

namespace Montage

set_option autoImplicit false

/-! ## Sizes and rates that will do -/

namespace Canvas

theorem coerced_even (width height : Nat) : (coerced width height).isEven = true := by
  unfold coerced
  split
  · rfl
  · simp [isEven, evenFloor]

theorem two_le_coerced (width height : Nat) :
    2 ≤ (coerced width height).width ∧ 2 ≤ (coerced width height).height := by
  unfold coerced
  split
  · decide
  · simp only [evenFloor]
    omega

/-- A canvas with even sides that are not too small is left alone. -/
theorem coerced_of_even {c : Canvas} (even : c.isEven = true) (width : 2 ≤ c.width)
    (height : 2 ≤ c.height) : coerced c.width c.height = c := by
  simp only [isEven, Bool.decide_and, Bool.and_eq_true, decide_eq_true_eq] at even
  have keep {n : Nat} (even : n % 2 = 0) : evenFloor n = n := Nat.div_mul_cancel (by omega)
  rw [coerced, if_neg (by omega), keep even.1, keep even.2]

theorem coerced_coerced (width height : Nat) :
    coerced (coerced width height).width (coerced width height).height = coerced width height :=
  have large := two_le_coerced width height
  coerced_of_even (coerced_even width height) large.1 large.2

end Canvas

variable {τ : Type} [Seconds τ]

namespace Clip

theorem sanitized_canvas (c : Clip τ) : c.sanitized.sanitized.canvas = c.sanitized.canvas :=
  Canvas.coerced_coerced _ _

theorem sanitized_rate (c : Clip τ) : c.sanitized.sanitized.rate = c.sanitized.rate := by
  show (if c.sanitized.rate = 0 then defaultRate else c.sanitized.rate) = _
  unfold sanitized
  by_cases zero : c.rate = 0
  · simp [zero, defaultRate]
  · simp [zero]

end Clip

namespace Motion

/-- A step that only makes frames larger. -/
inductive Enlarges : Step → Prop
  | resize (width height : Nat) : Enlarges (.resize width height)
  | stretch (width height : Expr) : Enlarges (.stretch width height)

/-- What fragments look like that end at a size and a rate. -/
inductive Shape (canvas : Canvas) (rate : Nat) : Fragment → Prop
  | zoom (z x y : Expr) (span : Span) :
      Shape canvas rate ⟨[.zoompan z x y span.frames canvas rate], .zoomPan, span, canvas⟩
  | window (enlarge : List Step) (window : Window) (span : Span) :
      (∀ s ∈ enlarge, Enlarges s) →
      Shape canvas rate
        ⟨enlarge ++ [.crop canvas window, .setRate rate], .timeExpression, span, canvas⟩
  | still (span : Span) :
      Shape canvas rate ⟨[.fit canvas, .pad canvas, .setRate rate], .passThrough, span, canvas⟩

omit [Seconds τ] in
theorem zoomFragment_shape (clip : Clip τ) (z x y : Expr) (span : Span) :
    Shape clip.canvas clip.rate (zoomFragment clip z x y span) := .zoom z x y span

theorem windowFragment_shape (clip : Clip τ) {enlarge : List Step} (window : Window)
    (larger : ∀ s ∈ enlarge, Enlarges s) :
    Shape clip.canvas clip.rate (windowFragment clip enlarge window) :=
  .window enlarge window _ larger

theorem enlarges_resize (width height : Nat) : ∀ s ∈ [Step.resize width height], Enlarges s := by
  intro s member
  obtain rfl := List.mem_singleton.mp member
  exact .resize width height

theorem kenBurns_shape (clip : Clip τ) (p : KenBurns) :
    Shape clip.canvas clip.rate (kenBurns clip p) := by
  unfold kenBurns
  split
  · exact windowFragment_shape clip _ (enlarges_resize _ _)
  · exact zoomFragment_shape ..

theorem parallax_shape (clip : Clip τ) (p : Parallax) :
    Shape clip.canvas clip.rate (parallax clip p) := by
  unfold parallax
  by_cases horizontal : p.slide.isHorizontal = true
  · simp only [if_pos horizontal]
    exact windowFragment_shape clip _ (enlarges_resize _ _)
  · simp only [if_neg horizontal]
    exact windowFragment_shape clip _ (enlarges_resize _ _)

theorem cinemagraph_shape (clip : Clip τ) (p : Cinemagraph) :
    Shape clip.canvas clip.rate (cinemagraph clip p) := by
  unfold cinemagraph
  split
  · exact zoomFragment_shape ..
  · exact windowFragment_shape clip _ (enlarges_resize _ _)
  · refine windowFragment_shape clip _ fun s member => ?_
    rcases (by simpa using member : s = _ ∨ s = _) with rfl | rfl
    · exact .resize ..
    · exact .stretch ..

/-- A dolly zoom is built exactly if both of its fields of view can be used. -/
theorem dollyZoom_eq_ok_iff {clip : Clip τ} {p : DollyZoom} {f : Fragment} :
    dollyZoom clip p = .ok f ↔ ∃ a b, view "startFov" p.startView = .ok a
      ∧ view "endFov" p.endView = .ok b
      ∧ f = zoomFragment clip (rampUp (.ofFloat (referenceView / a)) (.ofFloat (referenceView / b))
        clip.frames) (centred .iw) (centred .ih) .eachFrame := by
  unfold dollyZoom
  cases first : view "startFov" p.startView with
  | error finding => simp [bind, Except.bind]
  | ok a =>
      cases last : view "endFov" p.endView with
      | error finding => simp [bind, Except.bind]
      | ok b =>
          constructor
          · intro made
            exact ⟨a, b, rfl, rfl, (Except.ok.inj made).symm⟩
          · rintro ⟨_, _, same, same', rfl⟩
            cases same
            cases same'
            rfl

/-- A dolly zoom is a ramp in the middle. -/
theorem dollyZoom_eq_ok {clip : Clip τ} {p : DollyZoom} {f : Fragment}
    (made : dollyZoom clip p = .ok f) :
    ∃ a b, f = zoomFragment clip (rampUp a b clip.frames) (centred .iw) (centred .ih)
      .eachFrame := by
  obtain ⟨a, b, -, -, same⟩ := dollyZoom_eq_ok_iff.mp made
  exact ⟨_, _, same⟩

theorem dollyZoom_shape {clip : Clip τ} {p : DollyZoom} {f : Fragment}
    (made : dollyZoom clip p = .ok f) : Shape clip.canvas clip.rate f := by
  obtain ⟨a, b, rfl⟩ := dollyZoom_eq_ok made
  exact zoomFragment_shape ..

theorem passThrough_shape (clip : Clip τ) :
    Shape clip.sanitized.canvas clip.sanitized.rate (passThrough clip) := .still _

/-- **Every effect comes to one of the three shapes**, at the size and the rate of the clip
as an encoder can take them. -/
theorem build_shape (clip : Clip τ) (checked : Checked) :
    Shape clip.sanitized.canvas clip.sanitized.rate (build clip checked).value := by
  have still := passThrough_shape clip.sanitized
  rw [Clip.sanitized_canvas, Clip.sanitized_rate] at still
  cases checked with
  | fallback f => exact zoomFragment_shape ..
  | effect e =>
      cases e with
      | still => exact still
      | kenBurns p => exact kenBurns_shape ..
      | parallax p => exact parallax_shape ..
      | cinemagraph p => exact cinemagraph_shape ..
      | dollyZoom p =>
          cases made : dollyZoom clip.sanitized p with
          | ok fragment =>
              simp only [build, made]
              exact dollyZoom_shape made
          | error finding =>
              simp only [build, made]
              exact still

theorem fragment_value (clip : Clip τ) (effect : Effect) :
    (fragment clip effect).value = (build clip effect.check.value).value := rfl

theorem fragment_shape (clip : Clip τ) (effect : Effect) :
    Shape clip.sanitized.canvas clip.sanitized.rate (fragment clip effect).value :=
  build_shape clip _

end Motion

end Montage
