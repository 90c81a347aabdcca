/-
# Montage.Proofs.Filter.Fingerprint -- a fingerprint sees every single byte

Mixing in a byte can be undone: the exclusive or by itself, and the multiplication by the
inverse that an odd constant has modulo `2 ^ 64`.  So for every byte a step is a bijection of
the states, and two states that differ once differ after any bytes that follow.  Two texts
that are one byte apart reach different states at that byte, and keep them apart.

No more than that holds: a hash of sixty-four bits has collisions, only none between texts
that are so close.
-/
import Mathlib.Tactic
import Montage.Filter.Graph

namespace Montage

set_option autoImplicit false

namespace Fingerprint

/-! ## Steps can be undone -/

/-- The inverse of the multiplier modulo `2 ^ 64`. -/
def antiprime : UInt64 := 0xce965057aff6957b

theorem prime_mul_antiprime : prime * antiprime = 1 := by decide

/-- The state before a byte was mixed in. -/
def unstep (h : UInt64) (b : UInt8) : UInt64 := (h * antiprime) ^^^ b.toUInt64

theorem unstep_step (h : UInt64) (b : UInt8) : unstep (step h b) b = h := by
  rw [unstep, step, UInt64.mul_assoc, prime_mul_antiprime, UInt64.mul_one, UInt64.xor_assoc,
    UInt64.xor_self, UInt64.xor_zero]

theorem step_unstep (h : UInt64) (b : UInt8) : step (unstep h b) b = h := by
  rw [unstep, step, UInt64.xor_assoc, UInt64.xor_self, UInt64.xor_zero, UInt64.mul_assoc,
    UInt64.mul_comm antiprime, prime_mul_antiprime, UInt64.mul_one]

/-- For every byte a step is a bijection of the states. -/
theorem step_bijective (b : UInt8) : Function.Bijective (step · b) :=
  Function.bijective_iff_has_inverse.mpr
    ⟨(unstep · b), fun h => unstep_step h b, fun h => step_unstep h b⟩

/-- And so are any number of steps. -/
theorem steps_bijective (bs : List UInt8) : Function.Bijective (steps · bs) := by
  induction bs with
  | nil => exact Function.bijective_id
  | cons b bs ih => exact ih.comp (step_bijective b)

/-- From one state, different bytes lead to different states. -/
theorem step_ne (h : UInt64) {x y : UInt8} (ne : x ≠ y) : step h x ≠ step h y := by
  intro same
  have mixed : h ^^^ x.toUInt64 = h ^^^ y.toUInt64 :=
    (step_bijective 0).injective (by simpa [step] using same)
  exact ne (UInt8.toUInt64_inj.mp ((UInt64.xor_right_inj h).mp mixed))

theorem steps_append (h : UInt64) (as bs : List UInt8) :
    steps h (as ++ bs) = steps (steps h as) bs := List.foldl_append

/-! ## Texts that are one byte apart -/

/-- Two lists are as long as each other and differ at exactly one place. -/
def OneApart (as bs : List UInt8) : Prop :=
  as.length = bs.length ∧ ∃! i : Nat, as[i]? ≠ bs[i]?

/-- So they are the same before that place and behind it. -/
theorem oneApart_iff {as bs : List UInt8} :
    OneApart as bs ↔
      ∃ before x y after, x ≠ y ∧ as = before ++ x :: after ∧ bs = before ++ y :: after := by
  constructor
  · rintro ⟨length, i, differ, only⟩
    have inside : i < as.length := by
      by_contra outside
      exact differ (by rw [List.getElem?_eq_none (by omega), List.getElem?_eq_none (by omega)])
    have inside' : i < bs.length := length ▸ inside
    have same (j : Nat) (away : j ≠ i) : as[j]? = bs[j]? := by
      by_contra other
      exact away (only j other)
    refine ⟨as.take i, as[i], bs[i], as.drop (i + 1), ?_, ?_, ?_⟩
    · rw [List.getElem?_eq_getElem inside, List.getElem?_eq_getElem inside'] at differ
      exact fun equal => differ (congrArg some equal)
    · rw [← List.drop_eq_getElem_cons inside, List.take_append_drop]
    · have before : as.take i = bs.take i := by
        apply List.ext_getElem?
        intro j
        rw [List.getElem?_take, List.getElem?_take]
        split
        · exact same j (by omega)
        · rfl
      have after : as.drop (i + 1) = bs.drop (i + 1) := by
        apply List.ext_getElem?
        intro j
        rw [List.getElem?_drop, List.getElem?_drop]
        exact same _ (by omega)
      rw [before, after, ← List.drop_eq_getElem_cons inside', List.take_append_drop]
  · rintro ⟨before, x, y, after, ne, rfl, rfl⟩
    refine ⟨by simp, before.length, by simpa using ne, ?_⟩
    intro j differ
    by_contra away
    refine differ ?_
    rcases Nat.lt_or_gt_of_ne away with earlier | later
    · rw [List.getElem?_append_left earlier, List.getElem?_append_left earlier]
    · obtain ⟨k, rfl⟩ := Nat.exists_eq_add_of_lt later
      rw [List.getElem?_append_right (by omega), List.getElem?_append_right (by omega)]
      simp [Nat.add_assoc]

theorem steps_ne (h : UInt64) {as bs : List UInt8} (apart : OneApart as bs) :
    steps h as ≠ steps h bs := by
  obtain ⟨before, x, y, after, ne, rfl, rfl⟩ := oneApart_iff.mp apart
  rw [steps_append, steps_append]
  exact (steps_bijective after).injective.ne (step_ne _ ne)

end Fingerprint

open Fingerprint

/-- **The fingerprint of a graph sees every change of a single byte** of its text, and nothing
but the text: what is hashed behind a difference keeps it. -/
theorem fingerprint_tells (g h : Graph) :
    (OneApart g.text.toUTF8.toList h.text.toUTF8.toList → g.fingerprint ≠ h.fingerprint)
      ∧ (g.text = h.text → g.fingerprint = h.fingerprint)
      ∧ ∀ (a b : UInt64) (rest : List UInt8), a ≠ b → steps a rest ≠ steps b rest :=
  ⟨steps_ne start, congrArg ofText, fun _ _ rest ne => (steps_bijective rest).injective.ne ne⟩

/-- A graph that fades at an offset. -/
def fadingGraph (offset : String) : Graph where
  nodes := [⟨["s0", "s1"], [⟨"xfade", [⟨some "transition", "fade", false⟩,
    ⟨some "offset", offset, false⟩]⟩], ["vout"]⟩]
  videoOut := "vout"
  audioOut := none

/-- One digit of an offset, in the middle of the text. -/
theorem fadingGraph_tells :
    OneApart (fadingGraph "4.5").text.toUTF8.toList (fadingGraph "4.6").text.toUTF8.toList
      ∧ (fadingGraph "4.5").fingerprint ≠ (fadingGraph "4.6").fingerprint := by
  have apart : OneApart (fadingGraph "4.5").text.toUTF8.toList
      (fadingGraph "4.6").text.toUTF8.toList :=
    oneApart_iff.mpr ⟨"[s0][s1]xfade=transition=fade:offset=4.".toUTF8.toList, 53, 54,
      "[vout]".toUTF8.toList, by decide, by decide +kernel, by decide +kernel⟩
  exact ⟨apart, (fingerprint_tells _ _).1 apart⟩

end Montage
