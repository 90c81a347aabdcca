/-
# Montage.Proofs.Media -- what measuring a medium comes to

Measuring calls a tool and changes nothing (`Workspace.Asks`), so what a stream measures is
a matter of the workspace alone.  A whole medium that can be measured has a length that can be
used (`usable_of_length?`).  A stream that is there and has a usable length counts with
that length, any other counts as nothing; both are ordered, so the longer of two streams is
at least as long as either.
-/
import Montage.Media
import Montage.Proofs.Host.Workspace
import Montage.Proofs.Seconds

namespace Montage

set_option autoImplicit false

namespace Workspace

theorem asks_probe (path : String) (stream : Option Media.Stream) :
    Asks (Media.probe path stream : Failing String).run := by
  unfold Media.probe
  refine (asks_isFile path).lift.bindExcept fun there => ?_
  dsimp only
  split
  · refine (asks_hasTool Media.prober).bindExcept fun usable => ?_
    split
    · refine (asks_call Media.prober (Media.probeArgs path stream)).lift.bindExcept fun exit => ?_
      cases exit with
      | none => exact asks_pure _
      | some exit => dsimp only; split <;> exact asks_pure _
    · exact asks_pure _
  · exact asks_pure _

theorem asks_length? (path : String) : Asks (Media.length? path : StateM Workspace (Option Float)) :=
  ((asks_probe path none).bindExcept fun _ => asks_pure _).bind fun _ => asks_pure _

theorem asks_streams (path : String) : Asks (Media.streams path : Failing Media.Streams).run :=
  (asks_probe path (some .picture)).bindExcept fun _ =>
    (asks_probe path (some .sound)).bindExcept fun _ => asks_pure _

theorem asks_completion? (path : String) :
    Asks (Media.completion? path : StateM Workspace (Option Float)) := by
  refine (asks_streams path).bind fun outcome => ?_
  cases outcome <;> exact asks_pure _

end Workspace

namespace Media

theorem isNaN_of_finite {x : Float} (finite : (exact x).isSome = true) : x.isNaN = false := by
  unfold exact at finite
  show x.toModel.unpack.isNaN = false
  cases form : x.toModel.unpack with
  | notANumber =>
      rw [form] at finite
      cases finite
  | _ => rfl

theorem readStreamLength_finite (printed : String) :
    (exact (readStreamLength printed)).isSome = true := by
  unfold readStreamLength
  cases usable : Seconds.usable? (freeNumber (trim (firstLine printed))) with
  | none => decide
  | some length =>
      have usable : Seconds.isUsable length = true := (Option.filter_eq_some_iff.mp usable).2
      exact (Bool.and_eq_true _ _ ▸ usable).1

theorem usable_of_readLength {printed : String} {length : Float}
    (read : readLength printed = .ok length) : Seconds.isUsable length = true := by
  unfold readLength at read
  cases usable : Seconds.usable? (freeNumber (trim printed)) with
  | none =>
      rw [usable] at read
      cases read
  | some found =>
      rw [usable] at read
      obtain rfl : found = length := Except.ok.inj read
      exact (Option.filter_eq_some_iff.mp usable).2

/-- What a whole medium measures can be used. -/
theorem usable_of_length? {w : Workspace} {path : String} {length : Float}
    (measured : w.answer (length? path) = some length) : Seconds.isUsable length = true := by
  unfold length? at measured
  rw [Workspace.answer_bind] at measured
  cases outcome : w.answer (Media.length path : Workspace.Failing Float).run with
  | ok found =>
      rw [outcome] at measured
      obtain rfl : found = length := Option.some.inj measured
      obtain ⟨printed, -, read⟩ := Workspace.answer_bind_ok outcome
      rw [Workspace.answer_result] at read
      exact usable_of_readLength read
  | error e =>
      rw [outcome] at measured
      cases measured

/-- Where both streams were measured, both lengths have a value. -/
theorem streams_finite {w : Workspace} {path : String} {s : Streams}
    (measured : w.answer (streams path : Workspace.Failing Streams).run = .ok s) :
    (exact s.picture).isSome = true ∧ (exact s.sound).isSome = true := by
  obtain ⟨picture, -, measured⟩ := Workspace.answer_bind_ok measured
  obtain ⟨sound, -, measured⟩ := Workspace.answer_bind_ok measured
  have lengths : Streams.mk (readStreamLength picture) (readStreamLength sound) = s :=
    Except.ok.inj measured
  rw [← lengths]
  dsimp only
  exact ⟨readStreamLength_finite picture, readStreamLength_finite sound⟩

/-- The longer of two lengths that have a value is one of them, and the other is no longer. -/
theorem longest_spec {s : Streams} (picture : (exact s.picture).isSome = true)
    (sound : (exact s.sound).isSome = true) :
    (s.longest = s.picture ∨ s.longest = s.sound)
      ∧ s.picture ≤ s.longest ∧ s.sound ≤ s.longest := by
  have left : s.picture ≤ s.picture := le_self_of_exact picture
  have right : s.sound ≤ s.sound := le_self_of_exact sound
  rw [Streams.longest, isNaN_of_finite picture, if_neg (by decide), Seconds.greatest]
  split
  · rename_i less
    exact ⟨.inr rfl, Seconds.le_of_lt less, right⟩
  · rename_i not
    exact ⟨.inl rfl, left, Seconds.le_of_not_lt left right not⟩

/-- A video is held open if it can be measured and its longer stream has a length. -/
theorem completion?_eq_some_iff {w : Workspace} {path : String} {length : Float} :
    w.answer (completion? path) = some length ↔
      ∃ s, w.answer (streams path : Workspace.Failing Streams).run = .ok s
        ∧ length = s.longest ∧ 0.0 < length := by
  unfold completion?
  rw [Workspace.answer_bind]
  cases w.answer (streams path : Workspace.Failing Streams).run with
  | error e =>
      constructor
      · intro none
        cases none
      · rintro ⟨s, failed, -⟩
        cases failed
  | ok s =>
      show (some s.longest).filter (fun length => decide (0.0 < length)) = some length ↔ _
      rw [Option.filter_eq_some_iff, Option.some.injEq, decide_eq_true_eq]
      constructor
      · rintro ⟨rfl, positive⟩
        exact ⟨s, rfl, rfl, positive⟩
      · rintro ⟨t, same, rfl, positive⟩
        obtain rfl := Except.ok.inj same
        exact ⟨rfl, positive⟩

end Media

end Montage
