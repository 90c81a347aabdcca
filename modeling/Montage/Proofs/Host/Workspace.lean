/-
# Montage.Proofs.Host.Workspace -- what work leaves behind on a workspace

Work on a workspace has an answer and leaves a workspace.  Some work only asks: all that is
left of it is the record of its calls, and since no answer depends on that record, it can be
asked in any order and again (`Workspace.Asks`).  Other work changes files but prints
nothing (`Workspace.Silent`).  Both are kept when work is put together from parts, so only
the operations of the machine have to be looked at.
-/
import Montage.Host.Workspace

namespace Montage

set_option autoImplicit false

namespace Workspace

variable {α β ε : Type}

/-- What some work answers on a workspace. -/
def answer (w : Workspace) (work : StateM Workspace α) : α := (work.run w).1

/-- The workspace that some work leaves. -/
def after (w : Workspace) (work : StateM Workspace α) : Workspace := (work.run w).2

theorem answer_bind (w : Workspace) (work : StateM Workspace α) (next : α → StateM Workspace β) :
    w.answer (work >>= next) = (w.after work).answer (next (w.answer work)) := rfl

theorem after_bind (w : Workspace) (work : StateM Workspace α) (next : α → StateM Workspace β) :
    w.after (work >>= next) = (w.after work).after (next (w.answer work)) := rfl

/-- Where work that can fail has an answer, so has the first part of it. -/
theorem answer_bind_ok {w : Workspace} {work : ExceptT ε (StateM Workspace) α}
    {next : α → ExceptT ε (StateM Workspace) β} {b : β}
    (done : w.answer (work >>= next).run = .ok b) :
    ∃ a, w.answer work.run = .ok a ∧ (w.after work.run).answer (next a).run = .ok b := by
  rw [ExceptT.run_bind, answer_bind] at done
  cases first : w.answer work.run with
  | ok a =>
      rw [first] at done
      exact ⟨a, rfl, done⟩
  | error e =>
      rw [first] at done
      cases done

theorem answer_lift_bind (w : Workspace) (work : StateM Workspace α)
    (next : α → ExceptT ε (StateM Workspace) β) :
    w.answer (ExceptT.lift work >>= next).run
      = (w.after work).answer (next (w.answer work)).run := rfl

theorem after_lift_bind (w : Workspace) (work : StateM Workspace α)
    (next : α → ExceptT ε (StateM Workspace) β) :
    w.after (ExceptT.lift work >>= next).run
      = (w.after work).after (next (w.answer work)).run := rfl

/-- A result that is there already is the answer. -/
theorem answer_result (w : Workspace) (result : Except ε α) :
    w.answer (liftM result : ExceptT ε (StateM Workspace) α).run = result := rfl

/-! ## Work that only asks -/

/-- Work that leaves no more than a record of calls, and does not depend on it. -/
structure Asks (work : StateM Workspace α) : Prop where
  answer : ∀ (w : Workspace) (calls : List (String × List String)),
    ({ w with calls := calls } : Workspace).answer work = w.answer work
  after : ∀ w : Workspace, ∃ calls, w.after work = { w with calls := calls }

theorem asks_pure (a : α) : Asks (pure a) := ⟨fun _ _ => rfl, fun w => ⟨w.calls, rfl⟩⟩

theorem Asks.bind {work : StateM Workspace α} {next : α → StateM Workspace β} (first : Asks work)
    (later : ∀ a, Asks (next a)) : Asks (work >>= next) := by
  constructor
  · intro w calls
    obtain ⟨some, left⟩ := first.after { w with calls := calls }
    obtain ⟨others, plain⟩ := first.after w
    rw [answer_bind, answer_bind, left, plain, first.answer w calls, (later _).answer w some,
      (later _).answer w others]
  · intro w
    obtain ⟨some, left⟩ := first.after w
    obtain ⟨others, last⟩ := (later (w.answer work)).after { w with calls := some }
    exact ⟨others, by rw [after_bind, left, last]⟩

/-- Work that can fail goes on where it did not. -/
theorem Asks.bindExcept {work : ExceptT ε (StateM Workspace) α}
    {next : α → ExceptT ε (StateM Workspace) β} (first : Asks work.run)
    (later : ∀ a, Asks (next a).run) : Asks (work >>= next).run := by
  rw [ExceptT.run_bind]
  refine first.bind fun outcome => ?_
  cases outcome with
  | ok a => exact later a
  | error e => exact asks_pure _

theorem Asks.lift {work : StateM Workspace α} (asks : Asks work) :
    Asks (ExceptT.lift work : ExceptT ε (StateM Workspace) α).run := by
  rw [ExceptT.run_lift]
  exact asks.bind fun a => asks_pure _

theorem asks_isFile (path : String) : Asks (Host.isFile path) :=
  ⟨fun _ _ => rfl, fun w => ⟨w.calls, rfl⟩⟩

theorem asks_call (tool : String) (args : List String) : Asks (Host.call tool args) := by
  constructor
  · intro w calls
    show (call { w with calls := calls } tool args).2 = (call w tool args).2
    unfold call
    dsimp only
    cases w.tools.lookup tool <;> rfl
  · intro w
    show ∃ calls, (call w tool args).1 = _
    unfold call
    cases w.tools.lookup tool with
    | none => exact ⟨w.calls, rfl⟩
    | some run => exact ⟨_, rfl⟩

/-- Work on the machine that may fail. -/
abbrev Failing (α : Type) : Type := ExceptT Failure (StateM Workspace) α

theorem asks_hasTool (tool : String) : Asks (Host.hasTool tool : Failing Bool).run := by
  refine (asks_call tool ["-version"]).lift.bindExcept fun exit => ?_
  cases exit <;> exact asks_pure _

/-- Where each of several things is asked for, the answers are those that each has where
all began. -/
theorem answer_mapM {f : α → StateM Workspace β} (asks : ∀ a, Asks (f a)) (w : Workspace)
    (as : List α) : w.answer (as.mapM f) = as.map fun a => w.answer (f a) := by
  induction as generalizing w with
  | nil => rfl
  | cons a rest ih =>
      obtain ⟨calls, left⟩ := (asks a).after w
      rw [List.mapM_cons, answer_bind, answer_bind, left, ih]
      show _ :: _ = _
      rw [List.map_cons]
      congr 1
      exact List.map_congr_left fun b _ => (asks b).answer w calls

theorem asks_mapM {f : α → StateM Workspace β} (asks : ∀ a, Asks (f a)) (as : List α) :
    Asks (as.mapM f) := by
  induction as with
  | nil => exact asks_pure _
  | cons a rest ih =>
      rw [List.mapM_cons]
      exact (asks a).bind fun _ => ih.bind fun _ => asks_pure _

/-! ## Work that prints nothing -/

def Silent (work : StateM Workspace α) : Prop := ∀ w : Workspace, (w.after work).printed = w.printed

theorem Asks.silent {work : StateM Workspace α} (asks : Asks work) : Silent work := by
  intro w
  obtain ⟨calls, left⟩ := asks.after w
  rw [left]

theorem silent_pure (a : α) : Silent (pure a) := fun _ => rfl

theorem Silent.bind {work : StateM Workspace α} {next : α → StateM Workspace β}
    (first : Silent work) (later : ∀ a, Silent (next a)) : Silent (work >>= next) := by
  intro w
  rw [after_bind, later, first]

theorem Silent.bindExcept {work : ExceptT ε (StateM Workspace) α}
    {next : α → ExceptT ε (StateM Workspace) β} (first : Silent work.run)
    (later : ∀ a, Silent (next a).run) : Silent (work >>= next).run := by
  rw [ExceptT.run_bind]
  refine first.bind fun outcome => ?_
  cases outcome with
  | ok a => exact later a
  | error e => exact silent_pure _

theorem Silent.lift {work : StateM Workspace α} (silent : Silent work) :
    Silent (ExceptT.lift work : ExceptT ε (StateM Workspace) α).run := by
  rw [ExceptT.run_lift]
  exact silent.bind fun a => silent_pure _

theorem makeAll_printed (w : Workspace) (place : Place) (parts : List (List Char)) :
    (w.makeAll place parts).1.printed = w.printed := by
  induction parts generalizing w place with
  | nil => rfl
  | cons part rest ih =>
      unfold makeAll
      split
      · exact ih ..
      · split
        · exact ih ..
        · rfl

theorem silent_makeDirectory (path : String) : Silent (Host.makeDirectory path) := by
  intro w
  show (w.makeDirectory path).1.printed = w.printed
  unfold makeDirectory
  split
  · rfl
  · exact makeAll_printed ..

theorem silent_write (path text : String) : Silent (Host.write path text) := by
  intro w
  show (w.write path text).1.printed = w.printed
  unfold write
  dsimp only
  split
  · split <;> rfl
  · rfl

theorem silent_makeParent (path : String) : Silent (Host.makeParent path : Failing Unit).run := by
  unfold Host.makeParent
  split
  · exact silent_pure _
  · refine (silent_makeDirectory _).lift.bindExcept fun made => ?_
    split <;> exact silent_pure _

end Workspace

end Montage
