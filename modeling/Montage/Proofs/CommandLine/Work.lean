/-
# Montage.Proofs.CommandLine.Work -- how the work of a command goes on

A command asks, prints, and runs what it printed.  Asking changes nothing but the record of
calls (`run_asks`, `run_readDocument`), a line is printed behind the others (`run_print`), and
whatever running a command comes to, it prints nothing more (`silent_attempt`).  Where one part
succeeds the next one follows on the workspace that it left (`run_bind_ok`).
-/
import Montage.CommandLine.Fault
import Montage.Proofs.Host.Workspace
import Montage.Render

namespace Montage

set_option autoImplicit false

namespace Workspace

theorem silent_run (c : Command) : Silent (c.run : Failing Unit).run := by
  have looks : Silent (Host.isThere c.output : StateM Workspace Bool) := fun _ => rfl
  unfold Command.run
  refine (silent_makeParent c.output).bindExcept fun _ => ?_
  dsimp only
  split
  case' isTrue =>
    refine looks.lift.bindExcept fun there => ?_
    split
    · exact silent_pure _
  -- What is left to do once nothing stands in the way of the output.
  all_goals
    refine (asks_hasTool Command.encoder).silent.bindExcept fun usable => ?_
    split
    · refine (asks_call Command.encoder _).lift.silent.bindExcept fun exit => ?_
      cases exit with
      | none => exact silent_pure _
      | some exit => dsimp only; split <;> exact silent_pure _
    · exact silent_pure _

theorem silent_writeList (p : MergePlan) : Silent (p.writeList : Failing Unit).run := by
  unfold MergePlan.writeList
  refine (silent_makeParent _).bindExcept fun _ => ?_
  refine (silent_write _ _).lift.bindExcept fun written => ?_
  split <;> exact silent_pure _

/-- What the document at a path says, if there is one that can be read. -/
def document? {α : Type} (w : Workspace) (read : Json.Value → Option α) (path : String) :
    Option α :=
  match w.read path with
  | .text text => Json.Codec.pretty.read? read text
  | .missing | .unreadable => none

end Workspace

namespace CommandLine

open Workspace (Silent silent_pure)

/-- Work of a command on a workspace. -/
abbrev Working (α : Type) : Type := Attempt (StateM Workspace) α

/-- A workspace on which some more lines were printed. -/
def printing (w : Workspace) (lines : List String) : Workspace :=
  { w with printed := w.printed ++ lines }

theorem printing_append (w : Workspace) (some more : List String) :
    printing (printing w some) more = printing w (some ++ more) := by
  simp [printing]

section

variable {α β : Type} {w : Workspace}

/-- Work that succeeds is followed by what comes next. -/
theorem run_bind_ok {work : Working α} {next : α → Working β} {left : Workspace} {a : α}
    (done : work.run.run w = (.ok a, left)) :
    (work >>= next).run.run w = (next a).run.run left := by
  rw [ExceptT.run_bind, StateT.run_bind, done]
  rfl

/-- Nothing comes after work that gives up. -/
theorem run_bind_error {work : Working α} {next : α → Working β} {left : Workspace} {fault : Fault}
    (failed : work.run.run w = (.error fault, left)) :
    (work >>= next).run.run w = (.error fault, left) := by
  rw [ExceptT.run_bind, StateT.run_bind, failed]
  rfl

/-- What is asked is answered as it would have been from the start. -/
theorem run_asks {work : StateM Workspace α} (asks : Workspace.Asks work) (w : Workspace) :
    ∃ calls, (ExceptT.lift work : Working α).run.run w
      = (.ok (w.answer work), { w with calls := calls }) := by
  obtain ⟨calls, left⟩ := asks.after w
  refine ⟨calls, ?_⟩
  rw [← left]
  rfl

theorem run_accept_ok {result : Except Failure α} {a : α} (accepted : result = .ok a) :
    (accept result : Working α).run.run w = (.ok a, w) := by
  rw [accepted]
  rfl

theorem run_accept_error {result : Except Failure α} {f : Failure} (refused : result = .error f) :
    (accept result : Working α).run.run w = (.error (.failure f), w) := by
  rw [refused]
  rfl

theorem run_readDocument {read : Json.Value → Option α} {path : String} {a : α}
    (document : Document) (reads : w.document? read path = some a) :
    (readDocument document read path : Working α).run.run w = (.ok a, w) := by
  have looks : (ExceptT.lift (Host.read path) : Working Reading).run.run w
      = (.ok (w.read path), w) := rfl
  unfold Workspace.document? at reads
  unfold readDocument
  rw [run_bind_ok looks]
  cases found : w.read path with
  | missing =>
      rw [found] at reads
      cases reads
  | unreadable =>
      rw [found] at reads
      cases reads
  | text text =>
      rw [found] at reads
      dsimp only at reads ⊢
      rw [reads]
      rfl

end

theorem run_print (w : Workspace) (line : String) :
    (print line : Working Unit).run.run w = (.ok (), printing w [line]) := rfl

/-- Some lines are printed one after the other. -/
theorem run_lines (w : Workspace) (commands : List Command) :
    (forIn commands PUnit.unit fun c _ => do
        print c.line
        pure (.yield PUnit.unit) : Working PUnit).run.run w
      = (.ok PUnit.unit, printing w (commands.map Command.line)) := by
  induction commands generalizing w with
  | nil =>
      show (Except.ok PUnit.unit, w) = _
      simp [printing]
  | cons c rest ih =>
      have first : (do print c.line; pure (.yield PUnit.unit) : Working (ForInStep PUnit)).run.run w
          = (.ok (.yield PUnit.unit), printing w [c.line]) := rfl
      rw [List.forIn_cons, run_bind_ok first]
      dsimp only
      rw [ih, printing_append]
      rfl

theorem silent_attempt {α : Type} {work : Workspace.Failing α} (silent : Silent work.run) :
    Silent (attempt work : Working α).run :=
  silent.bind fun _ => silent_pure _

theorem silent_commands (commands : List Command) :
    Silent (forIn commands PUnit.unit fun c _ => do
      attempt c.run
      pure (.yield PUnit.unit) : Working PUnit).run := by
  induction commands with
  | nil => exact silent_pure _
  | cons c rest ih =>
      rw [List.forIn_cons]
      refine Silent.bindExcept ?_ fun step => ?_
      · exact (silent_attempt (Workspace.silent_run c)).bindExcept fun _ => silent_pure _
      · cases step with
        | done u => exact silent_pure _
        | yield u => exact ih

/-- A command is run and its output announced, or else nothing is done. -/
theorem silent_rendering (c : Command) (toRun : Bool) :
    Silent (if toRun = true then do
        attempt c.run
        announce c.output
      else pure () : Working Unit).run := by
  split
  · exact (silent_attempt (Workspace.silent_run c)).bindExcept fun _ w => rfl
  · exact silent_pure _

end CommandLine

end Montage
