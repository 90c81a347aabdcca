/-
# Montage.Proofs.Merge.Sources -- what becomes of the videos while they are merged

The files in between are named by their stage and their number alone, and whatever is there
under such a name is written over.  So a video is lost exactly if it lies in the directory of
the list under the name of a file that one of the steps writes (`overwrites_iff`), and it does
not matter how its path is spelled.

A step whose video does not reads one file and writes another one (`mem_of_input_eq`).  And
whatever an encoder makes of its inputs, a video that does not holds what it held at the start
after any number of steps (`deliverAll_of_ne`), and when all is done, unless the list or the
join was told to write there (`finish_of_ne`).
-/
import Montage.Proofs.Merge.Flow

namespace Montage

set_option autoImplicit false

open Montage.Path (placeFrom)

/-! ## Commands and files -/

section

variable {κ : Type} (encode : Command → List (Option κ) → κ) (here : Place)

/-- What files hold after a command has run at a place: its output holds what the encoder
makes of what its inputs hold. -/
def Command.deliver (files : Place → Option κ) (c : Command) : Place → Option κ :=
  Function.update files (placeFrom here c.output)
    (some (encode c (c.inputs.map fun s => files (placeFrom here s.path))))

theorem Command.deliver_of_ne {files : Place → Option κ} {c : Command} {place : Place}
    (other : placeFrom here c.output ≠ place) : c.deliver encode here files place = files place :=
  Function.update_of_ne other.symm _ _

/-- What files hold after some commands have run one after the other. -/
def Command.deliverAll (files : Place → Option κ) (commands : List Command) : Place → Option κ :=
  commands.foldl (fun files c => c.deliver encode here files) files

/-- What no command writes to is left as it is by all of them. -/
theorem Command.deliverAll_of_ne {commands : List Command} {place : Place}
    (other : ∀ c ∈ commands, placeFrom here c.output ≠ place) (files : Place → Option κ) :
    deliverAll encode here files commands place = files place := by
  unfold deliverAll
  induction commands generalizing files with
  | nil => rfl
  | cons c rest ih =>
      rw [List.foldl_cons, ih fun d later => other d (List.mem_cons_of_mem _ later)]
      exact c.deliver_of_ne encode here (other c (List.mem_cons_self ..))

/-- What files hold when all is done: the steps have run, the list has been written, and the
join has run. -/
def MergePlan.finish (plan : MergePlan) (steps : List Command) (list : κ)
    (files : Place → Option κ) : Place → Option κ :=
  plan.command.deliver encode here
    (Function.update (Command.deliverAll encode here files steps) (placeFrom here plan.listPath)
      (some list))

/-- What neither a step nor the list nor the join writes to is left as it is by all of them. -/
theorem MergePlan.finish_of_ne {plan : MergePlan} {steps : List Command} {place : Place}
    (other : ∀ c ∈ steps, placeFrom here c.output ≠ place)
    (list : placeFrom here plan.listPath ≠ place)
    (output : placeFrom here plan.command.output ≠ place) (text : κ) (files : Place → Option κ) :
    plan.finish encode here steps text files place = files place := by
  rw [finish, Command.deliver_of_ne encode here output, Function.update_of_ne list.symm]
  exact Command.deliverAll_of_ne encode here other files

end

namespace Merge

/-! ## Names that are taken -/

/-- Whether a stage writes a file for a video. -/
def Stage.handles (stage : Stage) (r : Merge) (take : Take) : Bool :=
  match stage with
  | layout => r.normalize
  | length => take.length.isSome

/-- A path leads to the name of a file that a step writes, in the directory of the list. -/
def Reserves (r : Merge) (here : Place) (path : String) : Prop :=
  ∃ (stage : Stage) (i : Nat) (take : Take), r.takes[i]? = some take
    ∧ stage.handles r take = true
    ∧ placeFrom here path = placeFrom here r.directory ++ [(stage.fileName i).toList]

/-- What the steps write, by stage and number. -/
theorem exists_step_iff {r : Merge} {output : String} :
    (∃ c ∈ r.steps, c.output = output) ↔
      ∃ (stage : Stage) (i : Nat) (take : Take), r.takes[i]? = some take
        ∧ stage.handles r take = true ∧ output = r.between stage i := by
  constructor
  · rintro ⟨c, member, rfl⟩
    rcases mem_steps.mp member with ⟨on, i, take, found, rfl⟩ | ⟨i, take, length, found, held, rfl⟩
    · exact ⟨.layout, i, take, found, on, rfl⟩
    · exact ⟨.length, i, take, found, by simp [Stage.handles, held], rfl⟩
  · rintro ⟨stage, i, take, found, handled, rfl⟩
    cases stage with
    | layout => exact ⟨_, mem_steps.mpr (.inl ⟨handled, i, take, found, rfl⟩), rfl⟩
    | length =>
        obtain ⟨length, held⟩ := Option.isSome_iff_exists.mp handled
        exact ⟨_, mem_steps.mpr (.inr ⟨i, take, length, found, held, rfl⟩), rfl⟩

/-- **A step writes over what a path leads to exactly if the path is reserved.** -/
theorem overwrites_iff {r : Merge} {here : Place} {path : String} :
    (∃ c ∈ r.steps, placeFrom here c.output = placeFrom here path) ↔ r.Reserves here path := by
  constructor
  · rintro ⟨c, member, same⟩
    obtain ⟨stage, i, take, found, handled, written⟩ := exists_step_iff.mp ⟨c, member, rfl⟩
    refine ⟨stage, i, take, found, handled, ?_⟩
    rw [← same, written, between_place]
  · rintro ⟨stage, i, take, found, handled, same⟩
    obtain ⟨c, member, written⟩ := exists_step_iff.mpr ⟨stage, i, take, found, handled, rfl⟩
    refine ⟨c, member, ?_⟩
    rw [written, between_place, same]

/-- A reserved path ends in the name of a file in between. -/
theorem Reserves.name {r : Merge} {here : Place} {path : String} (reserved : r.Reserves here path) :
    ∃ (stage : Stage) (i : Nat),
      (placeFrom here path).getLast? = some (stage.fileName i).toList := by
  obtain ⟨stage, i, _, -, -, same⟩ := reserved
  exact ⟨stage, i, by rw [same, List.getLast?_concat]⟩

/-- Of its inputs a step can only write over a video: what else it may read is a file in
between, but one of the other stage. -/
theorem mem_of_input_eq {r : Merge} {here : Place} {c : Command} (step : c ∈ r.steps) {s : Source}
    (reads : s ∈ c.inputs) (same : placeFrom here s.path = placeFrom here c.output) :
    ∃ take ∈ r.takes, take.video = s.path := by
  rcases mem_steps.mp step with ⟨-, i, take, found, rfl⟩ | ⟨i, take, length, found, -, rfl⟩
  · obtain rfl := List.mem_singleton.mp reads
    exact ⟨take, List.mem_of_getElem? found, rfl⟩
  · obtain rfl := List.mem_singleton.mp reads
    change placeFrom here (r.prepared i take) = placeFrom here (r.completed i) at same
    show ∃ t ∈ r.takes, t.video = r.prepared i take
    unfold prepared at same ⊢
    split at same
    · exact absurd (place_inj (s := .layout) (t := .length) same).1 (by decide)
    · rename_i off
      rw [if_neg off]
      exact ⟨take, List.mem_of_getElem? found, rfl⟩

theorem step_overwrites {r : Merge} {c : Command} (step : c ∈ r.steps) :
    c.encoding.overwrite = true := by
  rcases mem_steps.mp step with ⟨-, i, take, -, rfl⟩ | ⟨i, take, length, -, -, rfl⟩
  · rfl
  · rfl

/-! ## The videos -/

/-- What a merge that runs at a place does to its videos. -/
structure Spares (r : Merge) (here : Place) (plan : MergePlan) : Prop where
  /-- No step minds what is there. -/
  replaces : ∀ c ∈ r.steps, c.encoding.overwrite = true
  /-- A step writes over what a path leads to exactly if the path is reserved. -/
  overwrites : ∀ path,
    (∃ c ∈ r.steps, placeFrom here c.output = placeFrom here path) ↔ r.Reserves here path
  /-- Only the names of files in between are reserved. -/
  names : ∀ path, r.Reserves here path → ∃ (stage : Stage) (i : Nat),
    (placeFrom here path).getLast? = some (stage.fileName i).toList
  /-- The list, and what the join reads and writes, are where the request says. -/
  joins : plan.listPath = r.list ∧ plan.command.inputs.map Source.path = [r.list]
    ∧ plan.command.output = r.output
  /-- A step writes what it reads only if that is a video whose path is reserved. -/
  apart : ∀ c ∈ r.steps, ∀ s ∈ c.inputs, placeFrom here s.path = placeFrom here c.output →
    (∃ take ∈ r.takes, take.video = s.path) ∧ r.Reserves here s.path
  /-- However far the steps have come, what is not reserved holds what it held at the start. -/
  keeps : ∀ path, ¬ r.Reserves here path → ∀ (κ : Type) (encode : Command → List (Option κ) → κ)
    (files : Place → Option κ) (before after : List Command), r.steps = before ++ after →
    Command.deliverAll encode here files before (placeFrom here path)
      = files (placeFrom here path)
  /-- So it does when all is done, unless the request sends the list or the story there. -/
  ends : ∀ path, ¬ r.Reserves here path → placeFrom here r.list ≠ placeFrom here path →
    placeFrom here r.output ≠ placeFrom here path →
    ∀ (κ : Type) (encode : Command → List (Option κ) → κ) (files : Place → Option κ) (list : κ),
    plan.finish encode here r.steps list files (placeFrom here path)
      = files (placeFrom here path)

theorem plan_spares {r : Merge} (some : r.takes ≠ []) (here : Place) :
    ∃ plan, r.plan = .ok plan ∧ r.Spares here plan := by
  have elsewhere : ∀ path, ¬ r.Reserves here path → ∀ c ∈ r.steps,
      placeFrom here c.output ≠ placeFrom here path :=
    fun path free c step same => free (overwrites_iff.mp ⟨c, step, same⟩)
  obtain ⟨plan, planned, joins⟩ : ∃ plan, r.plan = .ok plan ∧ plan.listPath = r.list
      ∧ plan.command.inputs.map Source.path = [r.list] ∧ plan.command.output = r.output :=
    ⟨_, plan_eq some, rfl, rfl, rfl⟩
  refine ⟨plan, planned, ?_⟩
  constructor
  case replaces => exact fun c step => step_overwrites step
  case overwrites => exact fun path => overwrites_iff
  case names => exact fun path => Reserves.name
  case joins => exact joins
  case apart =>
    intro c step s reads same
    exact ⟨mem_of_input_eq step reads same, overwrites_iff.mp ⟨c, step, same.symm⟩⟩
  case keeps =>
    intro path free κ encode files before after run
    refine Command.deliverAll_of_ne encode here (fun c among => ?_) files
    exact elsewhere path free c (run ▸ List.mem_append_left _ among)
  case ends =>
    intro path free list output κ encode files text
    obtain ⟨listed, -, written⟩ := joins
    refine MergePlan.finish_of_ne encode here (elsewhere path free) ?_ ?_ text files
    · rwa [listed]
    · rwa [written]

end Merge

end Montage
