/-
# Montage.Proofs.Merge.Flow -- how videos flow through the steps of a merge

Each step before the join reads one file and writes another in the directory of the list.
What is written is told apart by its name alone, which holds the stage and the number of
the video (`Stage.fileName_inj`), so no two steps write to the same place, and wherever a step
or the list takes the file of an earlier step, exactly one step has written it.

The join writes where the request says.  Nothing keeps that from being one of the files in
between (`Flows.distinct`).
-/
import Montage.Proofs.Command.Options
import Montage.Proofs.Filter.Spelling
import Montage.Proofs.Merge.Listing
import Montage.Proofs.Path

namespace Montage

set_option autoImplicit false

namespace Merge

open Montage.Path (join placeFrom route separator)

/-! ## The files in between -/

/-- The two stages that write files in between. -/
inductive Stage where
  | layout
  | length
  deriving DecidableEq

/-- What stands in front of the number of a video in the name of its file. -/
def Stage.label : Stage → String
  | layout => "normalized_"
  | length => "processed_"

def Stage.fileName (stage : Stage) (index : Nat) : String :=
  stage.label ++ toString index ++ ".mp4"

/-- Where a stage writes the file of a video: `Merge.normalized` and `Merge.completed`. -/
def between (r : Merge) (stage : Stage) (index : Nat) : String :=
  join r.directory (stage.fileName index)

theorem Stage.fileName_inj {s t : Stage} {i j : Nat} (same : s.fileName i = t.fileName j) :
    s = t ∧ i = j := by
  unfold fileName at same
  have first := congrArg (fun s => s.toList.head?) same
  cases s <;> cases t
  case layout.layout | length.length =>
    refine ⟨rfl, repr_injective ?_⟩
    exact (String.append_right_inj _).mp ((String.append_left_inj ".mp4").mp same)
  case layout.length | length.layout => simp [label] at first

theorem Stage.fileName_single (stage : Stage) (index : Nat) :
    separator ∉ (stage.fileName index).toList := by
  have count : separator ∉ (toString index).toList := Reader.not_mem_toString (by decide) index
  cases stage <;> simpa [fileName, label, separator] using count

theorem Stage.fileName_isName (stage : Stage) (index : Nat) :
    Workspace.isName (stage.fileName index).toList = true := by
  cases stage <;> simp [fileName, label, Workspace.isName, Path.isIdle, Workspace.back]

/-- The file of a stage lies in the directory of the list. -/
theorem between_route (r : Merge) (stage : Stage) (index : Nat) :
    Path.isAbsolute (r.between stage index) = Path.isAbsolute r.directory
      ∧ route (r.between stage index)
        = (route r.directory).below (stage.fileName index).toList :=
  Path.join_name r.directory (stage.fileName_isName index) (stage.fileName_single index)

theorem between_place (r : Merge) (stage : Stage) (index : Nat) (here : Place) :
    placeFrom here (r.between stage index)
      = placeFrom here r.directory ++ [(stage.fileName index).toList] := by
  obtain ⟨root, way⟩ := r.between_route stage index
  rw [Path.placeFrom_route, root, way, Path.Route.placeFrom_below, Path.placeFrom_route]

theorem place_inj {r : Merge} {here : Place} {s t : Stage} {i j : Nat}
    (same : placeFrom here (r.between s i) = placeFrom here (r.between t j)) : s = t ∧ i = j := by
  rw [between_place, between_place] at same
  refine Stage.fileName_inj ?_
  rw [← String.toList_inj]
  exact List.singleton_injective (List.append_cancel_left same)

theorem between_inj {r : Merge} {s t : Stage} {i j : Nat} (same : r.between s i = r.between t j) :
    s = t ∧ i = j := place_inj (congrArg (placeFrom []) same)

theorem normalized_inj {r : Merge} {i j : Nat} (same : r.normalized i = r.normalized j) : i = j :=
  (between_inj (s := .layout) (t := .layout) same).2

theorem completed_inj {r : Merge} {i j : Nat} (same : r.completed i = r.completed j) : i = j :=
  (between_inj (s := .length) (t := .length) same).2

theorem normalized_ne_completed (r : Merge) (i j : Nat) : r.normalized i ≠ r.completed j := by
  intro same
  exact absurd (between_inj (s := .layout) (t := .length) same).1 (by decide)

/-! ## The steps -/

theorem mem_normalizing {r : Merge} {c : Command} :
    c ∈ r.normalizing ↔ r.normalize = true ∧ ∃ i take, r.takes[i]? = some take
      ∧ c = Command.normalize take.video (r.normalized i) := by
  unfold normalizing
  split
  · rename_i on
    rw [List.mem_mapIdx]
    constructor
    · rintro ⟨i, inside, rfl⟩
      exact ⟨on, i, _, List.getElem?_eq_getElem inside, rfl⟩
    · rintro ⟨-, i, take, found, rfl⟩
      obtain ⟨inside, rfl⟩ := List.getElem?_eq_some_iff.mp found
      exact ⟨i, inside, rfl⟩
  · rename_i off
    simp [off]

theorem mem_completing {r : Merge} {c : Command} :
    c ∈ r.completing ↔ ∃ i take length, r.takes[i]? = some take ∧ take.length = some length
      ∧ c = Command.complete (r.prepared i take) length (r.completed i) := by
  unfold completing
  rw [List.mem_filterMap]
  constructor
  · rintro ⟨step, member, made⟩
    obtain ⟨i, inside, rfl⟩ := List.mem_mapIdx.mp member
    obtain ⟨length, held, rfl⟩ := Option.map_eq_some_iff.mp made
    exact ⟨i, _, length, List.getElem?_eq_getElem inside, held, rfl⟩
  · rintro ⟨i, take, length, found, held, rfl⟩
    obtain ⟨inside, rfl⟩ := List.getElem?_eq_some_iff.mp found
    refine ⟨_, List.mem_mapIdx.mpr ⟨i, inside, rfl⟩, ?_⟩
    rw [id, completing?, held]
    rfl

/-- What a step can be. -/
theorem mem_steps {r : Merge} {c : Command} :
    c ∈ r.steps ↔
      (r.normalize = true ∧ ∃ i take, r.takes[i]? = some take
        ∧ c = Command.normalize take.video (r.normalized i))
      ∨ ∃ i take length, r.takes[i]? = some take ∧ take.length = some length
        ∧ c = Command.complete (r.prepared i take) length (r.completed i) := by
  rw [steps, List.mem_append, mem_normalizing, mem_completing]

theorem normalizing_apart (r : Merge) (here : Place) :
    (r.normalizing.map fun c => placeFrom here c.output).Nodup := by
  unfold normalizing
  split
  · refine List.pairwise_map.mpr (List.pairwise_iff_getElem.mpr fun i j _ _ less same => ?_)
    rw [List.getElem_mapIdx, List.getElem_mapIdx] at same
    have index := (place_inj (s := .layout) (t := .layout) same).2
    omega
  · exact List.nodup_nil

theorem completing_apart (r : Merge) (here : Place) :
    (r.completing.map fun c => placeFrom here c.output).Nodup := by
  refine List.pairwise_map.mpr (List.pairwise_filterMap.mpr ?_)
  refine List.pairwise_iff_getElem.mpr fun i j _ _ less c first d second same => ?_
  -- Only some videos are held open, but each of those by the step with its number.
  rw [List.getElem_mapIdx] at first second
  obtain ⟨_, -, rfl⟩ := Option.map_eq_some_iff.mp first
  obtain ⟨_, -, rfl⟩ := Option.map_eq_some_iff.mp second
  have index := (place_inj (s := .length) (t := .length) same).2
  omega

/-- The steps write to pairwise different places. -/
theorem steps_apart (r : Merge) (here : Place) :
    (r.steps.map fun c => placeFrom here c.output).Nodup := by
  rw [steps, List.map_append, List.nodup_append]
  refine ⟨r.normalizing_apart here, r.completing_apart here, ?_⟩
  rintro a first b second rfl
  obtain ⟨c, early, written⟩ := List.mem_map.mp first
  obtain ⟨d, late, same⟩ := List.mem_map.mp second
  obtain ⟨-, i, take, -, rfl⟩ := mem_normalizing.mp early
  obtain ⟨j, _, _, -, -, rfl⟩ := mem_completing.mp late
  have stages := (place_inj (s := .layout) (t := .length) (written.trans same.symm)).1
  exact absurd stages (by decide)

theorem steps_nodup (r : Merge) : (r.steps.map Command.output).Nodup := by
  have places : ((r.steps.map Command.output).map (placeFrom [])).Nodup := by
    rw [List.map_map]
    exact r.steps_apart []
  exact places.of_map _

/-- The step that writes the file of a video in the common layout. -/
theorem step_of_normalized {r : Merge} {c : Command} {i : Nat} (member : c ∈ r.steps)
    (written : c.output = r.normalized i) :
    r.normalize = true ∧ ∃ take, r.takes[i]? = some take
      ∧ c = Command.normalize take.video (r.normalized i) := by
  rcases mem_steps.mp member with ⟨on, j, take, found, rfl⟩ | ⟨j, take, length, found, held, rfl⟩
  · obtain rfl := normalized_inj written
    exact ⟨on, take, found, rfl⟩
  · exact absurd written.symm (r.normalized_ne_completed i j)

/-- The step that writes the file of a video that is held open. -/
theorem step_of_completed {r : Merge} {c : Command} {i : Nat} (member : c ∈ r.steps)
    (written : c.output = r.completed i) :
    ∃ take length, r.takes[i]? = some take ∧ take.length = some length
      ∧ c = Command.complete (r.prepared i take) length (r.completed i) := by
  rcases mem_steps.mp member with ⟨on, j, take, found, rfl⟩ | ⟨j, take, length, found, held, rfl⟩
  · exact absurd written (r.normalized_ne_completed j i)
  · obtain rfl := completed_inj written
    exact ⟨take, length, found, held, rfl⟩

/-- What a video is in the common layout has been written before it is held open. -/
theorem mem_before {r : Merge} {before after : List Command} {c : Command} {i : Nat}
    (run : r.steps = before ++ c :: after) (written : c.output = r.completed i)
    (on : r.normalize = true) : r.normalized i ∈ before.map Command.output := by
  have member : c ∈ r.steps := run ▸ List.mem_append_right _ (List.mem_cons_self ..)
  obtain ⟨take, length, found, -, form⟩ := step_of_completed member written
  have early : Command.normalize take.video (r.normalized i) ∈ r.normalizing :=
    mem_normalizing.mpr ⟨on, i, take, found, rfl⟩
  refine List.mem_map.mpr ⟨Command.normalize take.video (r.normalized i), ?_, rfl⟩
  -- All normalizing comes first, and this step is not among it.
  rw [steps] at run
  rcases List.append_eq_append_iff.mp run with ⟨more, rfl, -⟩ | ⟨more, split, rest⟩
  · exact List.mem_append_left _ early
  · cases more with
    | nil =>
        rw [split, List.append_nil] at early
        exact early
    | cons d more =>
        obtain ⟨rfl, -⟩ := List.cons_eq_cons.mp rest
        have among : c ∈ r.normalizing := split ▸ List.mem_append_right _ (List.mem_cons_self ..)
        obtain ⟨-, j, _, -, rfl⟩ := mem_normalizing.mp among
        exact absurd written (r.normalized_ne_completed j i)

/-! ## The list -/

/-- What stands for each video in the end. -/
def entries (r : Merge) : List String := r.takes.mapIdx r.final

theorem final_eq (r : Merge) (i : Nat) (take : Take) :
    r.final i take = if take.length.isSome = true then r.completed i
      else if r.normalize = true then r.normalized i else take.video := by
  unfold final prepared
  cases take.length <;> rfl

/-- An entry is the video itself, or a step has written it. -/
theorem final_cases {r : Merge} {i : Nat} {take : Take} (found : r.takes[i]? = some take) :
    (take.length = none ∧ r.normalize = false ∧ r.final i take = take.video)
      ∨ ∃ c ∈ r.steps, c.output = r.final i take := by
  rw [final_eq]
  cases held : take.length with
  | some length =>
      exact .inr ⟨_, mem_steps.mpr (.inr ⟨i, take, length, found, held, rfl⟩), rfl⟩
  | none =>
      cases on : r.normalize with
      | true => exact .inr ⟨_, mem_steps.mpr (.inl ⟨on, i, take, found, rfl⟩), rfl⟩
      | false => exact .inl ⟨rfl, rfl, rfl⟩

/-! ## The flow -/

/-- How videos flow through the commands of a merge. -/
structure Flows (r : Merge) (plan : MergePlan) : Prop where
  /-- The list has an entry for each video, in the order of the story. -/
  list : plan.listText = concatList (r.entries.map .ofString)
  count : r.entries.length = r.takes.length
  entry : ∀ i take, r.takes[i]? = some take → r.entries[i]? = some
    (if take.length.isSome = true then r.completed i
      else if r.normalize = true then r.normalized i else take.video)
  /-- The join reads the list. -/
  joins : plan.command.values "-i" = [r.list] ∧ plan.command.output = r.output
  /-- A step brings a video to the common layout, or holds one open. -/
  steps : ∀ c ∈ r.steps, ∃ i, i < r.takes.length
    ∧ (c.output = r.normalized i ∨ c.output = r.completed i)
  normalizes : ∀ c ∈ r.steps, ∀ i, c.output = r.normalized i →
    r.normalize = true ∧ ∃ take, r.takes[i]? = some take ∧ c.values "-i" = [take.video]
  completes : ∀ c ∈ r.steps, ∀ i, c.output = r.completed i →
    ∃ take length, r.takes[i]? = some take ∧ take.length = some length
      ∧ c.values "-i" = [if r.normalize = true then r.normalized i else take.video]
      ∧ c.values "-t" = [(Seconds.numeral length).text]
  /-- Where a step reads the file of another, exactly one step before it wrote that. -/
  supplied : ∀ before c after i, r.steps = before ++ c :: after → c.output = r.completed i →
    r.normalize = true → (before.map Command.output).count (r.normalized i) = 1
  /-- Where the list has the file of a step, exactly one step wrote that. -/
  listed : ∀ i take, r.takes[i]? = some take → take.length.isSome = true ∨ r.normalize = true →
    (r.steps.map Command.output).count (r.final i take) = 1
  /-- No two steps write to the same place. -/
  apart : ∀ here, (r.steps.map fun c => placeFrom here c.output).Nodup
  /-- The join does not write to one of their paths, unless the request says so. -/
  distinct : ((r.steps ++ [plan.command]).map Command.output).Nodup ↔
    r.output ∉ r.steps.map Command.output

theorem plan_eq {r : Merge} (some : r.takes ≠ []) :
    r.plan = .ok ⟨r.list, concatList (r.entries.map .ofString),
      MergePlan.join r.list r.output⟩ := by
  have entries : (r.entries.map RawPath.ofString).isEmpty = false := by
    simpa [Merge.entries] using some
  rw [plan, MergePlan.of, ← Merge.entries, entries]
  rfl

/-- A merge is planned wherever there are videos, and the videos flow through it. -/
theorem plan_flows {r : Merge} (some : r.takes ≠ []) : ∃ plan, r.plan = .ok plan ∧ r.Flows plan := by
  refine ⟨_, plan_eq some, ?_⟩
  constructor
  case list => rfl
  case count => exact List.length_mapIdx
  case entry =>
    intro i take found
    rw [entries, List.getElem?_mapIdx, found, Option.map_some, final_eq]
  case joins => exact ⟨Command.values_inputs _, rfl⟩
  case steps =>
    intro c member
    rcases mem_steps.mp member with ⟨-, i, take, found, rfl⟩ | ⟨i, take, length, found, -, rfl⟩
    · exact ⟨i, (List.getElem?_eq_some_iff.mp found).1, .inl rfl⟩
    · exact ⟨i, (List.getElem?_eq_some_iff.mp found).1, .inr rfl⟩
  case normalizes =>
    intro c member i written
    obtain ⟨on, take, found, rfl⟩ := step_of_normalized member written
    exact ⟨on, take, found, Command.values_inputs _⟩
  case completes =>
    intro c member i written
    obtain ⟨take, length, found, held, rfl⟩ := step_of_completed member written
    exact ⟨take, length, found, held, Command.values_inputs _, Command.values_length _⟩
  case supplied =>
    intro before c after i run written on
    have early := mem_before run written on
    have once := r.steps_nodup
    rw [run, List.map_append] at once
    exact List.count_eq_one_of_mem (List.nodup_append.mp once).1 early
  case listed =>
    intro i take found stands
    rcases final_cases found with ⟨short, off, -⟩ | ⟨c, member, written⟩
    · simp [short, off] at stands
    · exact List.count_eq_one_of_mem r.steps_nodup (written ▸ List.mem_map_of_mem member)
  case apart => exact r.steps_apart
  case distinct =>
    rw [List.map_append, List.map_singleton, ← List.concat_eq_append, List.nodup_concat]
    exact and_iff_left r.steps_nodup

end Merge

end Montage
