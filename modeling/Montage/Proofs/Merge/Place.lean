/-
# Montage.Proofs.Merge.Place -- whether a list leads to the files that were written

Commands read paths from where they run.  What stands on a list is read from the directory
that holds the list.  The paths of the files in between go through that directory already,
so a list that lies somewhere else leads to them only if the way to it starts at the root,
or goes down as often as up.  Anything else on a relative path is found only as far as the
two directories agree.
-/
import Montage.Proofs.Merge.Flow

namespace Montage

set_option autoImplicit false

namespace Merge

open Montage.Path (isAbsolute placeFrom route)

/-- The directory that holds the list, for commands that run at a place. -/
def shelf (r : Merge) (here : Place) : Place := (placeFrom here r.list).dropLast

/-- A path leads to the same place from the list as it does in a command. -/
def Found (r : Merge) (here : Place) (path : String) : Prop :=
  placeFrom (r.shelf here) path = placeFrom here path

/-- The path of a file in between goes as the path of the directory does. -/
theorem output_route {r : Merge} {c : Command} (member : c ∈ r.steps) :
    isAbsolute c.output = isAbsolute r.directory
      ∧ (route c.output).levels = (route r.directory).levels := by
  have between : ∃ stage i, c.output = r.between stage i := by
    rcases mem_steps.mp member with ⟨-, i, take, -, rfl⟩ | ⟨i, take, length, -, -, rfl⟩
    · exact ⟨.layout, i, rfl⟩
    · exact ⟨.length, i, rfl⟩
  obtain ⟨stage, i, written⟩ := between
  obtain ⟨root, way⟩ := r.between_route stage i
  rw [written, root, way]
  exact ⟨rfl, Path.Route.levels_below _ _⟩

/-- A list that has a name lies in its directory. -/
theorem shelf_eq {r : Merge} {name : List Char} (names : Path.Names r.list name) (here : Place) :
    isAbsolute r.directory = isAbsolute r.list
      ∧ r.shelf here = (route r.directory).placeFrom (if isAbsolute r.list then [] else here) := by
  obtain ⟨directory, parent, root, way⟩ := Path.parent?_of_names names
  have same : r.directory = directory := by rw [Merge.directory, parent, Option.getD_some]
  rw [same]
  refine ⟨root, ?_⟩
  rw [shelf, Path.placeFrom_route, way, Path.Route.placeFrom_below, List.dropLast_concat]

/-- Where a list leads, for commands that run at a place. -/
structure Leads (r : Merge) (here : Place) (plan : MergePlan) : Prop where
  path : plan.listPath = r.list
  read : (∀ e ∈ r.entries, '\n' ∉ e.toList) → readList plan.listText = some r.entries
  /-- What stands for a video is the video, or a step writes it. -/
  stands : ∀ (i : Nat) (take : Take), r.takes[i]? = some take →
    ∃ e, r.entries[i]? = some e ∧ (e = take.video ∨ ∃ c ∈ r.steps, c.output = e)
  /-- An entry is found if it starts at the root, or the list lies where the commands run,
  at least as many levels up as the entry goes. -/
  entries : ∀ e ∈ r.entries, r.Found here e ↔
    isAbsolute e = true ∨ (r.shelf here).rdrop (route e).levels = here.rdrop (route e).levels
  /-- A file in between is found if the path of the list starts at the root, or goes down
  to its directory as often as up. -/
  between : ∀ name, Path.Names r.list name → ∀ c ∈ r.steps, r.Found here c.output ↔
    isAbsolute r.list = true
      ∨ (route r.directory).names.length = (route r.directory).levels
      ∨ here.length ≤ (route r.directory).levels
        ∧ (route r.directory).names.length ≤ (route r.directory).levels

theorem plan_leads {r : Merge} (some : r.takes ≠ []) (here : Place) :
    ∃ plan, r.plan = .ok plan ∧ r.Leads here plan := by
  refine ⟨_, plan_eq some, ?_⟩
  constructor
  case path => rfl
  case read => exact readList_ofTexts
  case stands =>
    intro i take found
    refine ⟨r.final i take, ?_, ?_⟩
    · rw [Merge.entries, List.getElem?_mapIdx, found, Option.map_some]
    · rcases final_cases found with ⟨-, -, same⟩ | written
      · exact .inl same
      · exact .inr written
  case entries =>
    intro e _
    exact Path.placeFrom_eq_iff _ _ e
  case between =>
    intro name names c member
    obtain ⟨root, place⟩ := shelf_eq names here
    obtain ⟨same, levels⟩ := output_route member
    rw [Found, Path.placeFrom_eq_iff, same, root, levels, place]
    cases isAbsolute r.list with
    | true => simp
    | false => simpa using Path.Route.rdrop_placeFrom_iff _ _

/-- Three videos brought to a common layout, their list in a directory of its own. -/
def shelved : Merge where
  takes := [⟨"s1.mp4", none⟩, ⟨"s2.mp4", none⟩, ⟨"s3.mp4", none⟩]
  list := "work/list.txt"
  output := "story.mp4"
  normalize := true

theorem shelved_leads :
    Path.Names shelved.list "list.txt".toList ∧ shelved.takes ≠ []
      ∧ ∃ plan, shelved.plan = .ok plan ∧ shelved.Leads ["home".toList] plan := by
  have some : shelved.takes ≠ [] := by simp [shelved]
  have names : Path.Names shelved.list "list.txt".toList :=
    ⟨by decide, ["work".toList], [], by decide +kernel, by simp⟩
  exact ⟨names, some, plan_leads some _⟩

/-- None of the files that its commands write is found from its list, wherever they run. -/
theorem shelved_lost :
    ∃ plan, shelved.plan = .ok plan
      ∧ readList plan.listText = some (shelved.steps.map Command.output)
      ∧ shelved.steps.map Command.output
        = ["work/normalized_0.mp4", "work/normalized_1.mp4", "work/normalized_2.mp4"]
      ∧ ∀ e ∈ shelved.steps.map Command.output, ∀ here : Place, ¬ shelved.Found here e := by
  have written : shelved.steps.map Command.output
      = ["work/normalized_0.mp4", "work/normalized_1.mp4", "work/normalized_2.mp4"] := by
    decide +kernel
  refine ⟨_, rfl, ?_, written, ?_⟩
  · rw [written]
    decide +kernel
  · intro e member here found
    have straight : ∀ e ∈ ["work/normalized_0.mp4", "work/normalized_1.mp4",
        "work/normalized_2.mp4"], isAbsolute e = false ∧ (route e).levels = 0 := by
      decide +kernel
    obtain ⟨relative, level⟩ := straight e (written ▸ member)
    have shelf : shelved.shelf here = here ++ ["work".toList] := by
      have root : isAbsolute shelved.list = false := by decide
      have levels : (route shelved.list).levels = 0 := by decide +kernel
      have names : (route shelved.list).names = ["work".toList, "list.txt".toList] := by
        decide +kernel
      rw [Merge.shelf, Path.placeFrom_route, root, Path.Route.placeFrom, levels, names]
      simp [List.rdrop]
    have deeper := congrArg List.length
      (((Path.placeFrom_eq_iff _ _ e).mp found).resolve_left (by simp [relative]))
    rw [level, shelf] at deeper
    simp [List.rdrop] at deeper

end Merge

end Montage
