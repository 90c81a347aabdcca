/-
# Montage.Proofs.Path -- where a path leads

A relative path leads somewhere only for a reader who stands somewhere.  `Path.placeFrom`
is the place it leads to by its parts alone, whatever is or is not there.

The parts of a path come down to some levels up and some names below (`Path.route`), so
two readers who stand at different places are led to the same one exactly if, that many
levels up, they stand at the same.
-/
import Montage.Host.Workspace
import Montage.Proofs.Text.Blank

namespace Montage

set_option autoImplicit false

namespace Path

/-- The place that one part leads to. -/
def enter (place : Place) (part : List Char) : Place :=
  if isIdle part then place
  else if part = Workspace.back then place.dropLast
  else place ++ [part]

/-- The place that a path leads to for a reader at a place. -/
def placeFrom (here : Place) (path : String) : Place :=
  (parts path).foldl enter (if isAbsolute path then [] else here)

/-! ## Levels up and names below -/

/-- A way from a place: some levels up, and from there down by some names. -/
structure Route where
  levels : Nat := 0
  names : Place := []

/-- The way that goes on with one more part. -/
def Route.enter (way : Route) (part : List Char) : Route :=
  if isIdle part then way
  else if part = Workspace.back then
    if way.names = [] then { way with levels := way.levels + 1 }
    else { way with names := way.names.dropLast }
  else { way with names := way.names ++ [part] }

/-- Where a way leads to from a place. -/
def Route.placeFrom (way : Route) (here : Place) : Place := here.rdrop way.levels ++ way.names

/-- The way that a path describes. -/
def route (path : String) : Route := (parts path).foldl Route.enter {}

theorem dropLast_rdrop (place : Place) (n : Nat) : (place.rdrop n).dropLast = place.rdrop (n + 1) := by
  simp only [List.rdrop, List.dropLast_eq_take, List.take_take, List.length_take]
  congr 1
  omega

/-- A way is kept as it is gone: one more part of it leads to where the part leads. -/
theorem Route.placeFrom_enter (way : Route) (part : List Char) (here : Place) :
    (way.enter part).placeFrom here = Path.enter (way.placeFrom here) part := by
  unfold Route.enter Path.enter
  by_cases idle : isIdle part = true
  · rw [if_pos idle, if_pos idle]
  · rw [if_neg idle, if_neg idle]
    by_cases up : part = Workspace.back
    · rw [if_pos up, if_pos up]
      by_cases top : way.names = []
      · -- No name is left to go back from, so the way starts one level higher.
        simp only [Route.placeFrom, top, if_true, List.append_nil, dropLast_rdrop]
      · simp only [Route.placeFrom, top, if_false]
        rw [List.dropLast_append_of_ne_nil top]
    · rw [if_neg up, if_neg up]
      simp only [Route.placeFrom, List.append_assoc]

theorem Route.placeFrom_foldl (parts : List (List Char)) (way : Route) (here : Place) :
    (parts.foldl Route.enter way).placeFrom here = parts.foldl Path.enter (way.placeFrom here) := by
  induction parts generalizing way with
  | nil => rfl
  | cons part rest ih => rw [List.foldl_cons, List.foldl_cons, ih, placeFrom_enter]

/-- A path leads along its way, from the root or from where its reader stands. -/
theorem placeFrom_route (here : Place) (path : String) :
    placeFrom here path = (route path).placeFrom (if isAbsolute path then [] else here) := by
  have start : ∀ place, Route.placeFrom {} place = place := fun place => by
    simp [Route.placeFrom, List.rdrop]
  rw [placeFrom, route, Route.placeFrom_foldl, start]

/-- Two readers are led to the same place exactly if the path starts at the root, or they
stand at the same place as many levels up as the path goes. -/
theorem placeFrom_eq_iff (here there : Place) (path : String) :
    placeFrom here path = placeFrom there path ↔
      isAbsolute path = true
        ∨ here.rdrop (route path).levels = there.rdrop (route path).levels := by
  rw [placeFrom_route, placeFrom_route]
  cases isAbsolute path <;> simp [Route.placeFrom]

/-- Readers in two directories side by side agree on a path that climbs out of them. -/
example : placeFrom ["a".toList, "b".toList] "../x/./y"
    = placeFrom ["a".toList, "c".toList] "../x/./y" := by
  decide +kernel

/-- The way that goes on down by a name. -/
def Route.below (way : Route) (name : List Char) : Route := { way with names := way.names ++ [name] }

@[simp] theorem Route.levels_below (way : Route) (name : List Char) :
    (way.below name).levels = way.levels := rfl

theorem Route.placeFrom_below (way : Route) (name : List Char) (here : Place) :
    (way.below name).placeFrom here = way.placeFrom here ++ [name] := by
  rw [Route.placeFrom, below, ← List.append_assoc]
  rfl

/-- Who has gone a way finds the place it started from, as many levels up as the way went
up itself, exactly if the way went down as often; or if it only climbed, from a place so
near the root that it ended there. -/
theorem Route.rdrop_placeFrom_iff (way : Route) (here : Place) :
    (way.placeFrom here).rdrop way.levels = here.rdrop way.levels ↔
      way.names.length = way.levels
        ∨ here.length ≤ way.levels ∧ way.names.length ≤ way.levels := by
  obtain ⟨levels, names⟩ := way
  simp only [Route.placeFrom, List.rdrop, List.length_append, List.length_take]
  constructor
  · intro same
    have length := congrArg List.length same
    simp only [List.length_take, List.length_append] at length
    omega
  · rintro (even | ⟨near, few⟩)
    · rw [List.take_append_of_le_length (by simp; omega), List.take_take]
      congr 1
      omega
    · have top : here.length - levels = 0 := by omega
      simp [top, few]

/-! ## Parts -/

theorem not_mem_parts (path : String) : ∀ part ∈ parts path, separator ∉ part :=
  fun _ member => not_mem_of_mem_splitOn member

theorem parts_ofParts {ps : List (List Char)} (nonempty : ps ≠ [])
    (free : ∀ p ∈ ps, separator ∉ p) : parts (ofParts ps) = ps := by
  rw [parts, ofParts, String.toList_ofList]
  exact List.splitOn_intercalate _ free nonempty

/-- Whether parts are those of a path that starts at the root. -/
def atRoot : List (List Char) → Bool
  | [] :: _ :: _ => true
  | _ => false

theorem isAbsolute_eq (path : String) : isAbsolute path = atRoot (parts path) := by
  rw [isAbsolute, parts]
  cases path.toList with
  | nil => rfl
  | cons c cs =>
      rw [List.splitOn_eq_splitOnP, List.splitOnP_cons_eq_if_modifyHead]
      cases pieces : cs.splitOnP (· == separator) with
      | nil => exact (List.splitOnP_ne_nil _ _ pieces).elim
      | cons first more =>
          by_cases root : c = separator
          · simp [root, atRoot]
          · simp [root, atRoot]

theorem foldl_idle {way : Route} {ps idles : List (List Char)} (idle : ∀ p ∈ idles, isIdle p = true) :
    (ps ++ idles).foldl Route.enter way = ps.foldl Route.enter way := by
  rw [List.foldl_append]
  generalize ps.foldl Route.enter way = way
  induction idles with
  | nil => rfl
  | cons p rest ih =>
      rw [List.foldl_cons, Route.enter, if_pos (idle p (List.mem_cons_self ..))]
      exact ih fun q member => idle q (List.mem_cons_of_mem _ member)

theorem Route.enter_name (way : Route) {name : List Char} (named : Workspace.isName name = true) :
    way.enter name = way.below name := by
  rw [Workspace.isName, Bool.and_eq_true, Bool.not_eq_true', decide_eq_true_eq] at named
  rw [Route.enter, if_neg (by simp [named.1]), if_neg named.2]
  rfl

/-! ## Directories and what they hold -/

/-- The parts of a path that are left when the idle ones at its end are gone. -/
theorem exists_trimmed (ps : List (List Char)) :
    ∃ idles, (∀ p ∈ idles, isIdle p = true)
      ∧ ps = (ps.reverse.dropWhile isIdle).reverse ++ idles := by
  refine ⟨(ps.reverse.takeWhile isIdle).reverse, ?_, ?_⟩
  · intro p member
    exact List.mem_takeWhile_imp (List.mem_reverse.mp member)
  · rw [← List.reverse_append, List.takeWhile_append_dropWhile, List.reverse_reverse]

/-- The last part of a path that is not idle is a name. -/
def Names (path : String) (name : List Char) : Prop :=
  Workspace.isName name = true
    ∧ ∃ before idles, parts path = before ++ name :: idles ∧ ∀ p ∈ idles, isIdle p = true

/-- What a path names lies below its parent. -/
theorem parent?_of_names {path : String} {name : List Char} (names : Names path name) :
    ∃ directory, parent? path = some directory ∧ isAbsolute directory = isAbsolute path
      ∧ route path = (route directory).below name := by
  obtain ⟨named, before, idles, form, idle⟩ := names
  have way : route path = (before.foldl Route.enter {}).below name := by
    rw [route, form, ← List.singleton_append, ← List.append_assoc, foldl_idle idle,
      List.foldl_append]
    exact Route.enter_name _ named
  have busy : isIdle name = false := by
    rw [Workspace.isName, Bool.and_eq_true, Bool.not_eq_true'] at named
    exact named.1
  cases before with
  | nil =>
      -- The name is all there is, so its parent is where the reader stands.
      have last : idles.reverse.dropWhile isIdle = [] :=
        List.dropWhile_eq_nil_iff.mpr fun p member => idle p (List.mem_reverse.mp member)
      cases name with
      | nil => cases busy
      | cons c cs =>
          refine ⟨"", ?_, ?_, way⟩
          · rw [parent?, form]
            show parentOf? (c :: cs) idles = _
            unfold parentOf?
            rw [last]
          · rw [isAbsolute_eq path, form]
            rfl
  | cons first before =>
      have last : (before ++ name :: idles).reverse.dropWhile isIdle = name :: before.reverse := by
        rw [List.reverse_append, List.reverse_cons, List.append_assoc, List.singleton_append,
          List.dropWhile_append_of_pos fun p member => idle p (List.mem_reverse.mp member),
          List.dropWhile_cons_of_neg (by simp [busy])]
      have parent : parent? path = parentOf? first (before ++ name :: idles) := by
        rw [parent?, form]
        rfl
      unfold parentOf? at parent
      rw [last] at parent
      obtain ⟨ends, idle, trimmed⟩ := exists_trimmed before
      obtain ⟨kept, trimming⟩ : ∃ kept, (before.reverse.dropWhile isIdle).reverse = kept := ⟨_, rfl⟩
      rw [trimming] at trimmed
      -- A path with the first part and those that are kept goes all the way to the name.
      have free : ∀ p ∈ first :: kept, separator ∉ p := by
        intro p member
        refine not_mem_parts path p ?_
        rw [form, trimmed]
        rcases List.mem_cons.mp member with rfl | member <;> simp_all
      have whole := parts_ofParts (List.cons_ne_nil first kept) free
      have same : route (ofParts (first :: kept)) = (first :: before).foldl Route.enter {} := by
        rw [route, whole, trimmed, ← List.cons_append, foldl_idle idle]
      cases first with
      | nil =>
          have root : isAbsolute path = true := by
            rw [isAbsolute_eq, form]
            cases before <;> rfl
          dsimp only at parent
          rw [trimming] at parent
          cases kept with
          | nil =>
              refine ⟨"/", parent, root.symm ▸ by decide, ?_⟩
              rw [way, ← same]
              congr 1
          | cons k rest =>
              refine ⟨_, parent, ?_, ?_⟩
              · rw [root, isAbsolute_eq, whole]
                rfl
              · rw [way, same]
      | cons c cs =>
          dsimp only at parent
          rw [trimming] at parent
          refine ⟨_, parent, ?_, ?_⟩
          · rw [isAbsolute_eq, isAbsolute_eq, whole, form]
            rfl
          · rw [way, same]

theorem isRelative_of_single {name : String} (single : separator ∉ name.toList) :
    isAbsolute name = false := by
  rw [isAbsolute, decide_eq_false_iff_not]
  exact fun head => single (List.mem_of_head? head)

theorem isAbsolute_join {directory name : String} (some : directory ≠ "")
    (single : separator ∉ name.toList) :
    isAbsolute (join directory name) = isAbsolute directory := by
  have nonempty : directory.toList ≠ [] := fun empty => some (String.toList_eq_nil_iff.mp empty)
  obtain ⟨c, cs, form⟩ := List.exists_cons_of_ne_nil nonempty
  rw [join, if_neg (by simp [isRelative_of_single single, some])]
  split
  · simp [isAbsolute, form]
  · simp [isAbsolute, form]

/-- The parts of a directory, up to idle ones at its end, and behind them the name. -/
theorem parts_join {directory name : String} (some : directory ≠ "") (single : separator ∉ name.toList) :
    ∃ ps idles, parts directory = ps ++ idles ∧ (∀ p ∈ idles, isIdle p = true)
      ∧ parts (join directory name) = ps ++ [name.toList] := by
  have alone : name.toList.splitOn separator = [name.toList] := List.splitOn_eq_singleton single
  rw [join, if_neg (by simp [isRelative_of_single single, some])]
  split
  · -- The slash at the end is followed by an empty part, which the name takes the place of.
    rename_i slash
    obtain ⟨cs, ends⟩ := List.getLast?_eq_some_iff.mp slash
    refine ⟨cs.splitOn separator, [[]], ?_, by simp [isIdle], ?_⟩
    · rw [parts, ends, List.splitOn_append_cons_self, List.splitOn_nil]
    · rw [parts, String.toList_append, ends, List.append_assoc, List.singleton_append,
        List.splitOn_append_cons_self, alone]
  · refine ⟨parts directory, [], (List.append_nil _).symm, by simp, ?_⟩
    have slash : "/".toList = [separator] := rfl
    rw [parts, String.toList_append, String.toList_append, slash, List.append_assoc,
      List.singleton_append, List.splitOn_append_cons_self, alone]
    rfl

/-- A name in a directory lies below it. -/
theorem join_name (directory : String) {name : String}
    (named : Workspace.isName name.toList = true) (single : separator ∉ name.toList) :
    isAbsolute (join directory name) = isAbsolute directory
      ∧ route (join directory name) = (route directory).below name.toList := by
  by_cases some : directory = ""
  · subst some
    have alone : parts name = [name.toList] := List.splitOn_eq_singleton single
    have same : join "" name = name := by rw [join, if_pos (.inr rfl)]
    rw [same, isRelative_of_single single, route, alone, List.foldl_cons,
      Route.enter_name _ named]
    exact ⟨rfl, rfl⟩
  · obtain ⟨ps, idles, whole, idle, joined⟩ := parts_join some single
    have way : route directory = ps.foldl Route.enter {} := by rw [route, whole, foldl_idle idle]
    refine ⟨isAbsolute_join some single, ?_⟩
    rw [route, joined, List.foldl_append, ← way]
    exact Route.enter_name _ named

end Path

end Montage
