/-
# Montage.Proofs.Host.Writing -- what is written is what is read

A text is put in a directory that is there already, and never in the place of one.  So
nothing that was there is missing then (`Grows`), every path that could be followed leads to
the same place as before, and the path that was written to leads to the text.
-/
import Montage.Proofs.Host.Workspace

namespace Montage

set_option autoImplicit false

namespace Workspace

/-- Nothing is missing later that was there before, and directories are still directories. -/
structure Grows (before after : Workspace) : Prop where
  there : ∀ p, (before.entry? p).isSome = true → (after.entry? p).isSome = true
  directories : ∀ p, before.isDirectory p = true → after.isDirectory p = true

theorem Grows.step {before after : Workspace} (grows : before.Grows after) {place next : Place}
    {part : List Char} (found : before.step place part = some next) :
    after.step place part = some next := by
  unfold Workspace.step at found ⊢
  split at found
  · cases found
  rename_i inside
  have kept := grows.directories place (by simpa using inside)
  rw [if_neg (by simp [kept])]
  split at found
  · rename_i idle
    rwa [if_pos idle]
  rename_i busy
  rw [if_neg busy]
  split at found
  · rename_i up
    rwa [if_pos up]
  rename_i name
  rw [if_neg name]
  split at found
  · rename_i there
    rwa [if_pos (grows.there _ there)]
  · cases found

/-- A path that could be followed leads to the same place. -/
theorem Grows.follow {before after : Workspace} (grows : before.Grows after) {place last : Place}
    {parts : List (List Char)} (found : before.follow place parts = some last) :
    after.follow place parts = some last := by
  unfold Workspace.follow at found ⊢
  induction parts generalizing place with
  | nil => exact found
  | cons part rest ih =>
      rw [List.foldlM_cons] at found ⊢
      obtain ⟨next, first, later⟩ := Option.bind_eq_some_iff.mp found
      rw [grows.step first]
      exact ih later

variable {w : Workspace} {target : Place}

theorem entry?_put_self (e : Entry) (below : target ≠ []) :
    Workspace.entry? (w.put target e) target = some e := by
  simp [ entry?, put, below]

theorem entry?_put_of_ne {p : Place} (e : Entry) (other : p ≠ target) :
    Workspace.entry? (w.put target e) p = w.entry? p := by
  have kept (entries : List (Place × Entry)) :
      (entries.filter fun old => old.1 ≠ target).lookup p = entries.lookup p := by
    induction entries with
    | nil => rfl
    | cons old rest ih =>
        obtain ⟨place, e⟩ := old
        by_cases same : place = target
        · have passed : (p == place) = false := by simpa [same] using other
          rw [List.filter_cons_of_neg (by simpa using same), List.lookup_cons, passed, ih]
        · rw [List.filter_cons_of_pos (by simpa using same), List.lookup_cons, List.lookup_cons, ih]
  have passed : (p == target) = false := by simpa using other
  rw [ entry?, entry?, put, List.lookup_cons, passed, kept]

theorem grows_put (text : String) (free : w.isDirectory target = false) :
    w.Grows (w.put target (.file text)) := by
  have below : target ≠ [] := by
    rintro rfl
    cases free
  constructor
  case there =>
    intro p there
    by_cases same : p = target
    · rw [same, entry?_put_self _ below]
      rfl
    · rwa [entry?_put_of_ne _ same]
  case directories =>
    intro p there
    have other : p ≠ target := by
      rintro rfl
      rw [free] at there
      cases there
    rwa [isDirectory, entry?_put_of_ne _ other]

theorem follow_append (w : Workspace) (place : Place) (first later : List (List Char)) :
    w.follow place (first ++ later) = (w.follow place first).bind (w.follow · later) :=
  List.foldlM_append

/-- A name in a directory leads to what is there. -/
theorem follow_name {place : Place} {name : List Char} (inside : w.isDirectory place = true)
    (named : isName name = true) (there : (w.entry? (place ++ [name])).isSome = true) :
    w.follow place [name] = some (place ++ [name]) := by
  rw [isName, Bool.and_eq_true, Bool.not_eq_true', decide_eq_true_eq] at named
  simp [follow, step, inside, named, there]

/-- Where a text is put when it is written: a name in a directory, and no directory itself. -/
theorem write_cases {path text : String} (done : (w.write path text).2 = true) :
    ∃ before name place, Path.parts path = before ++ [name] ∧ isName name = true
      ∧ w.follow (w.start path) before = some place ∧ w.isDirectory place = true
      ∧ w.isDirectory (place ++ [name]) = false
      ∧ (w.write path text).1 = w.put (place ++ [name]) (.file text) := by
  unfold write at done ⊢
  dsimp only at done ⊢
  cases ends : (Path.parts path).getLast? with
  | none => simp [ends] at done
  | some name =>
      obtain ⟨before, parts⟩ := List.getLast?_eq_some_iff.mp ends
      rw [ends, parts, List.dropLast_concat] at done
      rw [parts, List.dropLast_concat]
      cases way : w.follow (w.start path) before with
      | none => simp [way] at done
      | some place =>
          simp only [way] at done ⊢
          split at done
          · rename_i writes
            obtain ⟨inside, named, free⟩ := writes
            refine ⟨before, name, place, rfl, named, way, inside, by simpa using free, ?_⟩
            rw [if_pos ⟨inside, named, free⟩]
          · cases done

/-- **What is written is what is read.** -/
theorem read_of_write {path text : String} (done : (w.write path text).2 = true) :
    (w.write path text).1.read path = .text text := by
  obtain ⟨before, name, place, parts, named, way, inside, free, left⟩ := write_cases done
  have grows := grows_put text free
  have put : Workspace.entry? (w.put (place ++ [name]) (.file text)) (place ++ [name])
      = some (.file text) := entry?_put_self _ (by simp)
  have some : path ≠ "" := by
    rintro rfl
    cases before with
    | nil =>
        cases parts
        cases named
    | cons first more => simp [Path.parts] at parts
  have found : (w.put (place ++ [name]) (.file text)).place? path = .some (place ++ [name]) := by
    have start : (w.put (place ++ [name]) (.file text)).start path = w.start path := rfl
    rw [place?, if_neg some, start, parts, follow_append, grows.follow way, Option.bind_some]
    exact follow_name (grows.directories place inside) named (by rw [put]; rfl)
  rw [left, read, at?, found, Option.bind_some, put]

end Workspace

end Montage
