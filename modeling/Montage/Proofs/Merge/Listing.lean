/-
# Montage.Proofs.Merge.Listing -- what a reader finds on a list

A list names one video a line.  The reader of a list takes it apart at its line feeds and
takes the quotes off each line, so it finds what was listed, as long as no name holds a
line feed of its own.

What was listed are paths as they are shown.  That is the path itself if the path is a text
(`RawPath.IsText`), and another one if it is not.
-/
import Montage.Merge
import Montage.Proofs.Text.Utf8

namespace Montage

set_option autoImplicit false

/-! ## Paths as they are shown -/

namespace RawPath

/-- A path that some text spells: its bytes are UTF-8. -/
def IsText (p : RawPath) : Prop := ∃ s, p = ofString s

theorem isText_ofString (s : String) : (ofString s).IsText := ⟨s, rfl⟩

@[simp]
theorem display_ofString (s : String) : (ofString s).display = s := Utf8.shown_encode s

/-- A path is what it is shown as exactly if it is a text. -/
theorem ofString_display_eq_iff {p : RawPath} : ofString p.display = p ↔ p.IsText := by
  constructor
  · exact fun same => ⟨p.display, same.symm⟩
  · rintro ⟨s, rfl⟩
    rw [display_ofString]

/-- A path without a line feed is shown without one. -/
theorem not_mem_display {p : RawPath} (free : 10 ∉ p.bytes) : '\n' ∉ p.display.toList :=
  Utf8.not_mem_shown free

@[simp]
theorem map_display_ofString (texts : List String) : (texts.map ofString).map display = texts := by
  simp [Function.comp_def]

end RawPath

/-! ## Lines -/

/-- The line of a list that names a video, without its end. -/
def listLine (video : String) : List Char := listKeyword ++ quotedChars video.toList

theorem concatList_toList (videos : List RawPath) :
    (concatList videos).toList = videos.flatMap fun v => listLine v.display ++ ['\n'] := by
  unfold concatList
  induction videos with
  | nil => rfl
  | cons v rest ih =>
      rw [List.map_cons, String.join_cons, String.toList_append, ih, List.flatMap_cons]
      simp only [String.toList_append, quoted, String.toList_ofList, listLine]
      rfl

/-- A video whose name holds no line feed is named on a single line. -/
theorem not_mem_listLine {video : String} (free : '\n' ∉ video.toList) :
    '\n' ∉ listLine video := by
  have keyword : '\n' ∉ listKeyword := by decide
  have mark : '\n' ≠ quoteMark := by decide
  intro member
  rcases List.mem_append.mp member with early | quotes
  · exact keyword early
  · rw [quotedChars, List.mem_cons, List.mem_append, List.mem_singleton] at quotes
    rcases quotes with here | among | here
    · exact mark here
    · obtain ⟨c, member, written⟩ := List.mem_flatMap.mp among
      unfold quotedChar at written
      split at written
      · revert written
        decide
      · obtain rfl := List.mem_singleton.mp written
        exact free member
    · exact mark here

theorem readListLine_listLine (video : String) : readListLine (listLine video) = some video := by
  have keyword : listKeyword.isPrefixOf (listLine video) = true := by
    rw [List.isPrefixOf_iff_prefix]
    exact List.prefix_append _ _
  rw [readListLine, if_pos keyword, listLine, List.drop_left, unquote_quotedChars]
  simp

/-! ## Lists -/

/-- The lines of a list, and the empty rest behind the last of them. -/
theorem splitOn_lines {lines : List (List Char)} (free : ∀ l ∈ lines, '\n' ∉ l) :
    (lines.flatMap fun l => l ++ ['\n']).splitOn '\n' = lines ++ [[]] := by
  induction lines with
  | nil => rfl
  | cons l rest ih =>
      have first : '\n' ∉ l := free l (List.mem_cons_self ..)
      have later := ih fun k member => free k (List.mem_cons_of_mem _ member)
      rw [List.flatMap_cons, List.append_assoc, List.singleton_append,
        List.splitOn_append_cons_self_of_not_mem first, later, List.cons_append]

/-- The lines of a list name its videos, one after the other. -/
theorem splitOn_concatList {videos : List RawPath}
    (free : ∀ v ∈ videos, '\n' ∉ v.display.toList) :
    (concatList videos).toList.splitOn '\n'
      = (videos.map RawPath.display).map listLine ++ [[]] := by
  have lines : ∀ l ∈ (videos.map RawPath.display).map listLine, '\n' ∉ l := by
    intro l member
    rw [List.map_map] at member
    obtain ⟨v, among, rfl⟩ := List.mem_map.mp member
    exact not_mem_listLine (free v among)
  rw [concatList_toList, ← splitOn_lines lines, List.flatMap_map, List.flatMap_map]

/-- What was listed is what is found on the list, as it is shown. -/
theorem readList_concatList {videos : List RawPath}
    (free : ∀ v ∈ videos, '\n' ∉ v.display.toList) :
    readList (concatList videos) = some (videos.map RawPath.display) := by
  rw [readList, splitOn_concatList free, List.reverse_append]
  generalize videos.map RawPath.display = shown
  have each : shown.mapM (fun v => readListLine (listLine v)) = some shown := by
    simp only [readListLine_listLine]
    exact (List.mapM_pure ..).trans (congrArg some (List.map_id shown))
  show (shown.map listLine).reverse.reverse.mapM readListLine = some shown
  rw [List.reverse_reverse, List.mapM_map]
  exact each

/-- Texts are found on a list as they are. -/
theorem readList_ofTexts {texts : List String} (free : ∀ s ∈ texts, '\n' ∉ s.toList) :
    readList (concatList (texts.map .ofString)) = some texts := by
  have shown : ∀ v ∈ texts.map RawPath.ofString, '\n' ∉ v.display.toList := by
    simpa using free
  rw [readList_concatList shown, RawPath.map_display_ofString]

end Montage
