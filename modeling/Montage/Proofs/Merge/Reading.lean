/-
# Montage.Proofs.Merge.Reading -- a list is read as it was made

A joiner of videos reads a list line by line, and behind the keyword of a line it takes one
token (`tokenFrom`).  A token is made of pieces with and without quotes and ends at the first
white space outside of them, so a path comes back whole only if none of its blanks, quotes
and backslashes stands outside of quotes.  On a list nothing does but the quotes themselves:
the token of every line is the path as it is shown, and nothing is left behind it.

So texts are read back.  A path that is no text is not, and two of them may make one list
(`undecodable_alike`).
-/
import Mathlib.Data.List.Forall2
import Montage.Proofs.Host.Writing
import Montage.Proofs.Merge.Listing
import Montage.Render

namespace Montage

set_option autoImplicit false

/-! ## Tokens -/

/-- The characters that end a token where they stand outside of quotes. -/
def tokenEnds : List Char := [' ', '\t', '\r', '\n']

/-- The token that the rest of a text starts with, and what is left behind it; none if a quote
is left open or a backslash stands at the end. -/
def tokenFrom (q : Quoting) : List Char → Option (List Char × List Char)
  | [] => if q = .plain then some ([], []) else none
  | c :: rest =>
      if q = .plain ∧ c ∈ tokenEnds then some ([], c :: rest)
      else
        let (next, taken) := q.step c
        (tokenFrom next rest).map fun (token, left) => (taken.toList ++ token, left)

/-- A character between quotes belongs to the token, whatever it is. -/
theorem tokenFrom_quotedChar (c : Char) (rest : List Char) :
    tokenFrom .inside (quotedChar c ++ rest)
      = (tokenFrom .inside rest).map fun (token, left) => (c :: token, left) := by
  by_cases quote : c = quoteMark
  · subst quote
    have mark : quoteMark ∉ tokenEnds := by decide
    have escapes : '\\' ≠ quoteMark ∧ '\\' ∉ tokenEnds := by decide
    simp [quotedChar, tokenFrom, Quoting.step, mark, escapes, Function.comp_def]
  · simp [quotedChar, tokenFrom, Quoting.step, quote]

theorem tokenFrom_flatMap (cs rest : List Char) :
    tokenFrom .inside (cs.flatMap quotedChar ++ quoteMark :: rest)
      = (tokenFrom .plain rest).map fun (token, left) => (cs ++ token, left) := by
  induction cs with
  | nil => simp [tokenFrom, Quoting.step]
  | cons c cs ih =>
      rw [List.flatMap_cons, List.append_assoc, tokenFrom_quotedChar, ih]
      simp [Function.comp_def]

/-- What is quoted is one token, however many blanks, quotes and backslashes it holds. -/
theorem tokenFrom_quotedChars (cs : List Char) :
    tokenFrom .plain (quotedChars cs) = some (cs, []) := by
  have opens : quoteMark ∉ tokenEnds := by decide
  have start : tokenFrom .plain (quotedChars cs)
      = tokenFrom .inside (cs.flatMap quotedChar ++ [quoteMark]) := by
    simp [quotedChars, tokenFrom, Quoting.step, opens]
  rw [start, tokenFrom_flatMap]
  simp [tokenFrom]

/-! ## Lines -/

/-- A line has a path behind its keyword, and nothing else. -/
def Lists (line : List Char) (path : String) : Prop :=
  ∃ rest, line = listKeyword ++ rest ∧ tokenFrom .plain rest = some (path.toList, [])

theorem lists_listLine (path : String) : Lists (listLine path) path :=
  ⟨quotedChars path.toList, rfl, tokenFrom_quotedChars _⟩

/-! ## Files -/

/-- Where a list could be written, it is there. -/
theorem read_writeList {plan : MergePlan} {w : Workspace}
    (done : w.answer (plan.writeList : Workspace.Failing Unit).run = .ok ()) :
    (w.after (plan.writeList : Workspace.Failing Unit).run).read plan.listPath
      = .text plan.listText := by
  unfold MergePlan.writeList at done ⊢
  obtain ⟨_, made, done⟩ := Workspace.answer_bind_ok done
  rw [ExceptT.run_bind, Workspace.after_bind, made]
  -- The directory has been made, and what is left is to write the text.
  generalize w.after (Host.makeParent plan.listPath : Workspace.Failing Unit).run = v at done ⊢
  change v.answer (ExceptT.lift (Host.write plan.listPath plan.listText) >>= _).run = _ at done
  change (v.after (ExceptT.lift (Host.write plan.listPath plan.listText) >>= _).run).read _ = _
  rw [Workspace.answer_lift_bind] at done
  rw [Workspace.after_lift_bind]
  cases written : v.answer (Host.write plan.listPath plan.listText) with
  | false =>
      rw [written] at done
      cases done
  | true => exact Workspace.read_of_write written

theorem listText_of {videos : List RawPath} {list output : String} {plan : MergePlan}
    (planned : MergePlan.of videos list output = .ok plan) :
    plan.listPath = list ∧ plan.listText = concatList videos := by
  unfold MergePlan.of at planned
  split at planned
  · cases planned
  · cases planned
    exact ⟨rfl, rfl⟩

/-! ## Paths that are read back -/

/-- Paths are what they are shown as exactly if they are texts. -/
theorem map_ofString_display_eq_iff {videos : List RawPath} :
    (videos.map RawPath.display).map RawPath.ofString = videos ↔ ∀ v ∈ videos, v.IsText := by
  rw [List.map_map]
  constructor
  · intro same v member
    obtain ⟨w, -, rfl⟩ := List.mem_map.mp (same ▸ member)
    exact RawPath.isText_ofString _
  · intro texts
    exact (List.map_congr_left fun v member =>
      RawPath.ofString_display_eq_iff.mpr (texts v member)).trans (List.map_id videos)

/-- Two lists are the same text exactly if their paths are shown alike. -/
theorem concatList_eq_iff {videos others : List RawPath} (free : ∀ v ∈ videos, 10 ∉ v.bytes)
    (plain : ∀ v ∈ others, 10 ∉ v.bytes) :
    concatList others = concatList videos
      ↔ others.map RawPath.display = videos.map RawPath.display := by
  constructor
  · intro same
    have read := readList_concatList fun v member => RawPath.not_mem_display (plain v member)
    rw [same, readList_concatList fun v member => RawPath.not_mem_display (free v member)] at read
    exact (Option.some.inj read).symm
  · intro same
    have shown (vs : List RawPath) : concatList vs
        = String.join ((vs.map RawPath.display).map fun s => "file " ++ quoted s ++ "\n") := by
      rw [concatList, List.map_map]
      rfl
    rw [shown, shown, same]

/-- **A list is read as it was made.**  If no path holds a line feed, each line has one path as
its token, in their order, as it is shown; so the paths are read back exactly if all of them are
texts, different lists of texts are different, and lists are the same only where their paths are
shown alike.  What the list of a plan is written to holds that list. -/
theorem list_reads_back {videos : List RawPath} (free : ∀ v ∈ videos, 10 ∉ v.bytes) :
    (∃ lines, (concatList videos).toList.splitOn '\n' = lines ++ [[]]
        ∧ List.Forall₂ Lists lines (videos.map RawPath.display))
      ∧ readList (concatList videos) = some (videos.map RawPath.display)
      ∧ ((readList (concatList videos)).map (List.map RawPath.ofString) = some videos
          ↔ ∀ v ∈ videos, v.IsText)
      ∧ (∀ others : List RawPath, (∀ v ∈ others, 10 ∉ v.bytes) →
          (concatList others = concatList videos
              ↔ others.map RawPath.display = videos.map RawPath.display)
            ∧ ((∀ v ∈ videos, v.IsText) → (∀ v ∈ others, v.IsText) →
              concatList others = concatList videos → others = videos))
      ∧ ∀ (list output : String) (plan : MergePlan) (w : Workspace),
          MergePlan.of videos list output = .ok plan →
          w.answer (plan.writeList : Workspace.Failing Unit).run = .ok () →
          (w.after (plan.writeList : Workspace.Failing Unit).run).read list
            = .text (concatList videos) := by
  have shown : ∀ v ∈ videos, '\n' ∉ v.display.toList :=
    fun v member => RawPath.not_mem_display (free v member)
  refine ⟨⟨(videos.map RawPath.display).map listLine, splitOn_concatList shown, ?_⟩,
    readList_concatList shown, ?_, fun others plain => ⟨concatList_eq_iff free plain, ?_⟩, ?_⟩
  · rw [List.forall₂_map_left_iff, List.forall₂_same]
    exact fun path _ => lists_listLine path
  · rw [readList_concatList shown, Option.map_some, Option.some_inj]
    exact map_ofString_display_eq_iff
  · intro texts otherTexts same
    have alike := (concatList_eq_iff free plain).mp same
    rw [← map_ofString_display_eq_iff.mpr otherTexts, alike, map_ofString_display_eq_iff.mpr texts]
  · intro list output plan w planned written
    obtain ⟨path, text⟩ := listText_of planned
    rw [← path, ← text]
    exact read_writeList written

/-- Paths with quotes, backslashes and blanks where they hurt, one of other letters, and one
without characters. -/
def awkward : List RawPath :=
  ["it's", "\x27\x27x\\", "\\\x27", " a\tb ", "日本", "", "file \x27"].map .ofString

theorem awkward_reads_back :
    (∀ v ∈ awkward, 10 ∉ v.bytes)
      ∧ (readList (concatList awkward)).map (List.map RawPath.ofString) = some awkward
      ∧ concatList awkward.reverse ≠ concatList awkward
      ∧ ∃ plan, MergePlan.of awkward "shelf/list.txt" "story.mp4" = .ok plan
        ∧ Workspace.answer {} (plan.writeList : Workspace.Failing Unit).run = .ok ()
        ∧ (Workspace.after {} (plan.writeList : Workspace.Failing Unit).run).read "shelf/list.txt"
          = .text (concatList awkward) := by
  have free : ∀ v ∈ awkward, 10 ∉ v.bytes := by decide +kernel
  have texts : ∀ v ∈ awkward, v.IsText := List.forall_mem_map.mpr fun s _ =>
    RawPath.isText_ofString s
  obtain ⟨-, -, back, others, written⟩ := list_reads_back free
  refine ⟨free, back.mpr texts, ?_, _, rfl, ?_, ?_⟩
  · intro same
    have within {v : RawPath} (member : v ∈ awkward.reverse) : v ∈ awkward :=
      List.mem_reverse.mp member
    obtain ⟨-, differ⟩ := others awkward.reverse fun v member => free v (within member)
    have reversed := differ texts (fun v member => texts v (within member)) same
    revert reversed
    decide +kernel
  · decide +kernel
  · exact written _ _ _ _ rfl (by decide +kernel)

/-- A name with a byte in it that may be none of a character. -/
def stray (b : UInt8) : RawPath := ⟨[0x61, b, 0x2E, 0x6D, 0x70, 0x34]⟩

/-- Two paths without line feeds that make one list; what is read of it is neither of them. -/
theorem undecodable_alike :
    10 ∉ (stray 0xFF).bytes ∧ 10 ∉ (stray 0xFE).bytes ∧ [stray 0xFF] ≠ [stray 0xFE]
      ∧ concatList [stray 0xFF] = concatList [stray 0xFE]
      ∧ readList (concatList [stray 0xFF]) = some ["a\uFFFD.mp4"]
      ∧ RawPath.ofString "a\uFFFD.mp4" ≠ stray 0xFF := by
  decide +kernel

end Montage
