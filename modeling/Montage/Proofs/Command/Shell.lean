/-
# Montage.Proofs.Command.Shell -- a shell takes a line apart into the words it was made of

`Shell.split` reads the line of a command character by character.  A word that stands
as it is holds plain characters only, so a reader outside of quotes takes each of them;
a quoted word is read between quotes, and a quote of its own leaves them for a moment
and comes back.  Either way the word is read whole, whatever stands in it, and the
reader is outside of quotes again when the space behind it comes.

What a reader meets outside of quotes (`Shell.exposed`) is what a shell could act on.
There is little of it: plain characters, the spaces between the words, quotes that open
and the backslashes before escaped quotes.
-/
import Montage.Command

namespace Montage

set_option autoImplicit false

namespace Shell

/-- The characters in the rest of a line that are read outside of quotes and behind no
backslash. -/
def exposedFrom (q : Quoting) : List Char → List Char
  | [] => []
  | c :: rest => (if q = .plain then [c] else []) ++ exposedFrom (q.step c).1 rest

/-- The characters of a line that a shell could act on. -/
def exposed (line : String) : List Char := exposedFrom .plain line.toList

/-! ## Plain characters -/

theorem not_isPlain_quoteMark : isPlain quoteMark = false := by decide

theorem not_isPlain_backslash : isPlain '\\' = false := by decide

theorem not_isSpace_of_isPlain {c : Char} (plain : isPlain c = true) : isSpace c = false := by
  rw [isSpace, decide_eq_false_iff_not]
  rintro (rfl | rfl) <;> exact absurd plain (by decide)

theorem not_isPlain_of_mem_actors {c : Char} (member : c ∈ actors) : isPlain c = false := by
  have none : (actors.all fun c => !isPlain c) = true := by decide
  simpa using List.all_eq_true.mp none c member

/-- Outside of quotes a plain character is taken as it is. -/
theorem step_of_isPlain {c : Char} (plain : isPlain c = true) :
    Quoting.step .plain c = (.plain, some c) := by
  have noQuote : c ≠ quoteMark := by
    rintro rfl
    exact absurd plain (by simp [not_isPlain_quoteMark])
  have noBackslash : c ≠ '\\' := by
    rintro rfl
    exact absurd plain (by simp [not_isPlain_backslash])
  simp [Quoting.step, noQuote, noBackslash]

/-! ## One word -/

theorem splitFrom_of_isPlain {c : Char} (plain : isPlain c = true) (read : Option (List Char))
    (rest : List Char) :
    splitFrom .plain read (c :: rest) = splitFrom .plain (some (read.getD [] ++ [c])) rest := by
  have acts : c ∉ actors := by
    intro member
    exact absurd plain (by simp [not_isPlain_of_mem_actors member])
  simp [splitFrom, not_isSpace_of_isPlain plain, acts, step_of_isPlain plain]

/-- Plain characters are taken as they are, behind what has been read of the word. -/
theorem splitFrom_plain {cs : List Char} (plain : ∀ c ∈ cs, isPlain c = true)
    (read rest : List Char) :
    splitFrom .plain (some read) (cs ++ rest) = splitFrom .plain (some (read ++ cs)) rest := by
  induction cs generalizing read with
  | nil => simp
  | cons c cs ih =>
      rw [List.cons_append, splitFrom_of_isPlain (plain c (by simp)),
        ih (fun d member => plain d (by simp [member]))]
      simp

/-- A character between quotes is read as itself, also if it is a quote. -/
theorem splitFrom_quotedChar (c : Char) (read rest : List Char) :
    splitFrom .inside (some read) (quotedChar c ++ rest)
      = splitFrom .inside (some (read ++ [c])) rest := by
  by_cases quote : c = quoteMark
  · subst quote
    have opens : isSpace quoteMark = false ∧ quoteMark ∉ actors := by decide
    have escapes : isSpace '\\' = false ∧ '\\' ∉ actors ∧ '\\' ≠ quoteMark := by decide
    simp [quotedChar, splitFrom, Quoting.step, opens, escapes]
  · simp [quotedChar, splitFrom, Quoting.step, quote]

theorem splitFrom_flatMap (cs read rest : List Char) :
    splitFrom .inside (some read) (cs.flatMap quotedChar ++ quoteMark :: rest)
      = splitFrom .plain (some (read ++ cs)) rest := by
  induction cs generalizing read with
  | nil => simp [splitFrom, Quoting.step]
  | cons c cs ih =>
      rw [List.flatMap_cons, List.append_assoc, splitFrom_quotedChar, ih]
      simp

/-- **A word is read whole**, however it is written. -/
theorem splitFrom_word (s : String) (rest : List Char) :
    splitFrom .plain none ((word s).toList ++ rest) = splitFrom .plain (some s.toList) rest := by
  unfold word
  split
  · rename_i stands
    obtain ⟨nonempty, plain⟩ := stands
    rw [List.all_eq_true] at plain
    cases form : s.toList with
    | nil => exact absurd (String.toList_eq_nil_iff.mp form) nonempty
    | cons c cs =>
        rw [form] at plain
        rw [List.cons_append, splitFrom_of_isPlain (plain c (by simp)),
          splitFrom_plain (fun d member => plain d (by simp [member]))]
        simp
  · have opens : isSpace quoteMark = false ∧ quoteMark ∉ actors := by decide
    have start : splitFrom .plain none ((quoted s).toList ++ rest)
        = splitFrom .inside (some []) (s.toList.flatMap quotedChar ++ quoteMark :: rest) := by
      simp [quoted, quotedChars, splitFrom, Quoting.step, opens]
    rw [start, splitFrom_flatMap, List.nil_append]

/-! ## All words -/

theorem line_singleton (s : String) : line [s] = word s := by
  simp [line]

theorem toList_line_cons (s t : String) (words : List String) :
    (line (s :: t :: words)).toList = (word s).toList ++ ' ' :: (line (t :: words)).toList := by
  simp [line]

/-- A space ends a word. -/
theorem splitFrom_space (read rest : List Char) :
    splitFrom .plain (some read) (' ' :: rest)
      = (splitFrom .plain none rest).map (read :: ·) := by
  have space : isSpace ' ' = true := by decide
  simp [splitFrom, space]

/-- **A line is taken apart into the words it was made of.** -/
theorem split_line (words : List String) : split (line words) = some words := by
  suffices read : splitFrom .plain none (line words).toList = some (words.map String.toList) by
    simp [split, read, Function.comp_def]
  induction words with
  | nil => simp [line, splitFrom]
  | cons s words ih =>
      cases words with
      | nil =>
          have whole := splitFrom_word s []
          rw [List.append_nil] at whole
          simp [line_singleton, whole, splitFrom]
      | cons t words =>
          rw [toList_line_cons, splitFrom_word, splitFrom_space, ih]
          simp

/-! ## What is exposed -/

/-- The characters that may be exposed. -/
def MayExpose (c : Char) : Prop := isPlain c = true ∨ c ∈ [' ', quoteMark, '\\']

theorem MayExpose.not_actor {c : Char} (may : MayExpose c) : c ∉ actors := by
  intro member
  rcases may with plain | other
  · exact absurd plain (by simp [not_isPlain_of_mem_actors member])
  · simp only [List.mem_cons, List.not_mem_nil, or_false] at other
    revert member
    rcases other with rfl | rfl | rfl <;> decide

theorem exposedFrom_plain {cs : List Char} (plain : ∀ c ∈ cs, isPlain c = true)
    (rest : List Char) :
    exposedFrom .plain (cs ++ rest) = cs ++ exposedFrom .plain rest := by
  induction cs with
  | nil => rfl
  | cons c cs ih =>
      rw [List.cons_append, exposedFrom, step_of_isPlain (plain c (by simp)),
        ih (fun d member => plain d (by simp [member]))]
      simp

/-- Between quotes nothing is exposed but the way out of them and back. -/
theorem exposedFrom_flatMap (cs rest : List Char) :
    ∃ marks, (∀ c ∈ marks, MayExpose c)
      ∧ exposedFrom .inside (cs.flatMap quotedChar ++ quoteMark :: rest)
        = marks ++ exposedFrom .plain rest := by
  induction cs with
  | nil => exact ⟨[], by simp, by simp [exposedFrom, Quoting.step]⟩
  | cons c cs ih =>
      obtain ⟨marks, may, ih⟩ := ih
      rw [List.flatMap_cons, List.append_assoc]
      by_cases quote : c = quoteMark
      · subst quote
        have escapes : '\\' ≠ quoteMark := by decide
        refine ⟨'\\' :: quoteMark :: marks, ?_, ?_⟩
        · intro d member
          rcases (by simpa using member : d = '\\' ∨ d = quoteMark ∨ d ∈ marks) with
            rfl | rfl | member
          · exact .inr (by simp)
          · exact .inr (by simp)
          · exact may d member
        · simp [quotedChar, exposedFrom, Quoting.step, escapes, ih]
      · exact ⟨marks, may, by simp [quotedChar, exposedFrom, Quoting.step, quote, ih]⟩

theorem exposedFrom_word (s : String) (rest : List Char) :
    ∃ marks, (∀ c ∈ marks, MayExpose c)
      ∧ exposedFrom .plain ((word s).toList ++ rest) = marks ++ exposedFrom .plain rest := by
  unfold word
  split
  · rename_i stands
    have plain := List.all_eq_true.mp stands.2
    exact ⟨s.toList, fun c member => .inl (plain c member), exposedFrom_plain plain rest⟩
  · obtain ⟨marks, may, inside⟩ := exposedFrom_flatMap s.toList rest
    refine ⟨quoteMark :: marks, ?_, ?_⟩
    · intro c member
      rcases List.mem_cons.mp member with rfl | member
      · exact .inr (by simp)
      · exact may c member
    · simp [quoted, quotedChars, exposedFrom, Quoting.step, inside]

/-- All that a shell meets outside of quotes is plain characters, spaces, quotes and
backslashes. -/
theorem exposed_line (words : List String) : ∀ c ∈ exposed (line words), MayExpose c := by
  unfold exposed
  induction words with
  | nil => simp [line, exposedFrom]
  | cons s words ih =>
      cases words with
      | nil =>
          obtain ⟨marks, may, whole⟩ := exposedFrom_word s []
          rw [List.append_nil] at whole
          simpa [line_singleton, whole, exposedFrom] using may
      | cons t words =>
          obtain ⟨marks, may, whole⟩ := exposedFrom_word s (' ' :: (line (t :: words)).toList)
          have stays : Quoting.step .plain ' ' = (.plain, some ' ') := by decide
          intro c member
          rw [toList_line_cons, whole, exposedFrom, stays] at member
          rcases (by simpa using member : c ∈ marks ∨ c = ' ' ∨ c ∈ _) with member | rfl | member
          · exact may c member
          · exact .inr (by simp)
          · exact ih c member

end Shell

/-- **The line of a command says what its arguments are**: a shell takes it apart into the
name of the encoder and the arguments, whatever texts they are, and it meets nothing
outside of quotes that it would act on. -/
theorem Command.line_splits (c : Command) :
    Shell.split c.line = some ("ffmpeg" :: c.args)
      ∧ ∀ ch ∈ Shell.exposed c.line, Shell.MayExpose ch ∧ ch ∉ Shell.actors := by
  refine ⟨Shell.split_line _, fun ch member => ?_⟩
  have may := Shell.exposed_line _ ch member
  exact ⟨may, may.not_actor⟩

end Montage
