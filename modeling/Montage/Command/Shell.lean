/-
# Montage.Command.Shell -- a command as a line for a shell

A word that holds only plain characters stands as it is; any other one, and the
empty one, is quoted.  What is plain is stated here as a list: every character
that is not on it is quoted, whether or not a shell would mind.

`split` is what a shell makes of a line: blanks separate its words, quotes and
backslashes are read as `Montage.Text.Quote` says, and the line must not hold any
character unquoted that a shell would act on.
-/
import Montage.Text.Quote

namespace Montage.Shell

set_option autoImplicit false

/-- The characters besides letters and digits that stand unquoted. -/
def plainMarks : List Char := ['-', '_', '.', '/', ':', '=', '+', ',', '@', '%']

/-- Whether a character stands unquoted: ASCII letters, digits and a few marks. -/
def isPlain (c : Char) : Bool := c.isAlphanum || plainMarks.contains c

/-- A word of a command. -/
def word (s : String) : String :=
  if s ≠ "" ∧ s.toList.all isPlain then s else quoted s

/-- A command of several words. -/
def line (words : List String) : String := " ".intercalate (words.map word)

/-- Whether a character separates words where it stands unquoted. -/
def isSpace (c : Char) : Bool := c = ' ' ∨ c = '\t'

/-- The characters that a shell acts on where they stand unquoted: they expand,
match, redirect, group, comment or end a command. -/
def actors : List Char :=
  ['$', '\x60', '"', '*', '?', '[', ']', '~', '<', '>', '|', '&', ';', '(', ')', '{', '}', '#',
    '!', '\n']

/-- The words in the rest of a line, the first of which is the one that is being
read, if any. -/
def splitFrom (q : Quoting) (word : Option (List Char)) : List Char → Option (List (List Char))
  | [] => if q = .plain then some word.toList else none
  | c :: rest =>
      if q = .plain ∧ isSpace c then (splitFrom .plain none rest).map (word.toList ++ ·)
      else if q = .plain ∧ c ∈ actors then none
      else
        let (next, taken) := q.step c
        splitFrom next (some (word.getD [] ++ taken.toList)) rest

/-- The words of a line; none if a shell would do anything but take it apart. -/
def split (line : String) : Option (List String) :=
  (splitFrom .plain none line.toList).map (List.map String.ofList)

end Montage.Shell
