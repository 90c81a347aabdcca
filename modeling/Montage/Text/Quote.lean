/-
# Montage.Text.Quote -- texts inside single quotes

Two readers take the lines that this library writes: a shell takes a command, and
a joiner of videos takes a list of files.  Both agree on one way to hold any text
at all.  Inside single quotes nothing is special but the quote that ends them, so
a quote of the text itself is written outside: the quotes are closed, an escaped
quote follows, and they are opened again.

`unquote` is what such a reader makes of a text.  It knows more than is ever
written: pieces with and without quotes may follow one another, and outside of
quotes a backslash takes the character behind it as it is.
-/
namespace Montage

set_option autoImplicit false

/-- The character that texts are quoted with. -/
def quoteMark : Char := '\x27'

/-- A character as it is written between single quotes. -/
def quotedChar (c : Char) : List Char :=
  if c = quoteMark then [quoteMark, '\\', quoteMark, quoteMark] else [c]

/-- The characters of a text inside single quotes. -/
def quotedChars (cs : List Char) : List Char :=
  quoteMark :: (cs.flatMap quotedChar ++ [quoteMark])

/-- A text inside single quotes. -/
def quoted (s : String) : String := String.ofList (quotedChars s.toList)

/-- How far a reader of quoted text is. -/
inductive Quoting where
  /-- Outside of quotes. -/
  | plain
  /-- Between two quotes. -/
  | inside
  /-- Behind a backslash that stands outside of quotes. -/
  | escaped
  deriving DecidableEq, Repr

/-- How a reader goes on after a character, and what it takes from it. -/
def Quoting.step : Quoting → Char → Quoting × Option Char
  | plain, c =>
      if c = quoteMark then (inside, none)
      else if c = '\\' then (escaped, none)
      else (plain, some c)
  | inside, c => if c = quoteMark then (plain, none) else (inside, some c)
  | escaped, c => (plain, some c)

/-- What a reader takes from the rest of a text; none if a quote is left open or a
backslash stands at the end. -/
def unquoteFrom (q : Quoting) : List Char → Option (List Char)
  | [] => if q = .plain then some [] else none
  | c :: rest =>
      let (next, taken) := q.step c
      (unquoteFrom next rest).map (taken.toList ++ ·)

/-- What a reader takes from a text. -/
def unquote (cs : List Char) : Option (List Char) := unquoteFrom .plain cs

/-- A quote ends what is quoted. -/
theorem unquoteFrom_quoteMark (rest : List Char) :
    unquoteFrom .inside (quoteMark :: rest) = unquoteFrom .plain rest := by
  simp [unquoteFrom, Quoting.step]

/-- A character between quotes is read back as itself. -/
theorem unquoteFrom_quotedChar (c : Char) (rest : List Char) :
    unquoteFrom .inside (quotedChar c ++ rest) = (unquoteFrom .inside rest).map (c :: ·) := by
  by_cases h : c = quoteMark
  · subst h
    have differ : '\\' ≠ quoteMark := by decide
    simp [quotedChar, unquoteFrom, Quoting.step, differ, Function.comp_def]
  · simp [quotedChar, unquoteFrom, Quoting.step, h]

/-- Some characters between quotes are read back as themselves, and reading goes
on behind them. -/
theorem unquoteFrom_flatMap (cs rest : List Char) :
    unquoteFrom .inside (cs.flatMap quotedChar ++ quoteMark :: rest)
      = (unquoteFrom .plain rest).map (cs ++ ·) := by
  induction cs with
  | nil => simp [unquoteFrom_quoteMark]
  | cons c cs ih =>
      rw [List.flatMap_cons, List.append_assoc, unquoteFrom_quotedChar, ih]
      simp [Function.comp_def]

/-- What is quoted is read back. -/
theorem unquote_quotedChars (cs : List Char) : unquote (quotedChars cs) = some cs := by
  have start : unquote (quotedChars cs)
      = unquoteFrom .inside (cs.flatMap quotedChar ++ [quoteMark]) := by
    simp [unquote, quotedChars, unquoteFrom, Quoting.step]
  rw [start, unquoteFrom_flatMap]
  simp [unquoteFrom]

end Montage
