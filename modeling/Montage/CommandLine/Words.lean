/-
# Montage.CommandLine.Words -- the words of a command line

A command takes options, each with a value or without one, and operands.  An
option is a word that starts with two dashes.  Its value is the rest of the word
after an equals sign, or else the next word, which must then not look like an
option itself.  No option may be given twice.  Two dashes alone end the options,
and a single one is an operand.
-/
namespace Montage.CommandLine

set_option autoImplicit false

/-- The options and operands that a command takes. -/
structure Grammar where
  /-- The names of the options that take a value. -/
  settings : List String
  /-- The names of the options that take none. -/
  switches : List String
  /-- Whether there may be operands. -/
  operands : Bool := false

/-- The words of a command line, sorted. -/
structure Words where
  /-- The options with their values. -/
  settings : List (String × String) := []
  /-- The options without a value. -/
  switches : List String := []
  operands : List String := []
  deriving DecidableEq, Repr

/-- A word by its shape. -/
inductive Word where
  /-- The end of the options. -/
  | stop
  /-- An option, and its value if that is in the same word. -/
  | option (name : String) (value : Option String)
  /-- Options of one letter each, of which there are none. -/
  | letters (cs : List Char)
  | operand (text : String)
  deriving DecidableEq, Repr

namespace Word

/-- The name in an option and the value in it, split at the first equals sign. -/
def splitOption (cs : List Char) : Word :=
  let name := String.ofList (cs.takeWhile (· ≠ '='))
  match cs.dropWhile (· ≠ '=') with
  | [] => option name none
  | _ :: value => option name (some (String.ofList value))

/-- The shape of a word. -/
def ofText (s : String) : Word :=
  match s.toList with
  | ['-', '-'] => stop
  | '-' :: '-' :: cs => splitOption cs
  | ['-'] => operand s
  | '-' :: cs => letters cs
  | _ => operand s

end Word

namespace Words

/-- Add an option with its value; none if it is there already. -/
def addSetting (name value : String) (w : Words) : Option Words :=
  if (w.settings.lookup name).isSome then none
  else some { w with settings := (name, value) :: w.settings }

/-- Add an option without a value; none if it is there already. -/
def addSwitch (name : String) (w : Words) : Option Words :=
  if name ∈ w.switches then none else some { w with switches := name :: w.switches }

/-- Add an operand in front of the others. -/
def addOperand (text : String) (w : Words) : Words := { w with operands := text :: w.operands }

/-- Sort the words of a command line, the first of which is the value of an option
if one is still `pending`.  None if they do not fit the grammar. -/
def scan (g : Grammar) : Option String → List String → Option Words
  | none, [] => some {}
  | some _, [] => none
  | some name, s :: rest =>
      match Word.ofText s with
      | .operand value => (scan g none rest).bind (addSetting name value)
      | _ => none
  | none, s :: rest =>
      match Word.ofText s with
      | .stop => if rest = [] ∨ g.operands then some { operands := rest } else none
      | .option name none =>
          if name ∈ g.switches then (scan g none rest).bind (addSwitch name)
          else if name ∈ g.settings then scan g (some name) rest
          else none
      | .option name (some value) =>
          if name ∈ g.settings then (scan g none rest).bind (addSetting name value) else none
      | .letters _ => none
      | .operand text => if g.operands then (scan g none rest).map (addOperand text) else none

/-- Whether an option without a value was given. -/
def has (w : Words) (name : String) : Bool := w.switches.contains name

/-- The value of an option read by `read`: no value if the option was not given,
and none at all if it cannot be read. -/
def setting? {α : Type} (w : Words) (name : String) (read : String → Option α) :
    Option (Option α) :=
  match w.settings.lookup name with
  | none => some none
  | some value => (read value).map some

end Words

end Montage.CommandLine
