/-
# Montage.Json.Token -- the words of a JSON text

The text is read one character at a time by a small machine (`Lexer.step`), so
reading is a fold: what has been read of `a ++ b` is what has been read of `b`
after `a`.  Between two tokens the machine only skips white space; inside a word
(a number or one of the three names) it collects characters up to the next one
that cannot belong to a word; inside a text it collects characters and escapes.

Escapes name UTF-16 units.  A high surrogate waits for the low one that must
follow; if anything else comes, the text is well formed but unreadable.
-/
import Montage.Json.Value
import Montage.Number.Exact
import Montage.Number.Literal

namespace Montage.Json

set_option autoImplicit false

/-- A token of a JSON text. -/
inductive Token where
  | openList
  | closeList
  | openObject
  | closeObject
  | comma
  | colon
  /-- A text; `none` if it has no reading. -/
  | text (s : Option String)
  /-- A number or a name. -/
  | scalar (v : Value)

/-- White space between tokens. -/
def isSpace (c : Char) : Bool := c = ' ' ∨ c = '\t' ∨ c = '\n' ∨ c = '\r'

/-- The token a punctuation character is. -/
def punctuation? : Char → Option Token
  | '[' => some .openList
  | ']' => some .closeList
  | '{' => some .openObject
  | '}' => some .closeObject
  | ',' => some .comma
  | ':' => some .colon
  | _ => none

/-- The value of a number literal. -/
def Value.ofLiteral (l : Literal) : Value :=
  if !l.toFloat.isFinite then .unreadable
  else if l.negative = false ∧ l.places = none ∧ l.power = none then .nat (digitsValue l.whole)
  else .real l.toFloat

/-- The value of a word. -/
def Value.ofWord (cs : List Char) : Option Value :=
  if cs = "null".toList then some .null
  else if cs = "true".toList then some (.bool true)
  else if cs = "false".toList then some (.bool false)
  else (Literal.readStrict cs).map Value.ofLiteral

/-- The value of a hexadecimal digit. -/
def hexDigit? (c : Char) : Option Nat :=
  if '0' ≤ c ∧ c ≤ '9' then some (c.toNat - '0'.toNat)
  else if 'a' ≤ c ∧ c ≤ 'f' then some (c.toNat - 'a'.toNat + 10)
  else if 'A' ≤ c ∧ c ≤ 'F' then some (c.toNat - 'A'.toNat + 10)
  else none

/-- The characters that follow a backslash alone. -/
def shortEscape? : Char → Option Char
  | '"' => some '"'
  | '\\' => some '\\'
  | '/' => some '/'
  | 'b' => some '\x08'
  | 'f' => some '\x0c'
  | 'n' => some '\n'
  | 'r' => some '\r'
  | 't' => some '\t'
  | _ => none

/-- A text as far as it has been read: its characters from the last to the
first, whether they have a reading, and a high surrogate that waits. -/
structure Draft where
  done : List Char := []
  sound : Bool := true
  waiting : Option Nat := none

namespace Draft

/-- Add a character; a surrogate that still waits has come to nothing. -/
def push (d : Draft) (c : Char) : Draft :=
  { done := c :: d.done, sound := d.sound && d.waiting.isNone, waiting := none }

/-- Add a UTF-16 unit. -/
def pushUnit (d : Draft) (unit : Nat) : Draft :=
  if 0xD800 ≤ unit ∧ unit < 0xDC00 then
    { d with sound := d.sound && d.waiting.isNone, waiting := some unit }
  else if 0xDC00 ≤ unit ∧ unit < 0xE000 then
    match d.waiting with
    | some high =>
        { d with
          done := Char.ofNat (0x10000 + (high - 0xD800) * 0x400 + (unit - 0xDC00)) :: d.done
          waiting := none }
    | none => { d with sound := false }
  else d.push (Char.ofNat unit)

/-- The text, once it has ended. -/
def finish (d : Draft) : Option String :=
  if d.sound && d.waiting.isNone then some (String.ofList d.done.reverse) else none

end Draft

/-- Where the machine stands. -/
inductive Mode where
  /-- Between two tokens. -/
  | between
  /-- Inside a word; its characters from the last to the first. -/
  | word (done : List Char)
  /-- Inside a text. -/
  | quoted (draft : Draft)
  /-- After a backslash. -/
  | escape (draft : Draft)
  /-- Inside `\uXXXX`, with `left` digits to come. -/
  | unit (draft : Draft) (left : Nat) (sum : Nat)

/-- The machine: where it stands, and the tokens so far, the last one first. -/
structure Lexer where
  mode : Mode := .between
  tokens : List Token := []

namespace Lexer

/-- One character, between two tokens. -/
def start (tokens : List Token) (c : Char) : Lexer :=
  if isSpace c then ⟨.between, tokens⟩
  else if c = '"' then ⟨.quoted {}, tokens⟩
  else match punctuation? c with
    | some t => ⟨.between, t :: tokens⟩
    | none => ⟨.word [c], tokens⟩

/-- One character.  `none` if no JSON text goes on like this. -/
def step (l : Lexer) (c : Char) : Option Lexer :=
  match l.mode with
  | .between => some (start l.tokens c)
  | .word done =>
      if isSpace c ∨ c = '"' ∨ (punctuation? c).isSome then
        (Value.ofWord done.reverse).map (fun v => start (.scalar v :: l.tokens) c)
      else some { l with mode := .word (c :: done) }
  | .quoted draft =>
      if c = '"' then some ⟨.between, .text draft.finish :: l.tokens⟩
      else if c = '\\' then some { l with mode := .escape draft }
      else if c.toNat < 0x20 then none
      else some { l with mode := .quoted (draft.push c) }
  | .escape draft =>
      if c = 'u' then some { l with mode := .unit draft 4 0 }
      else (shortEscape? c).map (fun e => { l with mode := .quoted (draft.push e) })
  | .unit draft left sum =>
      (hexDigit? c).map (fun digit =>
        let sum := 16 * sum + digit
        if left ≤ 1 then { l with mode := .quoted (draft.pushUnit sum) }
        else { l with mode := .unit draft (left - 1) sum })

/-- A list of characters, one after the other. -/
def run (l : Lexer) : List Char → Option Lexer
  | [] => some l
  | c :: rest => (l.step c).bind (fun l => l.run rest)

/-- The tokens in their order, once the text has ended. -/
def finish (l : Lexer) : Option (List Token) :=
  match l.mode with
  | .between => some l.tokens.reverse
  | .word done => (Value.ofWord done.reverse).map (fun v => (.scalar v :: l.tokens).reverse)
  | _ => none

/-- Reading two texts in a row is reading the second after the first. -/
theorem run_append (l : Lexer) (a b : List Char) :
    l.run (a ++ b) = (l.run a).bind (fun l => l.run b) := by
  induction a generalizing l with
  | nil => rfl
  | cons c rest ih =>
      cases h : l.step c with
      | none => simp [run, h]
      | some next => simp [run, h, ih]

end Lexer

/-- The tokens of a text. -/
def tokens? (cs : List Char) : Option (List Token) :=
  (Lexer.run {} cs).bind Lexer.finish

end Montage.Json
