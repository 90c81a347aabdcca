/-
# Montage.Text.Utf8 -- texts as bytes, and bytes shown as a text

A text is kept as bytes in UTF-8.  Bytes that come from elsewhere need not be a text, but they can
be shown as one: what is not UTF-8 in them is shown as replacement marks.

The bytes are read one at a time.  A first byte says how many others a character has and, for some,
in which bounds the second one must lie; bounds exclude the numbers that a shorter
character has, those of surrogates and those that are no character's.  A byte that does not go on
with the character is where the next one begins, and one mark stands for all of what was begun.
-/
namespace Montage

set_option autoImplicit false

namespace Utf8

/-- The bytes of a text. -/
def encode (s : String) : List UInt8 := s.toList.flatMap String.utf8EncodeChar

/-- What is shown for bytes that are no character. -/
def replacement : Char := '\uFFFD'

/-- A character that has been begun. -/
structure Begun where
  /-- How many bytes are still to come. -/
  owed : Nat
  /-- The least the next of them may be. -/
  least : Nat
  /-- The most the next of them may be. -/
  most : Nat
  /-- The number that the bytes so far make up. -/
  number : Nat
  deriving DecidableEq, Repr

/-- The character that a byte begins, if it begins one. -/
def begin? (b : Nat) : Option Begun :=
  if b < 0x80 then some ⟨0, 0x80, 0xBF, b⟩
  else if b < 0xC2 then none
  else if b < 0xE0 then some ⟨1, 0x80, 0xBF, b - 0xC0⟩
  else if b < 0xF0 then
    some ⟨2, if b = 0xE0 then 0xA0 else 0x80, if b = 0xED then 0x9F else 0xBF, b - 0xE0⟩
  else if b < 0xF5 then
    some ⟨3, if b = 0xF0 then 0x90 else 0x80, if b = 0xF4 then 0x8F else 0xBF, b - 0xF0⟩
  else none

/-- The character with one more byte, if that goes on with it. -/
def Begun.next? (c : Begun) (b : Nat) : Option Begun :=
  if c.least ≤ b ∧ b ≤ c.most then
    some ⟨c.owed - 1, 0x80, 0xBF, 64 * c.number + (b - 0x80)⟩
  else none

/-- What is shown of a character, and the character itself as long as bytes are owed. -/
def Begun.settle (c : Begun) : List Char × Option Begun :=
  if c.owed = 0 then ([Char.ofNat c.number], none) else ([], some c)

/-- A byte between two characters. -/
def start (b : Nat) : List Char × Option Begun :=
  match begin? b with
  | some c => c.settle
  | none => ([replacement], none)

/-- One byte: what is shown because of it, and the character that has been begun after it. -/
def step (begun : Option Begun) (b : Nat) : List Char × Option Begun :=
  match begun with
  | none => start b
  | some c => match c.next? b with
    | some c => c.settle
    | none => (replacement :: (start b).1, (start b).2)

/-- What is shown of the bytes behind those of a character that has been begun. -/
def shownFrom (begun : Option Begun) : List UInt8 → List Char
  | [] => if begun.isSome then [replacement] else []
  | b :: rest => (step begun b.toNat).1 ++ shownFrom (step begun b.toNat).2 rest

/-- The text that bytes are shown as. -/
def shown (bytes : List UInt8) : String := String.ofList (shownFrom none bytes)

end Utf8

end Montage
