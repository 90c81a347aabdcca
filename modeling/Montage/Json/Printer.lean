/-
# Montage.Json.Printer -- a value as text

Two layouts of one value.  `Value.compact` has no white space; `Value.pretty` has
every item on a line of its own, two spaces deeper than its container, and keeps
an empty container closed.  Doubles are written with the fewest digits that read
back, and one without a value as `null`.
-/
import Montage.Json.Value
import Montage.Number.Shortest

namespace Montage.Json

set_option autoImplicit false

/-- A character inside a quoted text. -/
def escapeChar (c : Char) : List Char :=
  match c with
  | '"' => ['\\', '"']
  | '\\' => ['\\', '\\']
  | '\n' => ['\\', 'n']
  | '\r' => ['\\', 'r']
  | '\t' => ['\\', 't']
  | '\x08' => ['\\', 'b']
  | '\x0c' => ['\\', 'f']
  | c =>
      if c.toNat < 0x20 then
        ['\\', 'u', '0', '0', Nat.digitChar (c.toNat / 16), Nat.digitChar (c.toNat % 16)]
      else [c]

/-- A text in quotes. -/
def quote (s : String) : String :=
  "\"" ++ String.ofList (s.toList.flatMap escapeChar) ++ "\""

/-- A scalar; containers are left to the layouts. -/
def Value.scalarText : Value → String
  | .bool true => "true"
  | .bool false => "false"
  | .nat n => toString n
  | .real x => dataText x
  | .text s => quote s
  | _ => "null"

mutual

/-- The text without white space. -/
def Value.compact : Value → String
  | .list items => "[" ++ compactItems items ++ "]"
  | .object members => "\x7b" ++ compactMembers members ++ "\x7d"
  | v => v.scalarText

/-- The items of a list, separated by commas. -/
def compactItems : List Value → String
  | [] => ""
  | [v] => v.compact
  | v :: rest => v.compact ++ "," ++ compactItems rest

/-- The members of an object, separated by commas. -/
def compactMembers : List (String × Value) → String
  | [] => ""
  | [(k, v)] => quote k ++ ":" ++ v.compact
  | (k, v) :: rest => quote k ++ ":" ++ v.compact ++ "," ++ compactMembers rest

end

/-- The start of a line at the given depth. -/
def newLine (depth : Nat) : String := "\n" ++ String.ofList (List.replicate (2 * depth) ' ')

mutual

/-- The text with one item a line, for a value that stands at the given depth. -/
def Value.indented (depth : Nat) : Value → String
  | .list [] => "[]"
  | .list items => "[" ++ indentedItems (depth + 1) items ++ newLine depth ++ "]"
  | .object [] => "\x7b\x7d"
  | .object members => "\x7b" ++ indentedMembers (depth + 1) members ++ newLine depth ++ "\x7d"
  | v => v.scalarText

/-- The items of a list, each on its line. -/
def indentedItems (depth : Nat) : List Value → String
  | [] => ""
  | [v] => newLine depth ++ v.indented depth
  | v :: rest => newLine depth ++ v.indented depth ++ "," ++ indentedItems depth rest

/-- The members of an object, each on its line. -/
def indentedMembers (depth : Nat) : List (String × Value) → String
  | [] => ""
  | [(k, v)] => newLine depth ++ quote k ++ ": " ++ v.indented depth
  | (k, v) :: rest =>
      newLine depth ++ quote k ++ ": " ++ v.indented depth ++ "," ++ indentedMembers depth rest

end

/-- The text with one item a line. -/
def Value.pretty (v : Value) : String := v.indented 0

end Montage.Json
