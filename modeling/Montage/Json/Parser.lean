/-
# Montage.Json.Parser -- the value a JSON text states

Tokens are put together by a machine with a stack of open containers, so the
depth of a text costs nothing but memory.  It stands in one of four places: a
value must follow, a key must follow, a colon must follow, or a value has just
ended.  The text is accepted when the last value has ended and no container is
open.
-/
import Montage.Json.Token

namespace Montage.Json

set_option autoImplicit false

/-- A key as it was written; `none` if it has no reading. -/
abbrev Key := Option String

/-- A container that is still open, with what it holds from the last to the first. -/
inductive Frame where
  | items (done : List Value)
  /-- An object, and the key whose value is being read. -/
  | members (done : List (Key × Value)) (key : Key)

/-- Where the parser stands. -/
inductive Place where
  /-- A value follows, or the end of the list just opened. -/
  | value (mayClose : Bool)
  /-- A key follows, or the end of the object just opened. -/
  | key (mayClose : Bool) (done : List (Key × Value))
  /-- A colon follows. -/
  | colon (done : List (Key × Value)) (key : Key)
  /-- A value has just ended. -/
  | after (v : Value)

/-- The parser: its place and the open containers, the innermost first. -/
structure Parser where
  place : Place := .value false
  stack : List Frame := []

namespace Parser

/-- One token.  `none` if no value goes on like this. -/
def step (p : Parser) (t : Token) : Option Parser :=
  match p.place, t with
  | .value _, .scalar v => some ⟨.after v, p.stack⟩
  | .value _, .text (some s) => some ⟨.after (.text s), p.stack⟩
  | .value _, .text none => some ⟨.after .unreadable, p.stack⟩
  | .value _, .openList => some ⟨.value true, .items [] :: p.stack⟩
  | .value _, .openObject => some ⟨.key true [], p.stack⟩
  | .value true, .closeList => match p.stack with
    | .items _ :: stack => some ⟨.after (.list []), stack⟩
    | _ => none
  | .key _ done, .text k => some ⟨.colon done k, p.stack⟩
  | .key true _, .closeObject => some ⟨.after (.object []), p.stack⟩
  | .colon done k, .colon => some ⟨.value false, .members done k :: p.stack⟩
  | .after v, .comma => match p.stack with
    | .items done :: stack => some ⟨.value false, .items (v :: done) :: stack⟩
    | .members done k :: stack => some ⟨.key false ((k, v) :: done), stack⟩
    | [] => none
  | .after v, .closeList => match p.stack with
    | .items done :: stack => some ⟨.after (.list (v :: done).reverse), stack⟩
    | _ => none
  | .after v, .closeObject => match p.stack with
    | .members done k :: stack => some ⟨.after (.ofMembers ((k, v) :: done).reverse), stack⟩
    | _ => none
  | _, _ => none

/-- A list of tokens, one after the other. -/
def run (p : Parser) : List Token → Option Parser
  | [] => some p
  | t :: rest => (p.step t).bind (fun p => p.run rest)

/-- The value, once the text has ended. -/
def finish (p : Parser) : Option Value :=
  match p.place, p.stack with
  | .after v, [] => some v
  | _, _ => none

/-- Two runs in a row are one run. -/
theorem run_append (p : Parser) (a b : List Token) :
    p.run (a ++ b) = (p.run a).bind (fun p => p.run b) := by
  induction a generalizing p with
  | nil => rfl
  | cons t rest ih =>
      cases h : p.step t with
      | none => simp [run, h]
      | some next => simp [run, h, ih]

end Parser

/-- The value that a text states; `none` if it is not JSON. -/
def parse? (s : String) : Option Value :=
  (tokens? s.toList).bind (fun ts => (Parser.run {} ts).bind Parser.finish)

end Montage.Json
