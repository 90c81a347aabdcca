/-
# Montage.Json.Value -- data as a file states it

The tree of a JSON text, before anyone asks what it means.  The members of an
object keep their order and their repetitions, because whether a repetition is
an error depends on whether anybody reads that member.

An integer without a sign stays an integer (`nat`), since some fields take
nothing else; every other number is a double (`real`).  A scalar may be well
formed and still say nothing: a number beyond the doubles, a text holding half
of a surrogate pair, an object with such a text for a key.  It is `unreadable`:
skipped without harm where nobody reads it, an error where somebody does.
-/
namespace Montage.Json

set_option autoImplicit false

/-- A JSON value. -/
inductive Value where
  | null
  | bool (b : Bool)
  /-- An integer written without sign, point or power of ten. -/
  | nat (n : Nat)
  /-- Any other number. -/
  | real (x : Float)
  | text (s : String)
  | list (items : List Value)
  | object (members : List (String × Value))
  /-- Well formed, without a value. -/
  | unreadable
  deriving Inhabited

/-- The object with the given members; one unreadable key spoils the object. -/
def Value.ofMembers (members : List (Option String × Value)) : Value :=
  match members.mapM (fun m => m.1.map (fun k => (k, m.2))) with
  | some named => .object named
  | none => .unreadable

mutual

/-- Whether a value can be read whole: nothing unreadable in it, and containers
nested at most `depth` deep. -/
def Value.isReadable (depth : Nat) : Value → Bool
  | .unreadable => false
  | .list items => match depth with
    | 0 => false
    | depth + 1 => readableItems depth items
  | .object members => match depth with
    | 0 => false
    | depth + 1 => readableMembers depth members
  | _ => true

/-- `Value.isReadable` for the items of a list. -/
def readableItems (depth : Nat) : List Value → Bool
  | [] => true
  | v :: rest => v.isReadable depth && readableItems depth rest

/-- `Value.isReadable` for the members of an object. -/
def readableMembers (depth : Nat) : List (String × Value) → Bool
  | [] => true
  | m :: rest => m.2.isReadable depth && readableMembers depth rest

end

end Montage.Json
