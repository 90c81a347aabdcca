/-
# Montage.Json.Record -- reading records out of JSON values

A record is stated by name, as an object, or by position, as a list of its
fields in their order.  `Value.fields` finds the values of the fields either way.
By name, members nobody asked for are skipped, and a field given twice is an
error, its aliases counting as the same field.  By position, surplus items are
an error, and missing ones too unless the record has a default for every field.

The readers below are for the types that fields have; `none` is a misfit.
-/
import Montage.Json.Value
import Montage.Number.Exact

namespace Montage.Json

set_option autoImplicit false

/-- The member with one of the given names; fails when there are several. -/
def uniqueMember (names : List String) (members : List (String × Value)) :
    Option (Option Value) :=
  match members.filter (fun m => names.contains m.1) with
  | [] => some none
  | [m] => some (some m.2)
  | _ => none

/-- The values of a record's fields, `none` for one that is absent.  Each field
has the names it may go by; `complete` records have no defaults. -/
def Value.fields (names : List (List String)) (complete : Bool) :
    Value → Option (List (Option Value))
  | .object members => names.mapM (fun ns => uniqueMember ns members)
  | .list items =>
      if names.length < items.length then none
      else if complete ∧ items.length < names.length then none
      else some ((items.map some) ++ List.replicate (names.length - items.length) none)
  | _ => none

/-- A double: any number. -/
def Value.double? : Value → Option Float
  | .nat n => some (Float.ofNat n)
  | .real x => some x
  | _ => none

/-- A count of at most `most`: nothing but an unsigned integer will do. -/
def Value.count? (most : Nat) : Value → Option Nat
  | .nat n => if n ≤ most then some n else none
  | _ => none

def Value.text? : Value → Option String
  | .text s => some s
  | _ => none

/-- A truth value. -/
def Value.bool? : Value → Option Bool
  | .bool b => some b
  | _ => none

/-- A list, each item read by `read`. -/
def Value.listOf? {α : Type} (read : Value → Option α) : Value → Option (List α)
  | .list items => items.mapM read
  | _ => none

/-- A name out of a vocabulary.  The name may also stand as the only key of an
object, with nothing for its value. -/
def Value.choice? {α : Type} (vocabulary : List (String × α)) : Value → Option α
  | .text s => vocabulary.lookup s
  | .object [(s, .null)] => vocabulary.lookup s
  | _ => none

/-- A field that must be there. -/
def required {α : Type} (read : Value → Option α) (v : Option Value) : Option α :=
  v.bind read

/-- A field whose absence stands for `default`. -/
def defaulted {α : Type} (default : α) (read : Value → Option α) : Option Value → Option α
  | none => some default
  | some v => read v

/-- A field that may be absent or `null`. -/
def optional {α : Type} (read : Value → Option α) : Option Value → Option (Option α)
  | none => some none
  | some .null => some none
  | some v => (read v).map some

/-- An optional value, `null` when there is none. -/
def Value.ofOption {α : Type} (write : α → Value) : Option α → Value
  | none => .null
  | some a => write a

/-- An optional field whose absence stands for `default`; `null` stands for none. -/
def defaultedOptional {α : Type} (default : Option α) (read : Value → Option α) :
    Option Value → Option (Option α)
  | none => some default
  | some v => optional read (some v)

end Montage.Json
