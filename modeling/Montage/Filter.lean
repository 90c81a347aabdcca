/-
# Montage.Filter -- filters as they are written

A filter is a name and its arguments; a chain is filters in a row.  The text has
a few separators (a comma between filters, a colon between arguments, an equals
sign after names) and a single quote that suspends them.  A value is quoted when
it says so or when it holds a comma; nothing else is escaped.
-/
namespace Montage

set_option autoImplicit false

/-- An argument of a filter. -/
structure Arg where
  /-- Its name; arguments without one go by position. -/
  key : Option String
  value : String
  quoted : Bool
  deriving DecidableEq, Repr

/-- The text of an argument. -/
def Arg.text (a : Arg) : String :=
  (match a.key with
    | some k => k ++ "="
    | none => "")
  ++ (if a.quoted ∨ ',' ∈ a.value.toList then "'" ++ a.value ++ "'" else a.value)

structure Filter where
  name : String
  args : List Arg := []
  deriving DecidableEq, Repr

namespace Filter

/-- Add a named argument. -/
def arg (f : Filter) (key value : String) : Filter :=
  { f with args := f.args ++ [⟨some key, value, false⟩] }

/-- Add a named argument that is always quoted. -/
def formula (f : Filter) (key value : String) : Filter :=
  { f with args := f.args ++ [⟨some key, value, true⟩] }

/-- Add an argument by position. -/
def pos (f : Filter) (value : String) : Filter :=
  { f with args := f.args ++ [⟨none, value, false⟩] }

/-- The value of the first argument with a name. -/
def get? (f : Filter) (key : String) : Option String :=
  (f.args.find? (fun a => a.key = some key)).map Arg.value

/-- Replace the value of the first argument with a name, if there is one. -/
def setFirst (key value : String) : List Arg → Option (List Arg)
  | [] => none
  | a :: rest =>
      if a.key = some key then some ({ a with value := value } :: rest)
      else (setFirst key value rest).map (a :: ·)

/-- The filter with the value of a named argument replaced; none without one. -/
def set? (f : Filter) (key value : String) : Option Filter :=
  (setFirst key value f.args).map (fun args => { f with args := args })

def text (f : Filter) : String :=
  match f.args with
  | [] => f.name
  | args => f.name ++ "=" ++ ":".intercalate (args.map Arg.text)

end Filter

/-- Filters that are applied one after the other. -/
abbrev Chain := List Filter

namespace Chain

def text (c : Chain) : String := ",".intercalate (c.map Filter.text)

/-- The first filter with a name. -/
def find? (c : Chain) (name : String) : Option Filter := List.find? (fun f => f.name = name) c

/-- Replace an argument of the first filter with a name.  The answer is none
without such a filter, and otherwise says whether it had such an argument. -/
def set (name key value : String) : Chain → Chain × Option Bool
  | [] => ([], none)
  | f :: rest =>
      if f.name = name then match f.set? key value with
        | some g => (g :: rest, some true)
        | none => (f :: rest, some false)
      else
        let (rest, found) := set name key value rest
        (f :: rest, found)

end Chain

end Montage
