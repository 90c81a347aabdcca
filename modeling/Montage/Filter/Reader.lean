/-
# Montage.Filter.Reader -- what the text of a graph says

The text of a graph is read from the outside in.  Semicolons separate its nodes,
labels in brackets stand at either end of a node, commas separate the filters of a
chain, the first equals sign ends the name of a filter, colons separate its
arguments, and the first equals sign in an argument ends its key.  Single quotes
suspend all of these.  They are not part of what they enclose, so what is read
back says which value an argument has, and not whether it was quoted.
-/
import Montage.Filter.Graph

namespace Montage

set_option autoImplicit false

/-- An argument as it is understood: a key or none, and a value. -/
abbrev ArgReading := Option String × String

/-- A filter as it is understood. -/
structure FilterReading where
  name : String
  args : List ArgReading
  deriving DecidableEq, Repr

/-- A node as it is understood. -/
structure NodeReading where
  inputs : List String
  chain : List FilterReading
  outputs : List String
  deriving DecidableEq, Repr

/-- What an argument is meant to say. -/
def Arg.reading (a : Arg) : ArgReading := (a.key, a.value)

/-- What a filter is meant to say. -/
def Filter.reading (f : Filter) : FilterReading := ⟨f.name, f.args.map Arg.reading⟩

/-- What a node is meant to say. -/
def Node.reading (n : Node) : NodeReading := ⟨n.inputs, n.chain.map Filter.reading, n.outputs⟩

namespace Reader

/-- A character, and whether it stood between quotes. -/
abbrev Mark := Char × Bool

/-- The characters of a text without its quotes; none if a quote is left open. -/
def marks (inside : Bool) : List Char → Option (List Mark)
  | [] => if inside then none else some []
  | c :: rest =>
      if c = '\x27' then marks (!inside) rest
      else (marks inside rest).map ((c, inside) :: ·)

/-- Whether a character separates, as one of its kind outside of quotes does. -/
def isMark (c : Char) (m : Mark) : Bool := m.1 = c ∧ m.2 = false

/-- The pieces between separators. -/
def pieces (separator : Char) (ms : List Mark) : List (List Mark) :=
  ms.splitOnP (isMark separator)

/-- The text of some marks. -/
def text (ms : List Mark) : String := String.ofList (ms.map Prod.fst)

/-- The marks before the first separator, and those after it if there is one. -/
def halves (separator : Char) (ms : List Mark) : List Mark × Option (List Mark) :=
  match ms.dropWhile (fun m => !isMark separator m) with
  | [] => (ms, none)
  | _ :: rest => (ms.takeWhile (fun m => !isMark separator m), some rest)

/-- An argument. -/
def arg (ms : List Mark) : ArgReading :=
  match halves '=' ms with
  | (value, none) => (none, text value)
  | (key, some value) => (some (text key), text value)

def filter (ms : List Mark) : FilterReading :=
  match halves '=' ms with
  | (name, none) => ⟨text name, []⟩
  | (name, some args) => ⟨text name, (pieces ':' args).map arg⟩

/-- A chain; there is none in no text. -/
def chain (ms : List Mark) : List FilterReading :=
  if ms = [] then [] else (pieces ',' ms).map filter

/-- Some labels in brackets, one behind the other, and what follows them.  At most
as many are read as `fuel` says; there cannot be more of them than characters. -/
def labels : Nat → List Mark → List String × List Mark
  | 0, ms => ([], ms)
  | fuel + 1, ms =>
      match ms with
      | [] => ([], [])
      | m :: rest =>
          if isMark '[' m then
            match halves ']' rest with
            | (_, none) => ([], ms)
            | (label, some rest) =>
                let (others, rest) := labels fuel rest
                (text label :: others, rest)
          else ([], ms)

/-- A node: labels, a chain that ends before the next bracket, and labels again. -/
def node (ms : List Mark) : NodeReading :=
  let (inputs, rest) := labels ms.length ms
  let body := rest.takeWhile (fun m => !isMark '[' m)
  let (outputs, _) := labels rest.length (rest.dropWhile (fun m => !isMark '[' m))
  ⟨inputs, chain body, outputs⟩

end Reader

/-- The nodes that the text of a graph describes; none if a quote is left open. -/
def readGraph (s : String) : Option (List NodeReading) :=
  (Reader.marks false s.toList).map (fun ms =>
    if ms = [] then [] else (Reader.pieces ';' ms).map Reader.node)

end Montage
