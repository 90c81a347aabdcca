/-
# Montage.Path -- paths, as bytes and as texts

A path need not be a text: it is any bytes (`RawPath`).  Wherever it is written into a text it
is written as it is shown, and bytes that are not UTF-8 are lost there.

What a request names is a text from the start.  Such a path is kept as it was written:
nothing here asks the file system, and nothing is normalised on the way.  Slashes separate
its parts.  A part that is empty or a single point names nothing, except the first one: an
empty first part is the root, and a point there is where one stands.
-/
import Montage.Text.Utf8

set_option autoImplicit false

namespace Montage

/-- A path, as the bytes that it is. -/
structure RawPath where
  bytes : List UInt8
  deriving DecidableEq, Repr

namespace RawPath

/-- The path that a text spells. -/
def ofString (s : String) : RawPath := ⟨Utf8.encode s⟩

/-- The path as it is shown. -/
def display (p : RawPath) : String := Utf8.shown p.bytes

end RawPath

end Montage

namespace Montage.Path

/-- The character that separates the parts of a path. -/
def separator : Char := '/'

/-- Whether a path starts at the root. -/
def isAbsolute (path : String) : Bool := path.toList.head? = some separator

/-- A path as seen from a directory.  One that starts at the root stays as it is,
and a directory that ends in a slash gets no second one. -/
def join (base path : String) : String :=
  if isAbsolute path ∨ base = "" then path
  else if base.toList.getLast? = some separator then base ++ path
  else base ++ "/" ++ path

/-- The parts of a path between its slashes. -/
def parts (path : String) : List (List Char) := path.toList.splitOn separator

/-- Whether a part names nothing. -/
def isIdle (part : List Char) : Bool := part = [] ∨ part = ['.']

/-- The path with the given parts, none of which is left out. -/
def ofParts (parts : List (List Char)) : String :=
  String.ofList ([separator].intercalate parts)

/-- The directory that holds what the first part and some more name.  The parts
that name nothing at the end go first, then the last one that names something,
then again the ones that name nothing.  The root has no parent. -/
def parentOf? (first : List Char) (more : List (List Char)) : Option String :=
  let named := more.reverse.dropWhile isIdle
  match first, named with
  | [], [] => none
  | _, [] => some ""
  | [], _ :: rest =>
      match (rest.dropWhile isIdle).reverse with
      | [] => some "/"
      | kept => some (ofParts ([] :: kept))
  | first, _ :: rest => some (ofParts (first :: (rest.dropWhile isIdle).reverse))

/-- The directory that holds what a path names; empty for where one stands, none
for the root and for the empty path. -/
def parent? (path : String) : Option String :=
  match parts path with
  | [] => none
  | first :: more => parentOf? first more

end Montage.Path
