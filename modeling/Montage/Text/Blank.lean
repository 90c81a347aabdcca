/-
# Montage.Text.Blank -- white space at the ends of a text, and letters without case

Settings are typed by people, so names are compared after the white space at
their ends is gone and, where a rule says so, without regard to ASCII case.
White space is the Unicode property of that name: twenty-five characters, which
include the no-break space and exclude the zero-width one.
-/
namespace Montage

set_option autoImplicit false

/-- The characters with the Unicode property White_Space. -/
def isBlank (c : Char) : Bool :=
  let n := c.toNat
  (0x9 ≤ n ∧ n ≤ 0xD) ∨ n = 0x20 ∨ n = 0x85 ∨ n = 0xA0 ∨ n = 0x1680
    ∨ (0x2000 ≤ n ∧ n ≤ 0x200A) ∨ n = 0x2028 ∨ n = 0x2029 ∨ n = 0x202F ∨ n = 0x205F ∨ n = 0x3000

/-- A list of characters without the blanks at its ends. -/
def trimChars (cs : List Char) : List Char :=
  ((cs.dropWhile isBlank).reverse.dropWhile isBlank).reverse

/-- A text without the blanks at its ends. -/
def trim (s : String) : String := String.ofList (trimChars s.toList)

/-- A text with ASCII capitals made small; other letters keep their case. -/
def foldCase (s : String) : String := String.ofList (s.toList.map Char.toLower)

/-- The key a label is looked up by: no spaces, dashes or underscores, and no
ASCII capitals. -/
def labelKey (s : String) : String :=
  String.ofList ((s.toList.filter (fun c => c ≠ ' ' ∧ c ≠ '-' ∧ c ≠ '_')).map Char.toLower)

/-- The pieces of a text between commas; a text without one is a single piece. -/
def splitCommas (s : String) : List String :=
  (s.toList.splitOn ',').map String.ofList

/-- The first line of a text, without its end. -/
def firstLine (s : String) : String :=
  String.ofList (s.toList.takeWhile (· ≠ '\n'))

end Montage
