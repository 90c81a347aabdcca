/-
# Montage.Json.Codec -- values in texts

What files hold are texts, and what is read from them and written into them are values.  Which
text a value becomes, and which value a text states, is up to a codec: whatever is read or written
here is given one, and knows nothing else of texts.

Two codecs are at hand, one for each layout.  Both read all texts, and take a number for the double
nearest to it; others may round a number in their own way, and need not read all digits.
-/
import Montage.Json.Parser
import Montage.Json.Printer

namespace Montage.Json

set_option autoImplicit false

/-- A way to put values into texts and to find them there. -/
structure Codec where
  /-- The text of a value. -/
  encode : Value → String
  /-- The value that a text states, if it states one. -/
  decode : String → Option Value

namespace Codec

/-- Texts without white space. -/
def compact : Codec := ⟨Value.compact, parse?⟩

/-- Texts with one item a line. -/
def pretty : Codec := ⟨Value.pretty, parse?⟩

section

variable {α : Type}

/-- What a text states. -/
def read? (codec : Codec) (read : Value → Option α) (text : String) : Option α :=
  (codec.decode text).bind read

/-- The text that states something. -/
def write (codec : Codec) (write : α → Value) (a : α) : String := codec.encode (write a)

end

end Codec

end Montage.Json
