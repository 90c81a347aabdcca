/-
# Montage.Filter.Fingerprint -- sixty-four bits that stand for a text

The hash FNV-1a: every byte is mixed in by an exclusive or and then spread by a
multiplication with an odd constant, modulo `2 ^ 64`.  Both steps can be undone,
so two different states stay different whatever bytes follow.
-/
namespace Montage.Fingerprint

set_option autoImplicit false

/-- The state before the first byte. -/
def start : UInt64 := 0xcbf29ce484222325

/-- The multiplier. -/
def prime : UInt64 := 0x100000001b3

/-- One more byte. -/
def step (h : UInt64) (b : UInt8) : UInt64 := (h ^^^ b.toUInt64) * prime

/-- Some more bytes. -/
def steps (h : UInt64) (bs : List UInt8) : UInt64 := bs.foldl step h

/-- The fingerprint of a text, over its UTF-8 bytes. -/
def ofText (s : String) : UInt64 := steps start s.toUTF8.toList

/-- Sixteen hexadecimal digits. -/
def hex (h : UInt64) : String :=
  let digits := Nat.toDigits 16 h.toNat
  String.ofList (List.replicate (16 - digits.length) '0' ++ digits)

end Montage.Fingerprint
