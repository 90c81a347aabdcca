/-
# Montage.Proofs.Json.Codec -- what is asked of a codec

Nothing that is kept in files depends on how values are spelled.  What it does depend on is named
here (`Codec.Lawful`): a double that has a value is read as the same double, other leaves are read
as they were written, what holds other values is read if they are, and no text states a number
that is none.  From that, every value that may be stored is read back (`Lawful.decode_encode`).

The two codecs at hand obey these laws.
-/
import Montage.Json.Codec
import Montage.Json.Settings
import Montage.Proofs.Effect.Shown
import Montage.Proofs.Json.Sound
import Montage.Proofs.Json.Text
import Montage.Proofs.Number.Decimal

namespace Montage.Json

set_option autoImplicit false

/-- A leaf that is no double, and that may be stored. -/
def Value.IsExact : Value → Prop
  | .null | .bool _ | .text _ => True
  | .nat n => n ≤ maxLong
  | _ => False

namespace Codec

/-- The laws of a codec. -/
structure Lawful (codec : Codec) : Prop where
  /-- Every number that a text states has a value; one beyond the doubles is an error. -/
  sound : ∀ text v, codec.decode text = some v → v.Sound
  /-- A double that has a value is written so that it is read as the same double. -/
  double : ∀ x : Float, x.isFinite = true → codec.decode (codec.encode (.real x)) = some (.real x)
  /-- Counts of long words, texts, truth values and nothing are read as they are written. -/
  leaf : ∀ v : Value, v.IsExact → codec.decode (codec.encode v) = some v
  /-- What is nested no deeper than a reader goes is read as it is written if its leaves are. -/
  nested : ∀ v : Value, v.isReadable maxDepth = true →
    v.Every (fun leaf => codec.decode (codec.encode leaf) = some leaf) →
    codec.decode (codec.encode v) = some v

variable {codec : Codec}

/-- **What may be stored is read back.** -/
theorem Lawful.decode_encode (lawful : codec.Lawful) {v : Value} (storable : v.Storable)
    (shallow : v.isReadable maxDepth = true) : codec.decode (codec.encode v) = some v := by
  refine lawful.nested v shallow (Value.every_imp (fun leaf isLeaf fits => ?_) storable)
  cases leaf with
  | real x => exact lawful.double x fits
  | nat n => exact lawful.leaf _ fits
  | null | bool b | text s => exact lawful.leaf _ trivial
  | list items => exact isLeaf.elim
  | object members => exact isLeaf.elim
  | unreadable => exact fits.elim

/-! ## The codecs at hand -/

/-- What is printed so that it is parsed back, in whatever layout, is what a codec has to keep. -/
theorem lawful_of_parse? (reads : codec.decode = parse?)
    (prints : ∀ v : Value, v.Printable → parse? (codec.encode v) = some v)
    (blank : codec.encode .unreadable = "null") : codec.Lawful := by
  constructor
  case sound =>
    intro text v stated
    rw [reads] at stated
    exact sound_of_parse? stated
  case double =>
    intro x finite
    rw [reads]
    exact prints _ (Value.printable_leaf trivial finite nofun)
  case leaf =>
    intro v exact_
    rw [reads]
    refine prints v ?_
    cases v with
    | nat n =>
        obtain ⟨q, value⟩ := exists_exact_ofNat exact_
        exact Value.printable_leaf trivial (isFinite_of_exact value) nofun
    | null | bool b | text s => exact Value.printable_leaf trivial trivial nofun
    | real x | list items | object members | unreadable => exact exact_.elim
  case nested =>
    intro v _ leaves
    rw [reads] at leaves ⊢
    -- A leaf that is parsed back can be printed: nothing else has a number without a value.
    refine prints v (Value.every_imp (fun leaf isLeaf back => ?_) leaves)
    refine ⟨(Value.every_leaf_iff isLeaf).mp (sound_of_parse? back), ?_⟩
    rintro rfl
    rw [blank] at back
    cases back

theorem lawful_compact : compact.Lawful :=
  lawful_of_parse? rfl (fun _ => parse?_compact) (by decide)

theorem lawful_pretty : pretty.Lawful :=
  lawful_of_parse? rfl (fun _ => parse?_pretty) (by decide)

end Codec

end Montage.Json
