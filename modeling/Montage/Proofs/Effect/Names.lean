/-
# Montage.Proofs.Effect.Names -- directions mean the same however they are written

Directions are written as one text with commas, or as a list of texts, which may hold commas
of their own.  Either way the same names are read (`Tokens.names_joined`), and whatever an
effect takes from its directions it takes from the names (`Settings.effect_congr`), so what
settings come to does not depend on the spelling.
-/
import Montage.Motion
import Montage.Proofs.Text.Blank

namespace Montage

set_option autoImplicit false

namespace Tokens

/-- A name as it is looked up: not empty, on one side of every comma, without white space
around it. -/
structure Neat (name : String) : Prop where
  nonempty : name ≠ ""
  whole : ',' ∉ name.toList
  first : ∀ c, name.toList.head? = some c → isBlank c = false
  last : ∀ c, name.toList.getLast? = some c → isBlank c = false

theorem neat_of_mem_names {t : Tokens} {name : String} (member : name ∈ t.names) : Neat name := by
  obtain ⟨among, nonempty⟩ := List.mem_filter.mp member
  obtain ⟨piece, cut, rfl⟩ := List.mem_map.mp among
  obtain ⟨text, -, cut⟩ := List.mem_flatMap.mp cut
  obtain ⟨cs, part, rfl⟩ := List.mem_map.mp cut
  have trimmed : (trim (String.ofList cs)).toList = trimChars cs := by
    rw [trim, String.toList_ofList, String.toList_ofList]
  constructor
  case nonempty => simpa using nonempty
  case whole =>
    rw [trimmed]
    exact fun comma => not_mem_of_mem_splitOn part (mem_of_mem_trimChars comma)
  case first =>
    rw [trimmed]
    exact fun c => not_isBlank_head
  case last =>
    rw [trimmed]
    exact fun c => not_isBlank_getLast

theorem splitCommas_joined {texts : List String} (some : texts ≠ []) :
    splitCommas (",".intercalate texts) = texts.flatMap splitCommas := by
  have comma : ",".toList = [','] := rfl
  unfold splitCommas
  rw [String.toList_intercalate, comma, splitOn_intercalate_flatMap _ (by simpa using some),
    List.flatMap_map, List.map_flatMap]

/-- **One text with commas holds the names of its pieces**, whatever the pieces hold. -/
theorem names_joined (texts : List String) :
    (one (",".intercalate texts)).names = (many texts).names := by
  cases texts with
  | nil =>
      -- No text at all is one empty piece, which holds no name.
      decide +kernel
  | cons text rest =>
      have cut := splitCommas_joined (List.cons_ne_nil text rest)
      simp only [names, Tokens.texts, List.flatMap_singleton, cut]

end Tokens

namespace Settings

/-- The same settings with directions written in some way. -/
def directed (s : Settings) (t : Tokens) : Settings := { s with direction := some t }

variable {a b : Tokens}

theorem directions_congr (s : Settings) (same : a.names = b.names) :
    (s.directed a).directions = (s.directed b).directions := by
  unfold directions directed
  simp only [Option.map_some, Option.getD_some, same]

theorem slide_congr (s : Settings) (same : a.names = b.names) :
    (s.directed a).slide = (s.directed b).slide := by
  unfold slide directed
  simp only [Option.map_some, Option.getD_some, same]

theorem effectOf_congr (s : Settings) (kind : EffectKind) (same : a.names = b.names) :
    (s.directed a).effectOf kind = (s.directed b).effectOf kind := by
  unfold effectOf
  cases kind with
  | kenBurns => rw [s.directions_congr same]; rfl
  | parallax => rw [s.slide_congr same]; rfl
  | cinemagraph | dollyZoom | still => rfl

/-- An effect takes nothing from its directions but their names. -/
theorem effect_congr (s : Settings) (same : a.names = b.names) :
    (s.directed a).effect = (s.directed b).effect := by
  unfold effect
  have label : (s.directed a).kind? = (s.directed b).kind? := rfl
  rw [label]
  cases (s.directed b).kind? with
  | none => rfl
  | some kind =>
      dsimp only
      rw [s.effectOf_congr kind same]

theorem check_congr (s : Settings) (same : a.names = b.names) :
    (s.directed a).check = (s.directed b).check := by
  rw [check, s.effect_congr same]
  rfl

end Settings

theorem Motion.sceneFilter_congr {τ : Type} [Seconds τ] (clip : Clip τ) (s : Settings) {a b : Tokens}
    (same : a.names = b.names) :
    sceneFilter clip (s.directed a) = sceneFilter clip (s.directed b) := by
  rw [sceneFilter, s.check_congr same]
  rfl

namespace Tokens

/-- **Directions mean the same however they are written**: a list of texts and the one text
that joins them with commas hold the same names, so that the effect, the check and the filter
are the same, and so is what is reported on the way.  Every name is neat. -/
theorem spellings_agree (texts : List String) :
    (one (",".intercalate texts)).names = (many texts).names
      ∧ (∀ s : Settings,
          (s.directed (one (",".intercalate texts))).effect = (s.directed (many texts)).effect
          ∧ (s.directed (one (",".intercalate texts))).check = (s.directed (many texts)).check
          ∧ ∀ (τ : Type) [Seconds τ] (clip : Clip τ),
            Motion.sceneFilter clip (s.directed (one (",".intercalate texts)))
              = Motion.sceneFilter clip (s.directed (many texts)))
      ∧ ∀ t : Tokens, ∀ name ∈ t.names, Neat name := by
  have same := names_joined texts
  refine ⟨same, fun s => ⟨s.effect_congr same, s.check_congr same, fun τ _ clip => ?_⟩, ?_⟩
  · exact Motion.sceneFilter_congr clip s same
  · exact fun t name member => neat_of_mem_names member

/-- Names with commas and white space about them, and a text that holds none. -/
def untidy : List String := [" zoom-in,,", "", "\u00a0pan-left , pan-up"]

theorem untidy_agree :
    "pan-left" ∈ (many untidy).names ∧ (one (",".intercalate untidy)).names = (many untidy).names
      ∧ Neat "pan-left" := by
  have member : "pan-left" ∈ (many untidy).names := by decide +kernel
  obtain ⟨same, -, neat⟩ := spellings_agree untidy
  exact ⟨member, same, neat _ _ member⟩

end Tokens

end Montage
