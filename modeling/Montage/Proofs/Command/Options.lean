/-
# Montage.Proofs.Command.Options -- the options that an encoder reads

An encoder takes its arguments apart in pairs, a flag and its value.  A few switches
stand alone, and what is left over at the end is the output.  `readOptions` is that
reader; it knows nothing of what the values are, so a path or a text of a job that
looks like a flag is still read as the value it is.

Reading the arguments of a command gives its options in their order
(`readOptions_args`).  What an encoder is told with one flag is then a matter of
picking: the inputs, what is mapped, and how long the output lasts.
-/
import Montage.Command

namespace Montage

set_option autoImplicit false

/-! ## Reading -/

namespace Options

/-- The flags that stand alone. -/
def switches : List String := ["-y", "-n", "-shortest"]

/-- The options among some arguments, with their values. -/
def read : List String → List (String × String)
  | flag :: value :: rest =>
      if flag ∈ switches then read (value :: rest) else (flag, value) :: read rest
  | _ => []

/-- The values of a flag, in their order. -/
def pick (flag : String) (options : List (String × String)) : List String :=
  (options.filter (fun o => o.1 = flag)).map Prod.snd

/-- The arguments that options are written as. -/
def spell (options : List (String × String)) : List String := options.flatMap (fun o => [o.1, o.2])

/-- An option that is left out if it has no value. -/
def optional (flag : String) (value : Option String) : List (String × String) :=
  value.toList.map (fun v => (flag, v))

theorem read_switch {flag : String} (alone : flag ∈ switches) (rest : List String) :
    read (flag :: rest) = read rest := by
  cases rest with
  | nil => rfl
  | cons value rest => rw [read, if_pos alone]

/-- Options are read as they are, whatever follows them. -/
theorem read_spell {options : List (String × String)} (valued : ∀ o ∈ options, o.1 ∉ switches)
    (rest : List String) : read (spell options ++ rest) = options ++ read rest := by
  induction options with
  | nil => rfl
  | cons o options ih =>
      have here := valued o List.mem_cons_self
      have later := ih (fun p member => valued p (List.mem_cons_of_mem _ member))
      show read (o.1 :: o.2 :: (spell options ++ rest)) = _
      rw [read, if_neg here, later]
      rfl

theorem spell_append (first second : List (String × String)) :
    spell (first ++ second) = spell first ++ spell second := List.flatMap_append

theorem spell_optional (flag : String) (value : Option String) :
    spell (optional flag value) = Encoding.option flag value := by
  cases value <;> rfl

theorem flag_of_mem_optional {flag : String} {value : Option String} {o : String × String}
    (member : o ∈ optional flag value) : o.1 = flag := by
  obtain ⟨v, -, rfl⟩ := List.mem_map.mp member
  rfl

@[simp] theorem pick_append (flag : String) (first second : List (String × String)) :
    pick flag (first ++ second) = pick flag first ++ pick flag second := by
  simp [pick]

theorem pick_optional (flag : String) (value : Option String) :
    pick flag (optional flag value) = value.toList := by
  cases value <;> simp [pick, optional]

/-- Nothing is picked from options with other flags. -/
theorem pick_eq_nil {flag : String} {flags : List String} {options : List (String × String)}
    (known : ∀ o ∈ options, o.1 ∈ flags) (other : flag ∉ flags) : pick flag options = [] := by
  rw [pick, List.map_eq_nil_iff, List.filter_eq_nil_iff]
  intro o member same
  have same : o.1 = flag := by simpa using same
  exact other (same ▸ known o member)

theorem pick_flatMap {α : Type} (flag : String) (xs : List α) (f : α → List (String × String)) :
    pick flag (xs.flatMap f) = xs.flatMap (fun x => pick flag (f x)) := by
  induction xs with
  | nil => rfl
  | cons x xs ih => rw [List.flatMap_cons, pick_append, ih, List.flatMap_cons]

end Options

open Options

/-! ## The options of a command -/

def Source.settings : Source → List (String × String)
  | loopedImage path rate => [("-loop", "1"), ("-framerate", toString rate), ("-i", path)]
  | concatList path => [("-f", "concat"), ("-safe", "0"), ("-i", path)]
  | image path | audio path | media path => [("-i", path)]

def Source.flags : List String := ["-loop", "-framerate", "-f", "-safe", "-i"]

theorem Source.flag_of_mem_settings {inputs : List Source} :
    ∀ o ∈ inputs.flatMap settings, o.1 ∈ flags := by
  intro o member
  obtain ⟨s, -, member⟩ := List.mem_flatMap.mp member
  cases s <;> simp only [settings, List.mem_cons, List.not_mem_nil, or_false] at member <;>
    grind [flags]

def Filtering.settings : Filtering → List (String × String)
  | chain text => [("-vf", text)]
  | graph g => ("-filter_complex", g.text) :: g.outputs.map (fun pad => ("-map", pad))

def Filtering.flags : List String := ["-vf", "-filter_complex", "-map"]

theorem Filtering.flag_of_mem_settings {filter : Option Filtering} :
    ∀ o ∈ (filter.map settings).getD [], o.1 ∈ flags := by
  intro o member
  rcases filter with _ | text | g
  · cases member
  · obtain rfl := List.mem_singleton.mp member
    simp [flags]
  · rcases List.mem_cons.mp member with rfl | member
    · simp [flags]
    · obtain ⟨pad, -, rfl⟩ := List.mem_map.mp member
      simp [flags]

/-- What an encoding says, by flag. -/
def Encoding.fields (e : Encoding) : List (String × Option String) :=
  [("-c:v", some e.videoCodec), ("-preset", some e.preset), ("-crf", e.quality.map toString),
    ("-profile:v", e.profile), ("-level", e.level), ("-pix_fmt", e.pixelFormat),
    ("-c:a", some e.audioCodec), ("-b:a", e.audioRate), ("-ar", e.sampleRate.map toString),
    ("-ac", e.channels.map toString)]

def Encoding.settings (e : Encoding) : List (String × String) :=
  e.fields.flatMap (fun f => optional f.1 f.2)

def Encoding.flags : List String :=
  ["-c:v", "-preset", "-crf", "-profile:v", "-level", "-pix_fmt", "-c:a", "-b:a", "-ar", "-ac"]

theorem Encoding.flag_of_mem_settings {e : Encoding} : ∀ o ∈ e.settings, o.1 ∈ flags := by
  intro o member
  obtain ⟨f, field, member⟩ := List.mem_flatMap.mp member
  have known : f.1 ∈ e.fields.map Prod.fst := List.mem_map_of_mem field
  rw [flag_of_mem_optional member]
  exact known

namespace Command

/-- The option that ends an output after some seconds. -/
def lengthSettings (c : Command) : List (String × String) :=
  optional "-t" (c.duration.map (fun t => (Seconds.numeral t).text))

/-- The options before the switch that ends an output with its shortest stream. -/
def settings (c : Command) : List (String × String) :=
  c.inputs.flatMap Source.settings ++ (c.filter.map Filtering.settings).getD []
    ++ c.encoding.settings ++ c.lengthSettings

/-- The options behind that switch. -/
def lastSettings (c : Command) : List (String × String) :=
  optional "-movflags" (if c.encoding.fastStart then some "+faststart" else none)

theorem spell_sources (inputs : List Source) :
    spell (inputs.flatMap Source.settings) = inputs.flatMap Source.args := by
  induction inputs with
  | nil => rfl
  | cons s inputs ih =>
      rw [List.flatMap_cons, spell_append, ih, List.flatMap_cons]
      cases s <;> rfl

theorem spell_filter (filter : Option Filtering) :
    spell ((filter.map Filtering.settings).getD []) = (filter.map Filtering.args).getD [] := by
  rcases filter with _ | text | g
  · rfl
  · rfl
  · simp [Filtering.settings, Filtering.args, spell, List.flatMap_map]

theorem spell_encoding (e : Encoding) : spell e.settings = e.args := by
  have each (fields : List (String × Option String)) :
      spell (fields.flatMap fun f => optional f.1 f.2)
        = fields.flatMap fun f => Encoding.option f.1 f.2 := by
    induction fields with
    | nil => rfl
    | cons f fields ih =>
        rw [List.flatMap_cons, spell_append, spell_optional, ih, List.flatMap_cons]
  rw [Encoding.settings, each]
  simp [Encoding.fields, Encoding.args, Encoding.option]

theorem args_eq_spell (c : Command) :
    c.args = (if c.encoding.overwrite then "-y" else "-n") :: (spell c.settings
      ++ ((if c.shortest then ["-shortest"] else []) ++ (spell c.lastSettings ++ [c.output]))) := by
  have last : spell c.lastSettings
      = if c.encoding.fastStart then ["-movflags", "+faststart"] else [] := by
    rw [lastSettings, spell_optional]
    split <;> rfl
  rw [settings, lengthSettings, spell_append, spell_append, spell_append, spell_sources,
    spell_filter, spell_encoding, spell_optional, last]
  simp [args, List.append_assoc]

theorem settings_valued (c : Command) :
    (∀ o ∈ c.settings, o.1 ∉ switches) ∧ ∀ o ∈ c.lastSettings, o.1 ∉ switches := by
  have none : ∀ flag ∈ Source.flags ++ Filtering.flags ++ Encoding.flags ++ ["-t"],
      flag ∉ switches := by decide
  constructor
  · intro o member
    apply none
    simp only [settings, List.mem_append] at member ⊢
    rcases member with ((source | filter) | encoding) | length
    · exact .inl (.inl (.inl (Source.flag_of_mem_settings o source)))
    · exact .inl (.inl (.inr (Filtering.flag_of_mem_settings o filter)))
    · exact .inl (.inr (Encoding.flag_of_mem_settings o encoding))
    · exact .inr (List.mem_singleton.mpr (flag_of_mem_optional length))
  · intro o member
    rw [flag_of_mem_optional member]
    decide

/-- **The arguments of a command are read as its options**, whatever stands in them. -/
theorem read_args (c : Command) : Options.read c.args = c.settings ++ c.lastSettings := by
  obtain ⟨valued, lastValued⟩ := c.settings_valued
  have overwrites : (if c.encoding.overwrite then "-y" else "-n") ∈ switches := by
    split <;> decide
  have shortest (rest : List String) :
      Options.read ((if c.shortest then ["-shortest"] else []) ++ rest) = Options.read rest := by
    split
    · exact read_switch (by decide) rest
    · rfl
  rw [args_eq_spell, read_switch overwrites, read_spell valued, shortest, read_spell lastValued]
  simp [Options.read]

/-! ## What is picked -/

/-- The values that an encoder reads for a flag. -/
def values (c : Command) (flag : String) : List String := pick flag (Options.read c.args)

theorem values_eq (c : Command) (flag : String) :
    c.values flag = pick flag (c.inputs.flatMap Source.settings)
      ++ pick flag ((c.filter.map Filtering.settings).getD []) ++ pick flag c.encoding.settings
      ++ pick flag c.lengthSettings ++ pick flag c.lastSettings := by
  rw [values, read_args, settings]
  simp only [pick_append]

theorem pick_length {flag : String} (c : Command) (other : flag ≠ "-t") :
    pick flag c.lengthSettings = [] :=
  pick_eq_nil (fun _ member => List.mem_singleton.mpr (flag_of_mem_optional member))
    (by simpa using other)

theorem pick_last {flag : String} (c : Command) (other : flag ≠ "-movflags") :
    pick flag c.lastSettings = [] :=
  pick_eq_nil (fun _ member => List.mem_singleton.mpr (flag_of_mem_optional member))
    (by simpa using other)

/-- Inputs are numbered as they are named. -/
theorem values_inputs (c : Command) : c.values "-i" = c.inputs.map Source.path := by
  have inputs : pick "-i" (c.inputs.flatMap Source.settings) = c.inputs.map Source.path := by
    have each (s : Source) : pick "-i" s.settings = [s.path] := by
      cases s <;> simp [Source.settings, pick, Source.path]
    simp only [pick_flatMap, each, List.map_eq_flatMap]
  rw [values_eq, inputs, pick_eq_nil Filtering.flag_of_mem_settings (by decide),
    pick_eq_nil Encoding.flag_of_mem_settings (by decide), pick_length c (by decide),
    pick_last c (by decide)]
  simp

/-- What is mapped is what the graph of a command leaves over. -/
theorem values_map {c : Command} {g : Graph} (filter : c.filter = some (.graph g)) :
    c.values "-map" = g.outputs := by
  have outputs : pick "-map" ((c.filter.map Filtering.settings).getD []) = g.outputs := by
    simp [filter, Filtering.settings, pick, List.filter_map, Function.comp_def]
  rw [values_eq, outputs, pick_eq_nil Source.flag_of_mem_settings (by decide),
    pick_eq_nil Encoding.flag_of_mem_settings (by decide), pick_length c (by decide),
    pick_last c (by decide)]
  simp

/-- How long the output lasts. -/
theorem values_length (c : Command) :
    c.values "-t" = (c.duration.map fun t => (Seconds.numeral t).text).toList := by
  rw [values_eq, lengthSettings, pick_optional, pick_eq_nil Source.flag_of_mem_settings (by decide),
    pick_eq_nil Filtering.flag_of_mem_settings (by decide),
    pick_eq_nil Encoding.flag_of_mem_settings (by decide), pick_last c (by decide)]
  simp

end Command

end Montage
