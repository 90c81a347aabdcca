/-
# Montage.Proofs.Filter.Wiring -- graphs whose streams go somewhere

A graph names its streams by texts.  Two things are said here about any graph:
when its nodes are wired so that an evaluator can run them in order and nothing is
left over (`Graph.WellWired`), and what a stream is made of once every label is
followed back to the node that puts it out (`Graph.reel`).

The reel of a finished video is a tree.  `Reel.shots` reads it as a strip: the raw
streams in the order they are shown, each with the filters it goes through alone
and the way it is joined to what comes before it.  It refuses a tree that is not a
strip, such as one that filters what is already joined.

Texts serve as labels because no two pads share one (`Pad.label_injective`).
-/
import Mathlib.Data.List.Basic
import Mathlib.Data.List.Count
import Mathlib.Data.List.Nodup
import Montage.Filter.Graph

namespace Montage

set_option autoImplicit false

/-! ## Labels -/

theorem repr_injective {m n : Nat} (same : toString m = toString n) : m = n := by
  have digits : Nat.toDigits 10 m = Nat.toDigits 10 n := by
    rw [← Nat.toList_repr, ← Nat.toList_repr]
    exact congrArg String.toList same
  have value := congrArg (fun l => Nat.ofDigitChars 10 l 0) digits
  simpa [Nat.ofDigitChars_toDigits] using value

/-- What starts with a count starts with a digit. -/
theorem head_toString_append (n : Nat) (s : String) :
    ∃ c rest, (toString n ++ s).toList = c :: rest ∧ c.isDigit := by
  have digits : (toString n).toList = Nat.toDigits 10 n := Nat.toList_repr
  cases form : Nat.toDigits 10 n with
  | nil => exact absurd form Nat.toDigits_ne_nil
  | cons c rest =>
      refine ⟨c, rest ++ s.toList, ?_, ?_⟩
      · rw [String.toList_append, digits, form, List.cons_append]
      · exact Nat.isDigit_of_mem_toDigits (by decide) (by decide) (form ▸ List.mem_cons_self)

namespace Pad

/-- The letter that the label of a pad starts with; none if it starts with a count. -/
def letter? : Pad → Option Char
  | picture _ | sound _ => none
  | segment _ => some 's'
  | joined _ => some 'x'
  | videoOut => some 'v'
  | audioOut => some 'a'

theorem head_label (p : Pad) :
    ∃ c rest, p.label.toList = c :: rest ∧ p.letter? = if c.isDigit then none else some c := by
  cases p with
  | picture k =>
      obtain ⟨c, rest, form, digit⟩ := head_toString_append k ":v"
      exact ⟨c, rest, form, by simp [letter?, digit]⟩
  | sound k =>
      obtain ⟨c, rest, form, digit⟩ := head_toString_append k ":a"
      exact ⟨c, rest, form, by simp [letter?, digit]⟩
  | segment k => exact ⟨'s', (toString k).toList, by simp [label], rfl⟩
  | joined k => exact ⟨'x', (toString k).toList, by simp [label], rfl⟩
  | videoOut => exact ⟨'v', ['o', 'u', 't'], by simp [label], rfl⟩
  | audioOut => exact ⟨'a', ['o', 'u', 't'], by simp [label], rfl⟩

theorem letter?_eq_of_label_eq {p q : Pad} (same : p.label = q.label) :
    p.letter? = q.letter? := by
  obtain ⟨c, rest, formP, letterP⟩ := head_label p
  obtain ⟨d, rest', formQ, letterQ⟩ := head_label q
  have heads : c :: rest = d :: rest' := by rw [← formP, ← formQ, same]
  rw [letterP, letterQ, (List.cons.inj heads).1]

/-- The sound of an input is not the picture of any. -/
theorem picture_label_ne_sound_label (k j : Nat) : (picture k).label ≠ (sound j).label := by
  intro same
  have lists := congrArg String.toList same
  simp only [label, String.toList_append] at lists
  have ends := List.append_inj_right' lists (by simp)
  simp at ends

/-- **No two pads share a label.** -/
theorem label_injective : Function.Injective label := by
  intro p q same
  have letters := letter?_eq_of_label_eq same
  cases p with
  | picture k =>
      cases q <;> simp only [letter?, reduceCtorEq] at letters
      · rw [repr_injective ((String.append_left_inj ":v").1 same)]
      · exact absurd same (picture_label_ne_sound_label _ _)
  | sound k =>
      cases q <;> simp only [letter?, reduceCtorEq] at letters
      · exact absurd same.symm (picture_label_ne_sound_label _ _)
      · rw [repr_injective ((String.append_left_inj ":a").1 same)]
  | segment k =>
      cases q <;> simp [letter?] at letters
      rw [repr_injective ((String.append_right_inj "s").1 same)]
  | joined k =>
      cases q <;> simp [letter?] at letters
      rw [repr_injective ((String.append_right_inj "x").1 same)]
  | videoOut => cases q <;> simp [letter?] at letters; rfl
  | audioOut => cases q <;> simp [letter?] at letters; rfl

end Pad

/-! ## Wiring -/

/-- Each node takes in what is known before it; what it puts out is known after it. -/
def Node.Fed : List String → List Node → Prop
  | _, [] => True
  | known, n :: rest => (∀ l ∈ n.inputs, l ∈ known) ∧ Fed (known ++ n.outputs) rest

namespace Node

theorem Fed.mono {nodes : List Node} {known more : List String} (sub : known ⊆ more)
    (fed : Fed known nodes) : Fed more nodes := by
  induction nodes generalizing known more with
  | nil => trivial
  | cons n rest ih =>
      obtain ⟨here, later⟩ := fed
      refine ⟨fun l member => sub (here l member), ih ?_ later⟩
      exact List.append_subset.2
        ⟨List.Subset.trans sub (List.subset_append_left _ _), List.subset_append_right _ _⟩

theorem fed_of_inputs {nodes : List Node} {known : List String}
    (inputs : ∀ n ∈ nodes, ∀ l ∈ n.inputs, l ∈ known) : Fed known nodes := by
  induction nodes with
  | nil => trivial
  | cons n rest ih =>
      refine ⟨inputs n List.mem_cons_self, ?_⟩
      have later := ih (fun m member => inputs m (List.mem_cons_of_mem _ member))
      exact later.mono (List.subset_append_left _ _)

theorem fed_append {first second : List Node} {known : List String} (fed : Fed known first)
    (next : Fed (known ++ first.flatMap outputs) second) : Fed known (first ++ second) := by
  induction first generalizing known with
  | nil => simpa using next
  | cons n rest ih =>
      obtain ⟨here, later⟩ := fed
      refine ⟨here, ih later ?_⟩
      simpa [List.flatMap_cons, List.append_assoc] using next

/-- What a node takes in was known from the start, or an earlier node puts it out. -/
theorem Fed.earlier {before after : List Node} {n : Node} {known : List String}
    (fed : Fed known (before ++ n :: after)) {l : String} (member : l ∈ n.inputs) :
    l ∈ known ∨ ∃ m ∈ before, l ∈ m.outputs := by
  induction before generalizing known with
  | nil => exact Or.inl (fed.1 l member)
  | cons m rest ih =>
      rcases ih fed.2 with found | ⟨m', inRest, found⟩
      · rcases List.mem_append.1 found with found | found
        · exact Or.inl found
        · exact Or.inr ⟨m, List.mem_cons_self, found⟩
      · exact Or.inr ⟨m', List.mem_cons_of_mem _ inRest, found⟩

end Node

namespace Graph

/-- The labels that nodes put out, in the order of evaluation. -/
def produced (g : Graph) : List String := g.nodes.flatMap Node.outputs

/-- The labels that nodes take in, once for each time. -/
def consumed (g : Graph) : List String := g.nodes.flatMap Node.inputs

/-- The labels of the finished streams, pictures first. -/
def finished (g : Graph) : List String := g.videoOut :: g.audioOut.toList

/-- A graph that can be evaluated node by node from raw streams, each of them read
once, and that leaves over its finished streams and nothing else. -/
structure WellWired (raw : List String) (g : Graph) : Prop where
  produced_once : g.produced.Nodup
  /-- What a node takes in is raw, or put out by a node that comes before it. -/
  earlier : ∀ before n after, g.nodes = before ++ n :: after →
    ∀ l ∈ n.inputs, l ∈ raw ∨ ∃ m ∈ before, l ∈ m.outputs
  raw_once : ∀ l ∈ raw, g.consumed.count l = 1 ∧ l ∉ g.produced
  /-- What is put out and not finished is taken in once. -/
  used_once : ∀ l ∈ g.produced, l ∉ g.finished → g.consumed.count l = 1
  finished_once : ∀ l ∈ g.finished, g.produced.count l = 1 ∧ l ∉ g.consumed
  /-- What a command maps is what no node takes in. -/
  outputs_eq : g.outputs = (g.produced.filter (· ∉ g.consumed)).map bracketed

theorem count_map_label (pads : List Pad) (p : Pad) :
    (pads.map Pad.label).count p.label = pads.count p :=
  List.count_map_of_injective pads _ Pad.label_injective p

theorem mem_map_label {pads : List Pad} {p : Pad} : p.label ∈ pads.map Pad.label ↔ p ∈ pads :=
  List.mem_map_of_injective Pad.label_injective

/-- A graph over pads is well wired if, in some order, what it takes in is the raw
pads and what it puts out, less the finished pads at the end. -/
theorem wellWired_of_pads {g : Graph} {raw middle ends taken : List Pad}
    (fed : Node.Fed (raw.map Pad.label) g.nodes)
    (produced_eq : g.produced = (middle ++ ends).map Pad.label)
    (consumed_eq : g.consumed = taken.map Pad.label)
    (finished_eq : g.finished = ends.map Pad.label)
    (balance : taken.Perm (raw ++ middle))
    (distinct : (raw ++ (middle ++ ends)).Nodup) : g.WellWired (raw.map Pad.label) := by
  have distinct' : ((raw ++ middle) ++ ends).Nodup := by simpa using distinct
  obtain ⟨takenOnce, endsOnce, apart⟩ := List.nodup_append'.1 distinct'
  have makes : (middle ++ ends).Nodup := (List.nodup_append'.1 distinct).2.1
  have taken_iff : ∀ p, p.label ∈ g.consumed ↔ p ∈ raw ++ middle := by
    intro p
    rw [consumed_eq, mem_map_label, balance.mem_iff]
  have count_eq : ∀ p ∈ raw ++ middle, g.consumed.count p.label = 1 := by
    intro p member
    rw [consumed_eq, count_map_label, balance.count_eq]
    exact List.count_eq_one_of_mem takenOnce member
  have ends_free : ∀ p ∈ ends, p.label ∉ g.consumed := by
    intro p member
    rw [taken_iff]
    exact fun other => apart other member
  refine ⟨?_, ?_, ?_, ?_, ?_, ?_⟩
  · rw [produced_eq]
    exact makes.map Pad.label_injective
  · intro before n after form l member
    rw [form] at fed
    exact fed.earlier member
  · intro l member
    obtain ⟨p, inRaw, rfl⟩ := List.mem_map.1 member
    refine ⟨count_eq p (List.mem_append_left _ inRaw), ?_⟩
    rw [produced_eq, mem_map_label]
    exact fun made => (List.nodup_append'.1 distinct).2.2 inRaw made
  · intro l member unfinished
    rw [produced_eq] at member
    obtain ⟨p, made, rfl⟩ := List.mem_map.1 member
    rw [finished_eq, mem_map_label] at unfinished
    have inMiddle : p ∈ middle := (List.mem_append.1 made).resolve_right unfinished
    exact count_eq p (List.mem_append_right _ inMiddle)
  · intro l member
    rw [finished_eq] at member
    obtain ⟨p, inEnds, rfl⟩ := List.mem_map.1 member
    refine ⟨?_, ends_free p inEnds⟩
    rw [produced_eq, count_map_label]
    exact List.count_eq_one_of_mem makes (List.mem_append_right _ inEnds)
  · -- Everything in between is taken in somewhere, and the finished streams nowhere.
    have used : (middle.map Pad.label).filter (· ∉ g.consumed) = [] := by
      rw [List.filter_eq_nil_iff]
      intro l member
      obtain ⟨p, inMiddle, rfl⟩ := List.mem_map.1 member
      simpa using (taken_iff p).2 (List.mem_append_right _ inMiddle)
    have left : (ends.map Pad.label).filter (· ∉ g.consumed) = ends.map Pad.label := by
      rw [List.filter_eq_self]
      intro l member
      obtain ⟨p, inEnds, rfl⟩ := List.mem_map.1 member
      simpa using ends_free p inEnds
    have mapped : g.outputs = g.finished.map bracketed := by
      simp [outputs, finished, Option.toList_map]
    rw [mapped, produced_eq, List.map_append, List.filter_append, used, left, List.nil_append,
      finished_eq]

end Graph

/-! ## Reels -/

/-- What a stream is made of: a raw stream, or filters applied to other streams. -/
inductive Reel where
  | raw (label : String)
  | made (chain : Chain) (parts : List Reel)

namespace Reel

/-- What the stream with a label is made of, given the nodes before it, the latest
first. -/
def ofLabel : List Node → String → Reel
  | [], l => .raw l
  | n :: earlier, l =>
      if l ∈ n.outputs then .made n.chain (n.inputs.map (ofLabel earlier)) else ofLabel earlier l

theorem ofLabel_append {later earlier : List Node} {l : String}
    (fresh : ∀ n ∈ later, l ∉ n.outputs) : ofLabel (later ++ earlier) l = ofLabel earlier l := by
  induction later with
  | nil => rfl
  | cons n rest ih =>
      rw [List.cons_append, ofLabel, if_neg (fresh n List.mem_cons_self)]
      exact ih (fun m member => fresh m (List.mem_cons_of_mem _ member))

theorem ofLabel_raw {nodes : List Node} {l : String} (fresh : ∀ n ∈ nodes, l ∉ n.outputs) :
    ofLabel nodes l = .raw l := by
  have known := @ofLabel_append nodes [] l fresh
  rwa [List.append_nil] at known

end Reel

/-- What a stream of a graph is made of. -/
def Graph.reel (g : Graph) (l : String) : Reel := Reel.ofLabel g.nodes.reverse l

/-- How a stretch of video is joined to what comes before it. -/
inductive Joint where
  | cut
  /-- The kind, the length and the offset as they are written. -/
  | crossfade (kind length offset : String)
  deriving DecidableEq, Repr

/-- How a filter joins so many streams of pictures; none if it joins none. -/
def Joint.ofFilter? (parts : Nat) (f : Filter) : Option Joint :=
  if f.name = "concat" ∧ f.get? "n" = some (toString parts) ∧ f.get? "v" = some "1"
      ∧ f.get? "a" = some "0" then some .cut
  else if f.name = "xfade" ∧ parts = 2 then do
    return .crossfade (← f.get? "transition") (← f.get? "duration") (← f.get? "offset")
  else none

/-- A stretch of video: a raw stream, the filters it goes through before it is joined,
and how it is joined; the first of all is not. -/
structure Shot where
  joint : Option Joint
  source : String
  chain : Chain
  deriving DecidableEq, Repr

namespace Shot

/-- Shots that go through more filters, which only a single one can. -/
def through (chain : Chain) : List Shot → Option (List Shot)
  | [s] => some [{ s with chain := s.chain ++ chain }]
  | shots => if chain = [] then some shots else none

/-- Strips of shots behind one another, joined in one way. -/
def splice (j : Joint) : List (List Shot) → List Shot
  | [] => []
  | first :: rest => first ++ rest.flatMap fun
      | [] => []
      | s :: more => { s with joint := some j } :: more

/-- What filters make of some strips: they apply to a single one, and several have to
be joined by a single filter. -/
def assemble (chain : Chain) (strips : List (List Shot)) : Option (List Shot) :=
  match chain, strips with
  | _, [shots] => through chain shots
  | [f], strips => (Joint.ofFilter? strips.length f).map (splice · strips)
  | _, _ => none

end Shot

namespace Reel

mutual

/-- The shots of a reel, in the order they are shown. -/
def shots : Reel → Option (List Shot)
  | raw l => some [⟨none, l, []⟩]
  | made chain parts => (shotsAll parts).bind (Shot.assemble chain)

/-- The shots of some reels. -/
def shotsAll : List Reel → Option (List (List Shot))
  | [] => some []
  | r :: rest => do return (← r.shots) :: (← shotsAll rest)

end

/-- A node without filters changes nothing. -/
theorem shots_made_nil (r : Reel) : (made [] [r]).shots = r.shots := by
  cases form : r.shots with
  | none => simp [shots, shotsAll, form]
  | some ss =>
      have kept : Shot.through [] ss = some ss := by
        unfold Shot.through
        split <;> simp
      simp [shots, shotsAll, form, Shot.assemble, kept]

/-- The reel without its last filter, if that is the given one. -/
def beforeLast (f : Filter) : Reel → Option Reel
  | made chain parts => if chain.getLast? = some f then some (.made chain.dropLast parts) else none
  | raw _ => none

end Reel

end Montage
