/-
# Montage.Proofs.Filter.Reading -- texts of graphs say one thing only

The reader of graphs takes a text apart from the outside in, and a text is put
together from the inside out with nothing escaped.  So it is read back only if no part
of it holds a character that a reader outside of that part would act on: this is what
`Legible` asks of a graph, part by part.

The reader works on marks, which are characters without their quotes, and so do the
lemmas.  Each part of a graph has its marks (`Arg.marks` up to `Node.marks`); they are
what its text is read as, they hold no separator of a larger part, and so the parts are
found again where they were put together.
-/
import Mathlib.Data.List.TakeWhile
import Montage.Filter.Reader

namespace Montage

set_option autoImplicit false

namespace Reader

/-! ## Marks of a text -/

/-- A text as it stands outside of quotes. -/
def bare (s : String) : List Mark := s.toList.map (·, false)

/-- Whether a text is read as some marks. -/
def Reads (s : String) (ms : List Mark) : Prop := marks false s.toList = some ms

/-- Where the quotes of a text are closed, reading goes on behind it from outside of quotes. -/
theorem marks_append {inside : Bool} {a : List Char} {ms : List Mark} (b : List Char)
    (read : marks inside a = some ms) :
    marks inside (a ++ b) = (marks false b).map (ms ++ ·) := by
  induction a generalizing inside ms with
  | nil =>
      cases inside
      · obtain rfl : [] = ms := by simpa [marks] using read
        simp
      · simp [marks] at read
  | cons c a ih =>
      rw [List.cons_append, marks]
      rw [marks] at read
      split
      · rename_i quote
        rw [if_pos quote] at read
        exact ih read
      · rename_i other
        rw [if_neg other, Option.map_eq_some_iff] at read
        obtain ⟨rest, read, rfl⟩ := read
        rw [ih read]
        simp [Function.comp_def]

theorem Reads.append {a b : String} {ma mb : List Mark} (first : Reads a ma)
    (second : Reads b mb) : Reads (a ++ b) (ma ++ mb) := by
  unfold Reads at second ⊢
  rw [String.toList_append, marks_append _ first, second]
  rfl

theorem marks_of_not_mem {cs : List Char} (inside : Bool) (rest : List Char)
    (free : '\x27' ∉ cs) :
    marks inside (cs ++ rest) = (marks inside rest).map (cs.map (·, inside) ++ ·) := by
  induction cs with
  | nil => simp
  | cons c cs ih =>
      rw [List.mem_cons, not_or] at free
      rw [List.cons_append, marks, if_neg (Ne.symm free.1), ih free.2]
      simp [Function.comp_def]

theorem reads_bare {s : String} (free : '\x27' ∉ s.toList) : Reads s (bare s) := by
  have read := marks_of_not_mem false [] free
  rw [List.append_nil] at read
  simp [Reads, read, bare, marks]

theorem reads_enclosed {s : String} (free : '\x27' ∉ s.toList) :
    Reads ("'" ++ s ++ "'") (s.toList.map (·, true)) := by
  simp [Reads, marks, marks_of_not_mem true _ free]

section

variable {α : Type} {xs : List α} {spell : α → String} {parts : α → List Mark}

theorem Reads.intercalate {separator : String} {c : Char} (one : separator.toList = [c])
    (other : c ≠ '\x27') (each : ∀ x ∈ xs, Reads (spell x) (parts x)) :
    Reads (separator.intercalate (xs.map spell)) ([(c, false)].intercalate (xs.map parts)) := by
  have self : Reads separator [(c, false)] := by
    simp [Reads, one, marks, other]
  induction xs with
  | nil => simp [Reads, marks]
  | cons x xs ih =>
      have first := each x (by simp)
      have later := ih (fun y member => each y (by simp [member]))
      cases xs with
      | nil => simpa using first
      | cons y xs =>
          rw [List.map_cons, List.map_cons, List.map_cons, List.map_cons,
            List.intercalate_cons_cons, String.intercalate_cons_cons]
          exact (first.append self).append later

theorem Reads.join (each : ∀ x ∈ xs, Reads (spell x) (parts x)) :
    Reads (String.join (xs.map spell)) (xs.flatMap parts) := by
  induction xs with
  | nil => simp [Reads, marks]
  | cons x xs ih =>
      rw [List.map_cons, String.join_cons, List.flatMap_cons]
      exact (each x (by simp)).append (ih (fun y member => each y (by simp [member])))

end

theorem text_map (s : String) (inside : Bool) : text (s.toList.map (·, inside)) = s := by
  simp [text, Function.comp_def]

theorem text_bare (s : String) : text (bare s) = s := text_map s false

/-! ## Parts between separators -/

theorem isMark_eq (c : Char) : isMark c = (· == (c, false)) := by
  funext m
  simp [isMark, Prod.ext_iff, Bool.beq_eq_decide_eq]

theorem pieces_intercalate {c : Char} {parts : List (List Mark)} (nonempty : parts ≠ [])
    (free : ∀ p ∈ parts, (c, false) ∉ p) : pieces c ([(c, false)].intercalate parts) = parts := by
  rw [pieces, isMark_eq, ← List.splitOn_eq_splitOnP]
  exact List.splitOn_intercalate _ free nonempty

theorem halves_of_not_mem {c : Char} {ms : List Mark} (free : (c, false) ∉ ms) :
    halves c ms = (ms, none) := by
  have all : ms.dropWhile (fun m => !isMark c m) = [] := by
    rw [List.dropWhile_eq_nil_iff]
    intro m member
    have other : m ≠ (c, false) := fun same => free (same ▸ member)
    simpa [isMark_eq] using other
  rw [halves, all]

theorem halves_append {c : Char} {ms : List Mark} (rest : List Mark) (free : (c, false) ∉ ms) :
    halves c (ms ++ (c, false) :: rest) = (ms, some rest) := by
  have before : ∀ m ∈ ms, (!isMark c m) = true := by
    intro m member
    have other : m ≠ (c, false) := fun same => free (same ▸ member)
    simpa [isMark_eq] using other
  have stop : (!isMark c (c, false)) = false := by simp [isMark_eq]
  rw [halves, List.dropWhile_append_of_pos before, List.takeWhile_append_of_pos before,
    List.dropWhile_cons_of_neg (by simp [stop]), List.takeWhile_cons_of_neg (by simp [stop]),
    List.append_nil]

theorem mem_intercalate {m sep : Mark} {parts : List (List Mark)}
    (member : m ∈ [sep].intercalate parts) : m = sep ∨ ∃ p ∈ parts, m ∈ p := by
  induction parts with
  | nil => simp at member
  | cons p parts ih =>
      cases parts with
      | nil => exact .inr ⟨p, by simp, by simpa using member⟩
      | cons q parts =>
          rw [List.intercalate_cons_cons] at member
          rcases (by simpa using member : m ∈ p ∨ m = sep ∨ m ∈ _) with here | here | later
          · exact .inr ⟨p, by simp, here⟩
          · exact .inl here
          · rcases ih later with here | ⟨r, among, here⟩
            · exact .inl here
            · exact .inr ⟨r, by simp [among], here⟩

/-- The characters that the syntax of graphs acts on outside of quotes. -/
def syntaxMarks : List Char := ['\x27', ';', ',', ':', '=', '[', ']']

/-- A text that the syntax leaves alone. -/
def Plain (s : String) : Prop := ∀ c ∈ s.toList, c ∉ syntaxMarks

theorem Plain.not_mem_bare {s : String} (plain : Plain s) {c : Char} (acts : c ∈ syntaxMarks) :
    (c, false) ∉ bare s := by
  intro member
  obtain ⟨d, among, same⟩ := List.mem_map.mp member
  obtain rfl := (Prod.mk.inj same).1
  exact plain d among acts

theorem Plain.reads {s : String} (plain : Plain s) : Reads s (bare s) :=
  reads_bare fun member => plain _ member (by decide)

end Reader

open Reader (Mark Plain Reads bare)

/-! ## Arguments -/

namespace Arg

/-- Whether the value is written between quotes. -/
def isEnclosed (a : Arg) : Bool := a.quoted ∨ ',' ∈ a.value.toList

/-- The key with its equals sign. -/
def keyMarks (a : Arg) : List Mark :=
  match a.key with
  | some k => bare k ++ [('=', false)]
  | none => []

def marks (a : Arg) : List Mark := a.keyMarks ++ a.value.toList.map (·, a.isEnclosed)

/-- An argument that can be read back. -/
structure Legible (a : Arg) : Prop where
  key : ∀ k, a.key = some k → Plain k
  noQuote : '\x27' ∉ a.value.toList
  value : a.isEnclosed = false → Plain a.value

variable {a : Arg}

theorem Legible.reads (legible : a.Legible) : Reads a.text a.marks := by
  have key : Reads (match a.key with | some k => k ++ "=" | none => "") a.keyMarks := by
    unfold keyMarks
    split
    · rename_i k some
      exact (legible.key k some).reads.append (Reader.reads_bare (by simp))
    · rfl
  refine key.append ?_
  cases enclosed : a.isEnclosed with
  | true =>
      rw [if_pos (by simpa [isEnclosed] using enclosed)]
      exact Reader.reads_enclosed legible.noQuote
  | false =>
      rw [if_neg (by simpa [isEnclosed] using enclosed)]
      exact Reader.reads_bare legible.noQuote

theorem Legible.not_mem_value (legible : a.Legible) {c : Char} (acts : c ∈ Reader.syntaxMarks) :
    (c, false) ∉ a.value.toList.map (·, a.isEnclosed) := by
  intro member
  obtain ⟨d, among, same⟩ := List.mem_map.mp member
  obtain ⟨rfl, outside⟩ := Prod.mk.inj same
  exact legible.value outside d among acts

/-- Outside of quotes an argument holds nothing that a larger part is taken apart by. -/
theorem Legible.not_mem (legible : a.Legible) {c : Char} (acts : c ∈ Reader.syntaxMarks)
    (other : c ≠ '=') : (c, false) ∉ a.marks := by
  have key : (c, false) ∉ a.keyMarks := by
    unfold keyMarks
    split
    · rename_i k some
      simp [(legible.key k some).not_mem_bare acts, other]
    · simp
  rw [marks, List.mem_append, not_or]
  exact ⟨key, legible.not_mem_value acts⟩

theorem Legible.read (legible : a.Legible) : Reader.arg a.marks = a.reading := by
  have value := legible.not_mem_value (c := '=') (by decide)
  unfold Reader.arg marks keyMarks reading
  cases form : a.key with
  | none => simp [Reader.halves_of_not_mem value, Reader.text_map]
  | some k =>
      have key := (legible.key k form).not_mem_bare (c := '=') (by decide)
      simp [Reader.halves_append _ key, Reader.text_bare, Reader.text_map]

end Arg

/-! ## Filters -/

namespace Filter

def marks (f : Filter) : List Mark :=
  match f.args with
  | [] => bare f.name
  | args => bare f.name ++ ('=', false) :: [(':', false)].intercalate (args.map Arg.marks)

/-- A filter that can be read back. -/
structure Legible (f : Filter) : Prop where
  named : f.name ≠ ""
  name : Plain f.name
  args : ∀ a ∈ f.args, a.Legible

variable {f : Filter}

theorem Legible.reads (legible : f.Legible) : Reads f.text f.marks := by
  have args : Reads (":".intercalate (f.args.map Arg.text))
      ([(':', false)].intercalate (f.args.map Arg.marks)) :=
    Reads.intercalate (by simp) (by decide) fun a member => (legible.args a member).reads
  have equals : Reads "=" [('=', false)] := Reader.reads_bare (by simp)
  have whole := (legible.name.reads.append equals).append args
  rw [List.append_assoc] at whole
  unfold text marks
  cases form : f.args with
  | nil => exact legible.name.reads
  | cons a rest => rwa [form] at whole

theorem Legible.not_mem (legible : f.Legible) {c : Char} (acts : c ∈ [';', ',', '[', ']']) :
    (c, false) ∉ f.marks := by
  have special : c ∈ Reader.syntaxMarks ∧ c ≠ '=' ∧ c ≠ ':' := by
    simp only [List.mem_cons, List.not_mem_nil, or_false] at acts
    rcases acts with rfl | rfl | rfl | rfl <;> decide
  obtain ⟨special, notEquals, notColon⟩ := special
  have name := legible.name.not_mem_bare special
  have args : (c, false) ∉ [(':', false)].intercalate (f.args.map Arg.marks) := by
    intro member
    rcases Reader.mem_intercalate member with same | ⟨p, among, member⟩
    · exact notColon (Prod.mk.inj same).1
    · obtain ⟨a, isArg, rfl⟩ := List.mem_map.mp among
      exact (legible.args a isArg).not_mem special notEquals member
  unfold marks
  split
  · exact name
  · simpa [name, notEquals] using args

theorem Legible.ne_nil (legible : f.Legible) :
    ∃ c ms, f.marks = (c, false) :: ms ∧ c ∉ Reader.syntaxMarks := by
  cases form : f.name.toList with
  | nil => exact absurd (String.toList_eq_nil_iff.mp form) legible.named
  | cons c cs =>
      have plain := legible.name c (by simp [form])
      unfold marks bare
      rw [form]
      split
      · exact ⟨c, _, rfl, plain⟩
      · exact ⟨c, _, rfl, plain⟩

theorem Legible.read (legible : f.Legible) : Reader.filter f.marks = f.reading := by
  have name := legible.name.not_mem_bare (c := '=') (by decide)
  unfold Reader.filter marks reading
  cases form : f.args with
  | nil => simp [Reader.halves_of_not_mem name, Reader.text_bare]
  | cons a args =>
      have found : Reader.pieces ':' ([(':', false)].intercalate ((a :: args).map Arg.marks))
          = (a :: args).map Arg.marks := by
        refine Reader.pieces_intercalate (by simp) fun p member => ?_
        obtain ⟨b, among, rfl⟩ := List.mem_map.mp member
        exact (legible.args b (form ▸ among)).not_mem (by decide) (by decide)
      have each : (a :: args).map (Reader.arg ∘ Arg.marks) = (a :: args).map Arg.reading :=
        List.map_congr_left fun b among => (legible.args b (form ▸ among)).read
      simp only [Reader.halves_append _ name, found, List.map_map, each, Reader.text_bare]

end Filter

/-! ## Chains -/

namespace Chain

def marks (c : Chain) : List Mark := [(',', false)].intercalate (c.map Filter.marks)

/-- A chain that can be read back. -/
def Legible (c : Chain) : Prop := ∀ f ∈ c, f.Legible

variable {c : Chain}

theorem Legible.reads (legible : c.Legible) : Reads c.text c.marks :=
  Reads.intercalate (by simp) (by decide) fun f member => (legible f member).reads

theorem Legible.not_mem (legible : c.Legible) {d : Char} (acts : d ∈ [';', '[', ']']) :
    (d, false) ∉ c.marks := by
  have special : d ∈ [';', ',', '[', ']'] ∧ d ≠ ',' := by
    simp only [List.mem_cons, List.not_mem_nil, or_false] at acts
    rcases acts with rfl | rfl | rfl <;> decide
  intro member
  rcases Reader.mem_intercalate member with same | ⟨p, among, member⟩
  · exact special.2 (Prod.mk.inj same).1
  · obtain ⟨f, isFilter, rfl⟩ := List.mem_map.mp among
    exact (legible f isFilter).not_mem special.1 member

/-- A chain starts with the name of its first filter. -/
theorem Legible.ne_nil (legible : c.Legible) (some : c ≠ []) :
    ∃ d ms, c.marks = (d, false) :: ms ∧ d ∉ Reader.syntaxMarks := by
  cases c with
  | nil => exact absurd rfl some
  | cons f rest =>
      obtain ⟨d, ms, form, plain⟩ := (legible f (by simp)).ne_nil
      cases rest with
      | nil => exact ⟨d, ms, by simp [marks, form], plain⟩
      | cons g rest =>
          refine ⟨d, ms ++ [(',', false)] ++ marks (g :: rest), ?_, plain⟩
          rw [marks, List.map_cons, List.map_cons, List.intercalate_cons_cons, form]
          rfl

theorem Legible.read (legible : c.Legible) (some : c ≠ []) :
    Reader.chain c.marks = c.map Filter.reading := by
  have nonempty : c.marks ≠ [] := by
    obtain ⟨d, ms, form, -⟩ := legible.ne_nil some
    simp [form]
  have found : Reader.pieces ',' c.marks = c.map Filter.marks := by
    refine Reader.pieces_intercalate (by simpa using some) fun p member => ?_
    obtain ⟨f, among, rfl⟩ := List.mem_map.mp member
    exact (legible f among).not_mem (by decide)
  rw [Reader.chain, if_neg nonempty, found, List.map_map]
  exact List.map_congr_left fun f among => (legible f among).read

end Chain

/-! ## Nodes -/

namespace Reader

/-- A label that can be read back. -/
def LegibleLabel (l : String) : Prop := ∀ c ∈ l.toList, c ∉ ['\x27', ';', ']']

/-- A label in its brackets. -/
def labelMarks (l : String) : List Mark := ('[', false) :: (bare l ++ [(']', false)])

theorem LegibleLabel.reads {l : String} (legible : LegibleLabel l) :
    Reads (bracketed l) (labelMarks l) := by
  have opening : Reads "[" [('[', false)] := reads_bare (by simp)
  have closing : Reads "]" [(']', false)] := reads_bare (by simp)
  have label : Reads l (bare l) := reads_bare fun member => legible _ member (by simp)
  exact (opening.append label).append closing

theorem LegibleLabel.not_mem {l : String} (legible : LegibleLabel l) {c : Char}
    (acts : c ∈ [';', ']']) : (c, false) ∉ bare l := by
  intro member
  obtain ⟨d, among, same⟩ := List.mem_map.mp member
  obtain rfl := (Prod.mk.inj same).1
  exact legible d among (by simpa using .inr (by simpa using acts))

theorem reads_labels {ls : List String} (legible : ∀ l ∈ ls, LegibleLabel l) :
    Reads (String.join (ls.map bracketed)) (ls.flatMap labelMarks) :=
  Reads.join fun l member => (legible l member).reads

/-- Labels are read one behind the other, up to something that is none. -/
theorem labels_flatMap {ls : List String} {rest : List Mark} {fuel : Nat}
    (legible : ∀ l ∈ ls, LegibleLabel l) (stop : rest.head? ≠ some ('[', false))
    (enough : ls.length ≤ fuel) : labels fuel (ls.flatMap labelMarks ++ rest) = (ls, rest) := by
  induction ls generalizing fuel with
  | nil =>
      cases fuel with
      | zero => rfl
      | succ fuel =>
          cases rest with
          | nil => rfl
          | cons m rest =>
              have other : isMark '[' m = false := by
                simpa [isMark_eq] using stop
              simp [labels, other]
  | cons l ls ih =>
      cases fuel with
      | zero => simp at enough
      | succ fuel =>
          have here := (legible l (by simp)).not_mem (c := ']') (by simp)
          have later := ih (fun l member => legible l (by simp [member])) (by simpa using enough)
          have opening : isMark '[' ('[', false) = true := by simp [isMark_eq]
          simp [labels, labelMarks, opening, halves_append _ here, later, text_bare]

end Reader

open Reader (LegibleLabel labelMarks)

namespace Node

def marks (n : Node) : List Mark :=
  n.inputs.flatMap labelMarks ++ n.chain.marks ++ n.outputs.flatMap labelMarks

/-- A node that can be read back. -/
structure Legible (n : Node) : Prop where
  inputs : ∀ l ∈ n.inputs, LegibleLabel l
  some : n.chain ≠ []
  chain : n.chain.Legible
  outputs : ∀ l ∈ n.outputs, LegibleLabel l

variable {n : Node}

theorem Legible.reads (legible : n.Legible) : Reads n.text n.marks :=
  ((Reader.reads_labels legible.inputs).append legible.chain.reads).append
    (Reader.reads_labels legible.outputs)

theorem not_mem_labels {ls : List String} (legible : ∀ l ∈ ls, LegibleLabel l) :
    (';', false) ∉ ls.flatMap labelMarks := by
  intro member
  obtain ⟨l, among, member⟩ := List.mem_flatMap.mp member
  simp [labelMarks, (legible l among).not_mem (c := ';') (by simp)] at member

theorem Legible.not_mem (legible : n.Legible) : (';', false) ∉ n.marks := by
  simp [marks, not_mem_labels legible.inputs, not_mem_labels legible.outputs,
    legible.chain.not_mem (d := ';') (by simp)]

theorem length_le_marks (ls : List String) : ls.length ≤ (ls.flatMap labelMarks).length := by
  induction ls with
  | nil => simp
  | cons l ls ih =>
      simp only [List.flatMap_cons, List.length_append, List.length_cons, labelMarks]
      omega

theorem Legible.read (legible : n.Legible) : Reader.node n.marks = n.reading := by
  obtain ⟨d, ms, form, plain⟩ := legible.chain.ne_nil legible.some
  have first : d ≠ '[' := by
    rintro rfl
    exact plain (by decide)
  have inputs : Reader.labels n.marks.length n.marks
      = (n.inputs, n.chain.marks ++ n.outputs.flatMap labelMarks) := by
    have few := length_le_marks n.inputs
    rw [marks, List.append_assoc]
    refine Reader.labels_flatMap legible.inputs (by simp [form, first]) ?_
    rw [List.length_append]
    omega
  have body : ∀ m ∈ n.chain.marks, (!Reader.isMark '[' m) = true := by
    intro m member
    have other : m ≠ ('[', false) := fun same =>
      legible.chain.not_mem (d := '[') (by simp) (same ▸ member)
    simpa [Reader.isMark_eq] using other
  have ends : (n.outputs.flatMap labelMarks).takeWhile (fun m => !Reader.isMark '[' m) = []
      ∧ (n.outputs.flatMap labelMarks).dropWhile (fun m => !Reader.isMark '[' m)
        = n.outputs.flatMap labelMarks := by
    cases n.outputs with
    | nil => simp
    | cons l ls => simp [labelMarks, Reader.isMark_eq]
  have outputs : Reader.labels (n.chain.marks ++ n.outputs.flatMap labelMarks).length
      (n.outputs.flatMap labelMarks) = (n.outputs, []) := by
    have few := length_le_marks n.outputs
    have enough : n.outputs.length
        ≤ (n.chain.marks ++ n.outputs.flatMap labelMarks).length := by
      rw [List.length_append]
      omega
    have stop : ([] : List Mark).head? ≠ Option.some ('[', false) := by simp
    have read := Reader.labels_flatMap legible.outputs stop enough
    rwa [List.append_nil] at read
  simp only [Reader.node, inputs, List.takeWhile_append_of_pos body,
    List.dropWhile_append_of_pos body, ends, List.append_nil, outputs,
    legible.chain.read legible.some, reading]

end Node

/-! ## Graphs -/

/-- **A graph whose nodes can be read back is read back from its text.** -/
theorem readGraph_text {g : Graph} (legible : ∀ n ∈ g.nodes, n.Legible) :
    readGraph g.text = some (g.nodes.map Node.reading) := by
  have read : Reads g.text ([(';', false)].intercalate (g.nodes.map Node.marks)) :=
    Reads.intercalate (by simp) (by decide) fun n member => (legible n member).reads
  rw [readGraph, read, Option.map_some]
  cases form : g.nodes with
  | nil => simp
  | cons n rest =>
      rw [form] at legible
      have nonempty : [(';', false)].intercalate ((n :: rest).map Node.marks) ≠ [] := by
        obtain ⟨d, ms, start, -⟩ := (legible n (by simp)).chain.ne_nil (legible n (by simp)).some
        cases rest <;> simp [Node.marks, start, List.intercalate_cons_cons]
      have found : Reader.pieces ';' ([(';', false)].intercalate ((n :: rest).map Node.marks))
          = (n :: rest).map Node.marks := by
        refine Reader.pieces_intercalate (by simp) fun p member => ?_
        obtain ⟨m, among, rfl⟩ := List.mem_map.mp member
        exact (legible m among).not_mem
      rw [if_neg nonempty, found, List.map_map]
      exact congrArg some (List.map_congr_left fun m among => (legible m among).read)

/-- A chain alone is read as a node without labels. -/
theorem readGraph_chain {c : Chain} (some : c ≠ []) (legible : c.Legible) :
    readGraph c.text = Option.some [⟨[], c.map Filter.reading, []⟩] := by
  have node : (⟨[], c, []⟩ : Node).Legible := ⟨by simp, some, legible, by simp⟩
  have text : (⟨[⟨[], c, []⟩], "", none⟩ : Graph).text = c.text := by
    simp [Graph.text, Node.text]
  rw [← text, readGraph_text (by simpa using node)]
  rfl

end Montage
