/-
# Montage.Proofs.Timeline.Reading -- the text of a timeline says what its graph is

Pieces are made of steps, and so is everything that joins them; the labels are those of
pads.  Hence the text of every graph that a timeline compiles to is read back as that
graph, node by node and argument by argument, and so is the filter of a single scene.
No text of a job gets into either of them, so it does not matter what these hold.
-/
import Montage.Proofs.Filter.Spelling
import Montage.Proofs.Timeline.Compile

namespace Montage

set_option autoImplicit false

variable {τ : Type} [Seconds τ]

theorem Node.ofPads_legible {chain : Chain} (inputs : List Pad) (output : Pad)
    (some : chain ≠ []) (legible : chain.Legible) : (ofPads inputs chain output).Legible where
  inputs l member := by
    obtain ⟨p, -, rfl⟩ := List.mem_map.mp member
    exact p.label_legible
  some := some
  chain := legible
  outputs l member := by
    obtain rfl := List.mem_singleton.mp member
    exact output.label_legible

theorem Node.ofPads_steps_legible (inputs : List Pad) (output : Pad) (s : Step)
    (steps : List Step) : (ofPads inputs (.ofSteps (s :: steps)) output).Legible :=
  ofPads_legible inputs output (by simp [Chain.ofSteps]) (Chain.ofSteps_legible _)

namespace Piece

theorem joinNodes_legible (current : Pad) (joins : List (Boundary τ × Piece τ)) :
    ∀ n ∈ joinNodes current joins, n.Legible := by
  induction joins generalizing current with
  | nil =>
      intro n member
      obtain rfl := List.mem_singleton.mp member
      exact Node.ofPads_steps_legible ..
  | cons x rest ih =>
      intro n member
      rcases List.mem_cons.mp member with rfl | member
      · exact Node.ofPads_steps_legible ..
      · exact ih _ n member

/-- Pieces whose chains can be read back are joined by nodes that can. -/
theorem videoNodes_legible {pieces : List (Piece τ)}
    (each : ∀ p ∈ pieces, p.chain ≠ [] ∧ p.chain.Legible) :
    ∀ n ∈ videoNodes pieces, n.Legible := by
  have sources : ∀ n ∈ pieces.map node, n.Legible := by
    intro n member
    obtain ⟨p, among, rfl⟩ := List.mem_map.mp member
    exact Node.ofPads_legible _ _ (each p among).1 (each p among).2
  match pieces with
  | [] => simp [videoNodes]
  | [only] =>
      intro n member
      obtain rfl := List.mem_singleton.mp member
      have whole : (only.chain ++ .ofSteps [.evenOut]).Legible := by
        intro f among
        rcases List.mem_append.mp among with own | last
        · exact (each only (by simp)).2 f own
        · exact Chain.ofSteps_legible _ f last
      exact Node.ofPads_legible _ _ (by simp [Chain.ofSteps]) whole
  | first :: second :: rest =>
      intro n member
      simp only [videoNodes] at member
      split at member
      · rcases List.mem_append.mp member with source | join
        · exact sources n source
        · exact joinNodes_legible _ _ n join
      · rcases List.mem_append.mp member with source | join
        · exact sources n source
        · obtain rfl := List.mem_singleton.mp join
          exact Node.ofPads_steps_legible ..

theorem assemble_legible {pieces : List (Piece τ)} {audio : Option Nat} {total : τ} {g : Graph}
    (assembled : assemble pieces audio total = .ok g)
    (each : ∀ p ∈ pieces, p.chain ≠ [] ∧ p.chain.Legible) : ∀ n ∈ g.nodes, n.Legible := by
  unfold assemble at assembled
  split at assembled
  · cases assembled
  · cases assembled
    intro n member
    rcases List.mem_append.mp member with video | sound
    · exact videoNodes_legible each n video
    · cases audio with
      | none => simp at sound
      | some k =>
          obtain rfl : n = audioNode k total := by simpa using sound
          exact Node.ofPads_steps_legible ..

end Piece

namespace Timeline

theorem piece_chain_legible {t : Timeline τ} {index : Nat} {p : Piece τ}
    (made : t.piece index = .ok p) : p.chain ≠ [] ∧ p.chain.Legible := by
  obtain ⟨s, scene, makes⟩ := exists_makes made
  rw [makes.chain]
  exact ⟨by simp [pieceSteps, Chain.ofSteps], Chain.ofSteps_legible _⟩

/-- The graph of a timeline is read back from its text. -/
theorem readGraph_compile {t : Timeline τ} {withAudio : Bool} {c : Compiled τ}
    (compiled : t.compile withAudio = .ok c) :
    readGraph c.graph.text = some (c.graph.nodes.map Node.reading) := by
  obtain ⟨pieces, made, assembled⟩ := compile_assembles compiled
  refine readGraph_text (Piece.assemble_legible assembled fun p member => ?_)
  obtain ⟨index, made⟩ := exists_piece_of_mem made member
  exact piece_chain_legible made

end Timeline

/-- The filter of a scene, where it has one, is that of its effect within its bounds, and it
is read back from its text. -/
theorem Motion.readGraph_sceneFilter {clip : Clip τ} {settings : Settings} {text : String}
    (moves : (sceneFilter clip settings).value = some text) :
    ∃ checked, settings.check.value = some checked
      ∧ text = (build clip checked).value.safeChain.text
      ∧ readGraph text
        = some [⟨[], (build clip checked).value.safeChain.map Filter.reading, []⟩] := by
  unfold sceneFilter at moves
  rw [Outcome.value_bind] at moves
  split at moves
  · cases moves
  · cases moves
  · rename_i checked _ found
    obtain rfl := Option.some.inj moves
    refine ⟨checked, found, rfl, readGraph_chain ?_ (Chain.ofSteps_legible _)⟩
    simp [Fragment.safeChain, Chain.ofSteps]

/-- **Texts of graphs are unambiguous**: the text of every timeline that compiles, and that of
every filter for a single scene, is read back as the nodes, labels, filters and arguments
that it was written from. -/
theorem texts_read_back :
    (∀ (t : Timeline τ) (withAudio : Bool) (c : Compiled τ), t.compile withAudio = .ok c →
      readGraph c.graph.text = some (c.graph.nodes.map Node.reading))
    ∧ ∀ (clip : Clip τ) (settings : Settings) (text : String),
      (Motion.sceneFilter clip settings).value = some text →
      ∃ checked, settings.check.value = some checked
        ∧ text = (Motion.build clip checked).value.safeChain.text
        ∧ readGraph text
          = some [⟨[], (Motion.build clip checked).value.safeChain.map Filter.reading, []⟩] :=
  ⟨fun _ _ _ => Timeline.readGraph_compile, fun _ _ _ => Motion.readGraph_sceneFilter⟩

/-- A timeline whose texts are full of separators, with a wave and a slide. -/
def Timeline.separators : Timeline Float where
  segments := [⟨some (.cinemagraph ⟨5.0, "'];[x],y:z=", .wave, some 2.0⟩), 3.0, none, none⟩,
    ⟨some (.parallax ⟨1.0, 0.5, .rightToLeft⟩), 4.0, some "it's=[1:v];", some ⟨.dissolve, 1.0⟩⟩]
  image := some "a;b[c],'d'.png"

/-- A slide, whose formula holds a comma. -/
def Settings.sliding : Settings where
  label := "Parallax"
  speed := some 0.25
  focus := some "';[,"

theorem separators_read_back :
    (∃ c, Timeline.separators.compile true = .ok c
      ∧ readGraph c.graph.text = some (c.graph.nodes.map Node.reading))
    ∧ ∃ text checked, (Motion.sceneFilter (.standard : Clip Float) .sliding).value = some text
      ∧ Settings.sliding.check.value = some checked
      ∧ readGraph text = some
        [⟨[], (Motion.build (.standard : Clip Float) checked).value.safeChain.map
          Filter.reading, []⟩] := by
  obtain ⟨c, compiled⟩ := Timeline.separators.exists_compile true (by simp [Timeline.separators]) rfl
  have moves : (Motion.sceneFilter (.standard : Clip Float) .sliding).value.isSome = true := by
    decide +kernel
  obtain ⟨text, moves⟩ := Option.isSome_iff_exists.mp moves
  obtain ⟨checked, found, -, read⟩ := texts_read_back.2 _ _ text moves
  exact ⟨⟨c, compiled, texts_read_back.1 _ _ c compiled⟩, text, checked, moves, found, read⟩

end Montage
