/-
# Montage.Proofs.Command.Feed -- a command feeds the graph that it carries

A command numbers its inputs in the order in which it names them, and the graph of a
timeline reads them by number.  The numbers come from three places: the positions of
segments, how many pieces there are, and the order in which a command lists images and
narration.  They agree.  `Command.Feeds` says so of a command and a graph alone: every
input is read once and as what it is, nothing else is read, and what the graph leaves over
is what is mapped.

Narration changes nothing else.  The graph with it is the graph without it and one more
node, which cuts the sound to the length that the whole output is given.
-/
import Montage.Proofs.Command.Options
import Montage.Proofs.Timeline.Piece

namespace Montage

set_option autoImplicit false

/-! ## What a command is fed -/

/-- A command whose inputs are what its graph reads, and that maps what the graph leaves
over. -/
structure Command.Feeds (c : Command) (g : Graph) : Prop where
  filter : c.filter = some (.graph g)
  named : c.values "-i" = c.inputs.map Source.path
  picture_once : ∀ (k : Nat) (path : String), c.inputs[k]? = some (.image path) →
    g.consumed.count (toString k ++ ":v") = 1
  sound_once : ∀ (k : Nat) (path : String), c.inputs[k]? = some (.audio path) →
    g.consumed.count (toString k ++ ":a") = 1
  picture_only : ∀ k : Nat, toString k ++ ":v" ∈ g.consumed →
    ∃ path, c.inputs[k]? = some (.image path)
  sound_only : ∀ k : Nat, toString k ++ ":a" ∈ g.consumed →
    ∃ path, c.inputs[k]? = some (.audio path)
  /-- What no node puts out is the picture or the sound of an input. -/
  raw : ∀ l ∈ g.consumed, l ∉ g.produced →
    ∃ k < c.inputs.length, l = toString k ++ ":v" ∨ l = toString k ++ ":a"
  mapped : c.values "-map" = (g.produced.filter (· ∉ g.consumed)).map bracketed

/-- The lengths that a graph cuts sounds to. -/
def Graph.soundLengths (g : Graph) : List (Option String) :=
  ((g.nodes.flatMap Node.chain).filter (fun f => f.name = "atrim")).map (Filter.get? · "duration")

variable {τ : Type} [Seconds τ]

/-! ## The streams that a graph reads -/

namespace Piece

/-- Of the streams between the raw and the finished ones none is raw. -/
theorem count_consumed_raw (pieces : List (Piece τ)) (audio : Option Nat) (total : τ) {p : Pad}
    (outside : ∀ k, p ≠ .segment k ∧ p ≠ .joined k) :
    (graph pieces audio total).consumed.count p.label = (rawPads pieces audio).count p := by
  have absent : p ∉ middlePads pieces := by
    intro member
    rcases mem_middlePads member with ⟨k, same⟩ | ⟨k, same⟩
    · exact (outside k).1 same
    · exact (outside k).2 same
  rw [graph_consumed, Graph.count_map_label, (graph_balance pieces audio).count_eq,
    List.count_append, List.count_eq_zero_of_not_mem absent, Nat.add_zero]

theorem mem_consumed_raw {pieces : List (Piece τ)} {audio : Option Nat} {total : τ} {p : Pad}
    (outside : ∀ k, p ≠ .segment k ∧ p ≠ .joined k) :
    p.label ∈ (graph pieces audio total).consumed ↔ p ∈ rawPads pieces audio := by
  rw [← List.count_pos_iff, ← List.count_pos_iff, count_consumed_raw _ _ _ outside]

/-- What is read and not put out is raw. -/
theorem exists_rawPad {pieces : List (Piece τ)} {audio : Option Nat} {total : τ} {l : String}
    (nonempty : pieces ≠ []) (member : l ∈ (graph pieces audio total).consumed)
    (unmade : l ∉ (graph pieces audio total).produced) : ∃ p ∈ rawPads pieces audio, l = p.label := by
  rw [graph_consumed] at member
  obtain ⟨p, taken, rfl⟩ := List.mem_map.mp member
  rcases List.mem_append.mp ((graph_balance pieces audio).mem_iff.mp taken) with raw | middle
  · exact ⟨p, raw, rfl⟩
  · rw [graph_produced _ _ _ nonempty, Graph.mem_map_label] at unmade
    exact absurd (List.mem_append_left _ middle) unmade

end Piece

/-! ## Sounds are cut by the last node alone -/

/-- Whether a step works on sound. -/
def Step.isSound : Step → Bool
  | trimSound _ | restartSound => true
  | _ => false

theorem Step.name_filter_ne {s : Step} (silent : s.isSound = false) : s.filter.name ≠ "atrim" := by
  cases s with
  | crop size window => simp [Step.name_crop]
  | trimSound length => cases silent
  | _ => simp [Step.filter]

/-- No step of a piece works on sound. -/
theorem pieceSteps_silent {clip : Clip τ} {f : Fragment}
    (shape : Motion.Shape clip.canvas clip.rate f) : ∀ s ∈ pieceSteps clip f, s.isSound = false := by
  intro s member
  cases shape with
  | zoom z x y span =>
      simp only [pieceSteps, holdFor, List.cons_append, List.nil_append, List.mem_cons,
        List.not_mem_nil, or_false] at member
      rcases member with rfl | rfl | rfl | rfl <;> rfl
  | window enlarge window span larger =>
      rw [pieceSteps_window] at member
      simp only [List.mem_append, List.mem_cons, List.not_mem_nil, or_false] at member
      rcases member with (first | inside) | last
      · rcases first with rfl | rfl <;> rfl
      · cases larger s inside <;> rfl
      · rcases last with rfl | rfl | rfl | rfl | rfl <;> rfl
  | still span =>
      simp only [pieceSteps, List.cons_append, List.nil_append, List.mem_cons, List.not_mem_nil,
        or_false] at member
      rcases member with rfl | rfl | rfl | rfl | rfl | rfl | rfl <;> rfl

namespace Piece

theorem joinNodes_filters {P : Filter → Prop} (steps : ∀ s : Step, s.isSound = false → P s.filter)
    (current : Pad) (joins : List (Boundary τ × Piece τ)) :
    ∀ n ∈ joinNodes current joins, ∀ f ∈ n.chain, P f := by
  induction joins generalizing current with
  | nil =>
      intro n member f filter
      obtain rfl := List.mem_singleton.mp member
      obtain rfl := List.mem_singleton.mp filter
      exact steps .evenOut rfl
  | cons x rest ih =>
      intro n member f filter
      rcases List.mem_cons.mp member with rfl | member
      · obtain rfl := List.mem_singleton.mp filter
        refine steps x.1.step ?_
        cases x.1 <;> rfl
      · exact ih _ n member f filter

/-- The filters of pictures are those of the pieces, and what joins them. -/
theorem videoNodes_filters {P : Filter → Prop} {pieces : List (Piece τ)}
    (own : ∀ p ∈ pieces, ∀ f ∈ p.chain, P f)
    (steps : ∀ s : Step, s.isSound = false → P s.filter) :
    ∀ n ∈ videoNodes pieces, ∀ f ∈ n.chain, P f := by
  have sources : ∀ n ∈ pieces.map node, ∀ f ∈ n.chain, P f := by
    intro n member f filter
    obtain ⟨p, among, rfl⟩ := List.mem_map.mp member
    exact own p among f filter
  intro n member f filter
  match pieces with
  | [] => cases member
  | [only] =>
      obtain rfl := List.mem_singleton.mp member
      rcases List.mem_append.mp filter with inside | last
      · exact own only List.mem_cons_self f inside
      · obtain rfl := List.mem_singleton.mp last
        exact steps .evenOut rfl
  | first :: second :: rest =>
      simp only [videoNodes] at member
      split at member
      · rcases List.mem_append.mp member with source | join
        · exact sources n source f filter
        · exact joinNodes_filters steps _ _ n join f filter
      · rcases List.mem_append.mp member with source | join
        · exact sources n source f filter
        · obtain rfl := List.mem_singleton.mp join
          rcases List.mem_cons.mp filter with rfl | last
          · exact steps (.join _) rfl
          · obtain rfl := List.mem_singleton.mp last
            exact steps .evenOut rfl

/-- The only sound that is cut is the narration, and it is cut to the length of the whole. -/
theorem graph_soundLengths {pieces : List (Piece τ)} (audio : Option Nat) (total : τ)
    (silent : ∀ p ∈ pieces, ∀ f ∈ p.chain, f.name ≠ "atrim") :
    (graph pieces audio total).soundLengths
      = (audio.map fun _ => some (Seconds.numeral total).text).toList := by
  have video : ((videoNodes pieces).flatMap Node.chain).filter (fun f => f.name = "atrim") = [] := by
    rw [List.filter_eq_nil_iff]
    intro f member
    obtain ⟨n, node, filter⟩ := List.mem_flatMap.mp member
    simpa using videoNodes_filters silent (fun s => Step.name_filter_ne) n node f filter
  rw [Graph.soundLengths, graph, List.flatMap_append, List.filter_append, video]
  cases audio with
  | none => rfl
  | some k => simp [audioNode, Node.ofPads, Chain.ofSteps, Step.filter, Filter.arg, Filter.pos, Filter.get?]

end Piece

/-! ## The inputs of a timeline -/

namespace Timeline

theorem pieces_getElem? {t : Timeline τ} {pieces : List (Piece τ)} (made : t.pieces = .ok pieces)
    {k : Nat} {p : Piece τ} (found : pieces[k]? = some p) : t.piece k = .ok p := by
  obtain ⟨length, each⟩ := List.forall₂_iff_get.mp ((mapM_eq_ok_iff _ _ _).mp made)
  obtain ⟨inside, rfl⟩ := List.getElem?_eq_some_iff.mp found
  have here := each k (length ▸ inside) inside
  simpa using here

theorem pieces_index {t : Timeline τ} {pieces : List (Piece τ)} (made : t.pieces = .ok pieces) :
    pieces.map Piece.index = List.range pieces.length := by
  refine List.ext_getElem (by simp) fun k inside _ => ?_
  have inside : k < pieces.length := by simpa using inside
  obtain ⟨s, scene, makes⟩ :=
    exists_makes (pieces_getElem? made (List.getElem?_eq_getElem inside))
  simpa using makes.position

theorem pieces_image {t : Timeline τ} {pieces : List (Piece τ)} {scene : String}
    (made : t.pieces = .ok pieces) (shows : t.image = some scene) :
    pieces.map Piece.image
      = t.segments.mapIdx fun k s => if k = 0 then scene else s.image.getD scene := by
  have length := ((mapM_eq_ok_iff _ _ _).mp made).length_eq
  rw [List.length_range] at length
  refine List.ext_getElem (by simp [length]) fun k inside _ => ?_
  have inside : k < pieces.length := by simpa using inside
  obtain ⟨s, other, makes⟩ :=
    exists_makes (pieces_getElem? made (List.getElem?_eq_getElem inside))
  obtain rfl : scene = other := Option.some.inj (shows.symm.trans makes.shows)
  obtain ⟨_, rfl⟩ := List.getElem?_eq_some_iff.mp makes.segment
  simpa using makes.image

theorem piece_chain_silent {t : Timeline τ} {k : Nat} {p : Piece τ} (made : t.piece k = .ok p) :
    ∀ f ∈ p.chain, f.name ≠ "atrim" := by
  obtain ⟨s, scene, makes⟩ := exists_makes made
  intro f member
  rw [makes.chain] at member
  obtain ⟨step, among, rfl⟩ := List.mem_map.mp member
  exact Step.name_filter_ne (pieceSteps_silent (t.fragment_shape s) step among)

/-- With narration a timeline compiles to the same as without, but for one node more. -/
theorem compiledOf_audio (t : Timeline τ) (pieces : List (Piece τ)) :
    t.compiledOf true pieces = { t.compiledOf false pieces with
      graph := { (t.compiledOf false pieces).graph with
        nodes := (t.compiledOf false pieces).graph.nodes
          ++ [Piece.audioNode pieces.length (t.compiledOf false pieces).total]
        audioOut := some "aout" }
      audioInput := some pieces.length } := by
  simp [compiledOf, Piece.graph, Pad.label]

end Timeline

/-! ## The command of a timeline -/

/-- The inputs of a command for images and narration. -/
def Source.ofMedia (images : List String) (audio : Option String) : List Source :=
  images.map .image ++ (audio.map .audio).toList

namespace Source

variable {images : List String} {audio : Option String} {k : Nat} {path : String}

theorem ofMedia_length : (ofMedia images audio).length = images.length + audio.toList.length := by
  cases audio <;> simp [ofMedia]

theorem ofMedia_image_iff : (ofMedia images audio)[k]? = some (.image path) ↔ images[k]? = some path := by
  by_cases inside : k < images.length
  · rw [ofMedia, List.getElem?_append_left (by simpa using inside), List.getElem?_map,
      List.getElem?_eq_getElem inside]
    simp
  · have none : images[k]? = none := List.getElem?_eq_none (by omega)
    rw [ofMedia, List.getElem?_append_right (by simpa using inside), none]
    cases audio with
    | none => simp
    | some a =>
        cases at_ : k - (images.map Source.image).length <;> simp

theorem ofMedia_audio_iff :
    (ofMedia images audio)[k]? = some (.audio path) ↔ k = images.length ∧ audio = some path := by
  by_cases inside : k < images.length
  · rw [ofMedia, List.getElem?_append_left (by simpa using inside), List.getElem?_map,
      List.getElem?_eq_getElem inside]
    simp
    omega
  · rw [ofMedia, List.getElem?_append_right (by simpa using inside), List.length_map]
    cases audio with
    | none => simp
    | some a =>
        cases past : k - images.length with
        | zero => simp; omega
        | succ d => simp; omega

end Source

omit [Seconds τ] in
/-- The raw streams of pieces that are numbered as they stand. -/
theorem Piece.mem_rawPads {pieces : List (Piece τ)} (audio : Option String) {p : Pad}
    (indices : pieces.map Piece.index = List.range pieces.length) :
    p ∈ rawPads pieces (audio.map fun _ => pieces.length)
      ↔ (∃ k < pieces.length, p = .picture k) ∨ audio.isSome ∧ p = .sound pieces.length := by
  have pictures : pieces.map (fun p => Pad.picture p.index)
      = (List.range pieces.length).map Pad.picture := by
    rw [← indices, List.map_map]
    rfl
  rw [rawPads, pictures]
  cases audio <;> simp [eq_comm]

/-- **A command feeds the graph of pieces** that are numbered as they stand, if it has an
input for each, and narration behind them where the graph has it. -/
theorem Command.feeds_graph {c : Command} {pieces : List (Piece τ)} {images : List String}
    {audio : Option String} {total : τ} (nonempty : pieces ≠ [])
    (indices : pieces.map Piece.index = List.range pieces.length)
    (inputs : c.inputs = Source.ofMedia images audio) (each : images.length = pieces.length)
    (filter : c.filter = some (.graph (Piece.graph pieces (audio.map fun _ => pieces.length) total))) :
    c.Feeds (Piece.graph pieces (audio.map fun _ => pieces.length) total) := by
  have distinct : (pieces.map Piece.index).Nodup := indices ▸ List.nodup_range
  have once : (Piece.rawPads pieces (audio.map fun _ => pieces.length)).Nodup :=
    (List.nodup_append'.1 (Piece.pads_nodup _ distinct)).1
  constructor
  case filter => exact filter
  case named => exact c.values_inputs
  case mapped => rw [values_map filter, (Piece.graph_wellWired _ _ _ nonempty distinct).outputs_eq]
  case picture_once =>
    intro k path given
    rw [inputs, Source.ofMedia_image_iff] at given
    obtain ⟨inside, -⟩ := List.getElem?_eq_some_iff.mp given
    have raw := (Piece.mem_rawPads audio indices).mpr (.inl ⟨k, each ▸ inside, rfl⟩)
    have count := Piece.count_consumed_raw pieces (audio.map fun _ => pieces.length) total
      (p := .picture k) (by simp)
    exact count.trans (List.count_eq_one_of_mem once raw)
  case sound_once =>
    intro k path given
    rw [inputs, Source.ofMedia_audio_iff, each] at given
    obtain ⟨rfl, given⟩ := given
    have raw := (Piece.mem_rawPads audio indices).mpr (.inr ⟨by simp [given], rfl⟩)
    have count := Piece.count_consumed_raw pieces (audio.map fun _ => pieces.length) total
      (p := .sound pieces.length) (by simp)
    exact count.trans (List.count_eq_one_of_mem once raw)
  case picture_only =>
    intro k member
    have raw := (Piece.mem_consumed_raw (p := .picture k) (by simp)).mp member
    have inside : k < pieces.length := by simpa using (Piece.mem_rawPads audio indices).mp raw
    rw [inputs]
    exact ⟨images[k], Source.ofMedia_image_iff.mpr (List.getElem?_eq_getElem (each ▸ inside))⟩
  case sound_only =>
    intro k member
    have raw := (Piece.mem_consumed_raw (p := .sound k) (by simp)).mp member
    obtain ⟨given, rfl⟩ : audio.isSome ∧ k = pieces.length := by
      simpa using (Piece.mem_rawPads audio indices).mp raw
    obtain ⟨path, rfl⟩ := Option.isSome_iff_exists.mp given
    rw [inputs]
    exact ⟨path, Source.ofMedia_audio_iff.mpr ⟨each.symm, rfl⟩⟩
  case raw =>
    intro l member unmade
    obtain ⟨p, raw, rfl⟩ := Piece.exists_rawPad nonempty member unmade
    rw [inputs, Source.ofMedia_length, each]
    rcases (Piece.mem_rawPads audio indices).mp raw with ⟨k, inside, rfl⟩ | ⟨given, rfl⟩
    · exact ⟨k, by omega, .inl rfl⟩
    · obtain ⟨path, rfl⟩ := Option.isSome_iff_exists.mp given
      exact ⟨pieces.length, by simp, .inr rfl⟩

namespace Timeline

/-- What a timeline comes to has a command, if narration is given where it is wired. -/
theorem command_compiledOf (t : Timeline Float) (pieces : List (Piece Float))
    (audio : Option String) (output : String) (encoding : Encoding) :
    (t.compiledOf audio.isSome pieces).command audio output encoding = .ok
      { inputs := Source.ofMedia (pieces.map Piece.image) audio
        filter := some (.graph (Piece.graph pieces (audio.map fun _ => pieces.length)
          t.normalized.value.total))
        encoding := encoding
        duration := some t.normalized.value.total
        shortest := true
        output := output } := by
  cases audio <;> simp [Compiled.command, Compiled.audioFault?, compiledOf, Source.ofMedia]

/-- **The command of a timeline feeds its graph**, and narration makes no difference to the
rest.  Its inputs are the images of the segments that are left, and the narration behind
them; each is read once, as what it is, and what the graph leaves over is mapped. -/
theorem compile_feeds {t : Timeline Float} {audio : Option String} {c : Compiled Float}
    (compiled : t.compile audio.isSome = .ok c) (output : String) (encoding : Encoding) :
    (∃ scene cmd, t.image = some scene ∧ c.command audio output encoding = .ok cmd
      ∧ cmd.inputs = (t.normalized.value.segments.mapIdx fun k s =>
          Source.image (if k = 0 then scene else s.image.getD scene))
        ++ (audio.map Source.audio).toList
      ∧ cmd.Feeds c.graph
      ∧ cmd.values "-map" = "[vout]" :: (audio.map fun _ => "[aout]").toList
      ∧ ∃ length, cmd.values "-t" = [length]
        ∧ c.graph.soundLengths = (audio.map fun _ => some length).toList)
    ∧ ∃ silent, t.compile false = .ok silent ∧ silent.graph.audioOut = none
      ∧ silent.audioInput = none
      ∧ t.compile true = .ok { silent with
        graph := { silent.graph with
          nodes := silent.graph.nodes ++ [⟨[toString silent.images.length ++ ":a"],
            [⟨"atrim", [⟨some "duration", (Seconds.numeral silent.total).text, false⟩]⟩,
              ⟨"asetpts", [⟨none, "PTS-STARTPTS", false⟩]⟩], ["aout"]⟩]
          audioOut := some "aout" }
        audioInput := some silent.images.length } := by
  obtain ⟨segments, pieces, made, nonempty, rfl⟩ := exists_pieces compiled
  have indices := pieces_index made
  have silent : ∀ p ∈ pieces, ∀ f ∈ p.chain, f.name ≠ "atrim" := by
    intro p member
    obtain ⟨k, made⟩ := exists_piece_of_mem made member
    exact piece_chain_silent made
  obtain ⟨scene, shows⟩ : ∃ scene, t.normalized.value.image = some scene := by
    obtain ⟨k, made⟩ := exists_piece_of_mem made (List.head_mem nonempty)
    obtain ⟨_, scene, makes⟩ := exists_makes made
    exact ⟨scene, makes.shows⟩
  have wires : (t.compiledOf audio.isSome pieces).graph
      = Piece.graph pieces (audio.map fun _ => pieces.length) t.normalized.value.total := by
    cases audio <;> rfl
  refine ⟨⟨scene, _, ?_, command_compiledOf t pieces audio output encoding, ?_, ?_, ?_,
    (Seconds.numeral t.normalized.value.total).text, ?_, ?_⟩,
    t.compiledOf false pieces, compile_of_pieces false segments made nonempty, rfl, rfl, ?_⟩
  · rw [← t.fits_normalized.image, shows]
  · have images : (pieces.map Piece.image).map Source.image
        = t.normalized.value.segments.mapIdx fun k s =>
          Source.image (if k = 0 then scene else s.image.getD scene) := by
      rw [pieces_image made shows]
      exact List.ext_getElem (by simp) fun k _ _ => by simp
    exact congrArg (· ++ (audio.map Source.audio).toList) images
  · rw [wires]
    exact Command.feeds_graph nonempty indices rfl (by simp) rfl
  · rw [Command.values_map rfl]
    cases audio <;> rfl
  · rw [Command.values_length]
    rfl
  · rw [wires, Piece.graph_soundLengths _ _ silent]
    cases audio <;> rfl
  · rw [compile_of_pieces true segments made nonempty, compiledOf_audio]
    simp [compiledOf, Piece.audioNode, Node.ofPads, Chain.ofSteps, Step.filter, Filter.arg,
      Filter.pos, Pad.label]

/-- Three segments, the first and the last with images of their own, and paths that look like
flags. -/
def posing : Timeline Float where
  segments := [⟨none, 2.0, some "own.png", none⟩, ⟨some (.parallax ⟨1.0, 0.5, .leftToRight⟩), 3.0, none,
      some ⟨.fade, 0.5⟩⟩, ⟨none, 1.0, some "-map", none⟩]
  image := some "scene.png"

theorem posing_feeds :
    ∃ c cmd, posing.compile true = .ok c ∧ c.command (some "-t") "-i" .timeline = .ok cmd
      ∧ cmd.inputs = [.image "scene.png", .image "scene.png", .image "-map", .audio "-t"]
      ∧ cmd.Feeds c.graph ∧ cmd.values "-i" = ["scene.png", "scene.png", "-map", "-t"]
      ∧ cmd.values "-map" = ["[vout]", "[aout]"] := by
  obtain ⟨c, compiled⟩ := posing.exists_compile true (by simp [posing]) rfl
  obtain ⟨⟨scene, cmd, shows, made, inputs, feeds, mapped, -⟩, -⟩ :=
    @compile_feeds posing (some "-t") c compiled "-i" .timeline
  obtain rfl : "scene.png" = scene := Option.some.inj shows
  have images : (posing.normalized.value.segments.mapIdx fun k s =>
      Source.image (if k = 0 then "scene.png" else s.image.getD "scene.png"))
      = [.image "scene.png", .image "scene.png", .image "-map"] := by
    decide +kernel
  rw [images] at inputs
  refine ⟨c, cmd, compiled, made, inputs, feeds, ?_, mapped⟩
  rw [feeds.named, inputs]
  rfl

end Timeline

end Montage
