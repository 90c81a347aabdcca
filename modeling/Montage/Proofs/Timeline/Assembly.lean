/-
# Montage.Proofs.Timeline.Assembly -- the graph of a timeline is its pieces in a row

Pieces are assembled in three shapes: one piece alone, all joined at once, or one
boundary after the other.  The shape does not show in what comes out.  In each of
them the streams are the same up to order (`rawPads`, `middlePads`, `endPads`), so
the graph is well wired; and in each of them the finished video, less the filter
that makes its sides even, unfolds to the same strip (`strip`): the pieces in their
order, each through its own chain, joined as the boundaries say.
-/
import Mathlib.Data.List.Perm.Basic
import Montage.Proofs.Filter.Wiring
import Montage.Proofs.Timeline.Plan
import Montage.Timeline.Assembly

namespace Montage

set_option autoImplicit false

variable {τ : Type} [Seconds τ]

/-- The join that a boundary asks for. -/
def Boundary.joint : Boundary τ → Joint
  | .cut _ => .cut
  | .transition _ kind duration offset =>
      .crossfade kind.name (Seconds.numeral duration).text (Seconds.numeral offset).text

namespace Piece

/-! ## Streams -/

/-- The raw streams of some pieces and their narration. -/
def rawPads (pieces : List (Piece τ)) (audio : Option Nat) : List Pad :=
  pieces.map (fun p => .picture p.index) ++ (audio.map Pad.sound).toList

/-- The streams between the raw and the finished ones. -/
def middlePads : List (Piece τ) → List Pad
  | [] | [_] => []
  | first :: rest =>
      let bounds := boundaries (first :: rest)
      (first :: rest).map (fun p => .segment p.index)
        ++ if bounds.any Boundary.isTransition then bounds.map (fun b => .joined b.index) else []

/-- The finished streams. -/
def endPads (audio : Option Nat) : List Pad :=
  .videoOut :: (audio.map (fun _ => Pad.audioOut)).toList

/-- The streams that are taken in when pieces are joined one after the other. -/
def joinPads (current : Pad) (joins : List (Boundary τ × Piece τ)) : List Pad :=
  current :: joins.flatMap (fun x => [.segment x.2.index, .joined x.1.index])

/-- The streams of pictures that are taken in. -/
def takenPads : List (Piece τ) → List Pad
  | [] => []
  | [only] => [.picture only.index]
  | first :: rest =>
      let bounds := boundaries (first :: rest)
      (first :: rest).map (fun p => .picture p.index)
        ++ if bounds.any Boundary.isTransition then
            joinPads (.segment first.index) (bounds.zip rest)
          else (first :: rest).map (fun p => .segment p.index)

omit [Seconds τ] in
theorem sources_outputs (pieces : List (Piece τ)) :
    (pieces.map node).flatMap Node.outputs
      = (pieces.map (fun p => Pad.segment p.index)).map Pad.label := by
  induction pieces with
  | nil => rfl
  | cons p rest ih => simpa [node, Node.ofPads] using ih

omit [Seconds τ] in
theorem sources_inputs (pieces : List (Piece τ)) :
    (pieces.map node).flatMap Node.inputs
      = (pieces.map (fun p => Pad.picture p.index)).map Pad.label := by
  induction pieces with
  | nil => rfl
  | cons p rest ih => simpa [node, Node.ofPads] using ih

theorem joinNodes_outputs (current : Pad) (joins : List (Boundary τ × Piece τ)) :
    (joinNodes current joins).flatMap Node.outputs
      = (joins.map (fun x => Pad.joined x.1.index) ++ [Pad.videoOut]).map Pad.label := by
  induction joins generalizing current with
  | nil => rfl
  | cons x rest ih => simp [joinNodes, Node.ofPads, ih]

theorem joinNodes_inputs (current : Pad) (joins : List (Boundary τ × Piece τ)) :
    (joinNodes current joins).flatMap Node.inputs = (joinPads current joins).map Pad.label := by
  induction joins generalizing current with
  | nil => rfl
  | cons x rest ih => simp [joinNodes, Node.ofPads, ih, joinPads]

/-- Every boundary is joined with the piece that it is about. -/
theorem zip_boundaries (first : Piece τ) (rest : List (Piece τ)) :
    ((boundaries (first :: rest)).zip rest).map Prod.fst = boundaries (first :: rest)
      ∧ ((boundaries (first :: rest)).zip rest).map Prod.snd = rest := by
  have same := boundaries_length first rest
  exact ⟨List.map_fst_zip (Nat.le_of_eq same), List.map_snd_zip (Nat.le_of_eq same.symm)⟩

theorem videoNodes_outputs {pieces : List (Piece τ)} (nonempty : pieces ≠ []) :
    (videoNodes pieces).flatMap Node.outputs
      = (middlePads pieces ++ [Pad.videoOut]).map Pad.label := by
  match pieces with
  | [] => exact absurd rfl nonempty
  | [only] => rfl
  | first :: second :: rest =>
      have zipped := (zip_boundaries first (second :: rest)).1
      simp only [videoNodes, middlePads]
      split
      · rw [List.flatMap_append, sources_outputs, joinNodes_outputs]
        have joined : ((boundaries (first :: second :: rest)).zip (second :: rest)).map
            (fun x => Pad.joined x.1.index)
            = (boundaries (first :: second :: rest)).map (fun b => Pad.joined b.index) := by
          conv_rhs => rw [← zipped]
          rw [List.map_map]
          rfl
        rw [joined]
        simp
      · rw [List.flatMap_append, sources_outputs]
        simp [Node.ofPads]

theorem videoNodes_inputs (pieces : List (Piece τ)) :
    (videoNodes pieces).flatMap Node.inputs = (takenPads pieces).map Pad.label := by
  match pieces with
  | [] => rfl
  | [only] => rfl
  | first :: second :: rest =>
      simp only [videoNodes, takenPads]
      split
      · rw [List.flatMap_append, sources_inputs, joinNodes_inputs, List.map_append]
      · rw [List.flatMap_append, sources_inputs]
        simp [Node.ofPads]

omit [Seconds τ] in
theorem joinPads_perm (current : Pad) (joins : List (Boundary τ × Piece τ)) :
    (joinPads current joins).Perm
      (current :: joins.map (fun x => Pad.segment x.2.index)
        ++ joins.map (fun x => Pad.joined x.1.index)) := by
  have pairs := List.map_append_flatMap_perm joins (fun x => Pad.segment x.2.index)
    (fun x => [Pad.joined x.1.index])
  rw [← List.map_eq_flatMap] at pairs
  exact (pairs.symm).cons current

/-- **Every shape takes in the raw pictures and what it puts in between, each once.** -/
theorem takenPads_perm (pieces : List (Piece τ)) :
    (takenPads pieces).Perm (pieces.map (fun p => Pad.picture p.index) ++ middlePads pieces) := by
  match pieces with
  | [] => exact .refl _
  | [only] => exact .refl _
  | first :: second :: rest =>
      obtain ⟨zipFst, zipSnd⟩ := zip_boundaries first (second :: rest)
      -- Joins take in a segment and what is joined so far by turns; the order is all that differs.
      simp only [takenPads, middlePads]
      refine List.Perm.append_left _ ?_
      split
      · have perm := joinPads_perm (.segment first.index)
          ((boundaries (first :: second :: rest)).zip (second :: rest))
        have segments := congrArg (List.map fun p => Pad.segment p.index) zipSnd
        have joined := congrArg (List.map fun b => Pad.joined b.index) zipFst
        rw [List.map_map] at segments joined
        simp only [Function.comp_def] at segments joined
        rw [segments, joined] at perm
        exact perm
      · simp

theorem audioNodes_outputs (audio : Option Nat) (total : τ) :
    ((audio.map (fun k => audioNode k total)).toList).flatMap Node.outputs
      = ((audio.map (fun _ => Pad.audioOut)).toList).map Pad.label := by
  cases audio <;> rfl

theorem audioNodes_inputs (audio : Option Nat) (total : τ) :
    ((audio.map (fun k => audioNode k total)).toList).flatMap Node.inputs
      = ((audio.map Pad.sound).toList).map Pad.label := by
  cases audio <;> rfl

/-- The streams in between are segments and what has been joined of them. -/
theorem mem_middlePads {pieces : List (Piece τ)} {p : Pad} (member : p ∈ middlePads pieces) :
    (∃ k, p = .segment k) ∨ ∃ k, p = .joined k := by
  match pieces with
  | [] | [_] => simp [middlePads] at member
  | first :: second :: rest =>
      simp only [middlePads, List.mem_append] at member
      rcases member with segment | joined
      · obtain ⟨piece, -, rfl⟩ := List.mem_map.1 segment
        exact Or.inl ⟨_, rfl⟩
      · split at joined
        · obtain ⟨b, -, rfl⟩ := List.mem_map.1 joined
          exact Or.inr ⟨_, rfl⟩
        · simp at joined

theorem middlePads_nodup {pieces : List (Piece τ)} (distinct : (pieces.map Piece.index).Nodup) :
    (middlePads pieces).Nodup := by
  match pieces with
  | [] | [_] => simp [middlePads]
  | first :: second :: rest =>
      have segments : (((first :: second :: rest).map Piece.index).map Pad.segment).Nodup :=
        distinct.map fun _ _ same => Pad.segment.inj same
      have indices : ((boundaries (first :: second :: rest)).map Boundary.index).Nodup := by
        rw [boundaries_index]
        exact List.nodup_range'
      have joined : (((boundaries (first :: second :: rest)).map Boundary.index).map
          Pad.joined).Nodup := indices.map fun _ _ same => Pad.joined.inj same
      rw [List.map_map] at segments joined
      simp only [middlePads]
      refine List.nodup_append'.2 ⟨segments, ?_, ?_⟩
      · split
        · exact joined
        · exact List.nodup_nil
      · intro p inSegments inJoined
        obtain ⟨piece, -, rfl⟩ := List.mem_map.1 inSegments
        split at inJoined
        · obtain ⟨b, -, other⟩ := List.mem_map.1 inJoined
          exact Pad.noConfusion other
        · simp at inJoined

theorem pads_nodup {pieces : List (Piece τ)} (audio : Option Nat)
    (distinct : (pieces.map Piece.index).Nodup) :
    (rawPads pieces audio ++ (middlePads pieces ++ endPads audio)).Nodup := by
  have pictures : ((pieces.map Piece.index).map Pad.picture).Nodup :=
    distinct.map fun _ _ same => Pad.picture.inj same
  rw [List.map_map] at pictures
  have raw : (rawPads pieces audio).Nodup := by
    refine List.nodup_append'.2 ⟨pictures, by cases audio <;> simp, ?_⟩
    intro p inPictures inSound
    obtain ⟨piece, -, rfl⟩ := List.mem_map.1 inPictures
    cases audio <;> simp at inSound
  have ends : (endPads audio).Nodup := by cases audio <;> simp [endPads]
  have made : (middlePads pieces ++ endPads audio).Nodup := by
    refine List.nodup_append'.2 ⟨middlePads_nodup distinct, ends, ?_⟩
    intro p inMiddle inEnds
    rcases mem_middlePads inMiddle with ⟨k, rfl⟩ | ⟨k, rfl⟩ <;>
      cases audio <;> simp [endPads] at inEnds
  refine List.nodup_append'.2 ⟨raw, made, ?_⟩
  intro p inRaw inMade
  have isRaw : (∃ k, p = .picture k) ∨ ∃ k, p = .sound k := by
    rcases List.mem_append.1 inRaw with picture | sound
    · obtain ⟨piece, -, rfl⟩ := List.mem_map.1 picture
      exact Or.inl ⟨_, rfl⟩
    · cases audio <;> simp at sound
      exact Or.inr ⟨_, sound⟩
  rcases List.mem_append.1 inMade with inMiddle | inEnds
  · rcases mem_middlePads inMiddle with ⟨k, rfl⟩ | ⟨k, rfl⟩ <;> simp at isRaw
  · rcases isRaw with ⟨k, rfl⟩ | ⟨k, rfl⟩ <;> cases audio <;> simp [endPads] at inEnds

/-! ## Order of evaluation -/

omit [Seconds τ] in
theorem sources_fed {pieces : List (Piece τ)} {known : List String}
    (raw : ∀ p ∈ pieces, (Pad.picture p.index).label ∈ known) :
    Node.Fed known (pieces.map node) := by
  refine Node.fed_of_inputs fun n member l input => ?_
  obtain ⟨p, inPieces, rfl⟩ := List.mem_map.1 member
  obtain rfl := List.mem_singleton.1 input
  exact raw p inPieces

/-- Joining one boundary after the other needs the pieces and what is joined so far. -/
theorem joinNodes_fed {current : Pad} {joins : List (Boundary τ × Piece τ)}
    {known : List String} (running : current.label ∈ known)
    (segments : ∀ x ∈ joins, (Pad.segment x.2.index).label ∈ known) :
    Node.Fed known (joinNodes current joins) := by
  induction joins generalizing current known with
  | nil =>
      refine ⟨fun l input => ?_, trivial⟩
      obtain rfl := List.mem_singleton.1 input
      exact running
  | cons x rest ih =>
      refine ⟨fun l input => ?_, ih ?_ ?_⟩
      · simp only [Node.ofPads, List.map_cons, List.map_nil, List.mem_cons, List.not_mem_nil,
          or_false] at input
        rcases input with rfl | rfl
        · exact running
        · exact segments x List.mem_cons_self
      · exact List.mem_append_right _ (List.mem_singleton.2 rfl)
      · exact fun y inRest => List.mem_append_left _ (segments y (List.mem_cons_of_mem _ inRest))

theorem videoNodes_fed (pieces : List (Piece τ)) {known : List String}
    (raw : ∀ p ∈ pieces, (Pad.picture p.index).label ∈ known) :
    Node.Fed known (videoNodes pieces) := by
  match pieces with
  | [] => trivial
  | [only] =>
      refine ⟨fun l input => ?_, trivial⟩
      obtain rfl := List.mem_singleton.1 input
      exact raw only List.mem_cons_self
  | first :: second :: rest =>
      have made : ∀ p ∈ first :: second :: rest, (Pad.segment p.index).label
          ∈ known ++ ((first :: second :: rest).map node).flatMap Node.outputs := by
        intro p member
        rw [sources_outputs]
        refine List.mem_append_right _ (List.mem_map_of_mem ?_)
        exact List.mem_map_of_mem (f := fun p : Piece τ => Pad.segment p.index) member
      simp only [videoNodes]
      split
      · refine Node.fed_append (sources_fed raw) (joinNodes_fed (made first List.mem_cons_self) ?_)
        intro x member
        exact made x.2 (List.mem_cons_of_mem _ (List.of_mem_zip member).2)
      · refine Node.fed_append (sources_fed raw) ⟨fun l input => ?_, trivial⟩
        simp only [Node.ofPads, List.map_map] at input
        obtain ⟨p, member, rfl⟩ := List.mem_map.1 input
        exact made p member

/-! ## The strip -/

/-- The shot that a piece is. -/
def shot (joint : Option Joint) (p : Piece τ) : Shot :=
  ⟨joint, (Pad.picture p.index).label, p.chain⟩

/-- Pieces in their order, joined as their boundaries say. -/
def strip (pieces : List (Piece τ)) : List Shot :=
  List.zipWith shot (none :: (boundaries pieces).map (fun b => some b.joint)) pieces

/-- The reel of a piece that is ready to be joined. -/
def reel (p : Piece τ) : Reel := .made p.chain [.raw (Pad.picture p.index).label]

/-- The reel of what is joined to another one boundary after the other. -/
def joinedReel (r : Reel) : List (Boundary τ × Piece τ) → Reel
  | [] => r
  | (b, p) :: rest => joinedReel (.made (.ofSteps [b.step]) [r, p.reel]) rest

theorem ofLabel_ofPads (inputs : List Pad) (chain : Chain) (output : Pad) (earlier : List Node) :
    Reel.ofLabel (Node.ofPads inputs chain output :: earlier) output.label
      = .made chain (inputs.map fun p => Reel.ofLabel earlier p.label) := by
  rw [Reel.ofLabel, if_pos (by simp [Node.ofPads])]
  simp [Node.ofPads, Function.comp_def]

theorem ofLabel_ofPads_ne {p output : Pad} (ne : p ≠ output) (inputs : List Pad) (chain : Chain)
    (earlier : List Node) :
    Reel.ofLabel (Node.ofPads inputs chain output :: earlier) p.label
      = Reel.ofLabel earlier p.label := by
  have fresh : p.label ∉ (Node.ofPads inputs chain output).outputs := fun output =>
    ne (Pad.label_injective (List.mem_singleton.1 output))
  rw [Reel.ofLabel, if_neg fresh]

omit [Seconds τ] in
/-- The label of a piece leads to its own chain over its own picture. -/
theorem ofLabel_sources {pieces : List (Piece τ)} (distinct : (pieces.map Piece.index).Nodup)
    {p : Piece τ} (member : p ∈ pieces) :
    Reel.ofLabel (pieces.map node).reverse (Pad.segment p.index).label = p.reel := by
  obtain ⟨before, after, rfl⟩ := List.append_of_mem member
  have others : ∀ q ∈ after, q.index ≠ p.index := by
    intro q inAfter same
    rw [List.map_append, List.map_cons] at distinct
    have tail := (List.nodup_append'.1 distinct).2.1
    exact (List.nodup_cons.1 tail).1 (same ▸ List.mem_map_of_mem inAfter)
  have fresh : ∀ n ∈ (after.map node).reverse, (Pad.segment p.index).label ∉ n.outputs := by
    intro n inAfter output
    obtain ⟨q, member, rfl⟩ := List.mem_map.1 (List.mem_reverse.1 inAfter)
    have same := Pad.label_injective (List.mem_singleton.1 output)
    exact others q member (Pad.segment.inj same).symm
  have rawFresh : ∀ n ∈ (before.map node).reverse, (Pad.picture p.index).label ∉ n.outputs := by
    intro n inBefore output
    obtain ⟨q, -, rfl⟩ := List.mem_map.1 (List.mem_reverse.1 inBefore)
    exact Pad.noConfusion (Pad.label_injective (List.mem_singleton.1 output))
  have form : ((before ++ p :: after).map node).reverse
      = (after.map node).reverse ++ p.node :: (before.map node).reverse := by simp
  rw [form, Reel.ofLabel_append fresh, node, ofLabel_ofPads]
  simp only [List.map_cons, List.map_nil, Reel.ofLabel_raw rawFresh, reel]

/-- Following labels back through the joins.  The induction is on the joins still to
come; the nodes done so far matter only through what their labels lead to. -/
theorem ofLabel_joinNodes (current : Pad) (joins : List (Boundary τ × Piece τ))
    (done : List Node)
    (segments : ∀ x ∈ joins, Reel.ofLabel done (Pad.segment x.2.index).label = x.2.reel) :
    Reel.ofLabel ((joinNodes current joins).reverse ++ done) Pad.videoOut.label
      = .made (.ofSteps [.evenOut]) [joinedReel (Reel.ofLabel done current.label) joins] := by
  induction joins generalizing current done with
  | nil => exact ofLabel_ofPads [current] _ .videoOut done
  | cons x rest ih =>
      have here := segments x List.mem_cons_self
      simp only [joinNodes, List.reverse_cons, List.append_assoc, List.singleton_append]
      rw [ih]
      · simp only [joinedReel, ofLabel_ofPads, List.map_cons, List.map_nil, here]
      · intro y inRest
        rw [ofLabel_ofPads_ne (by simp)]
        exact segments y (List.mem_cons_of_mem _ inRest)

omit [Seconds τ] in
theorem shots_reel (p : Piece τ) : p.reel.shots = some [shot none p] := by
  simp [reel, shot, Reel.shots, Reel.shotsAll, Shot.assemble, Shot.through]

omit [Seconds τ] in
theorem shotsAll_reels (pieces : List (Piece τ)) :
    Reel.shotsAll (pieces.map reel) = some (pieces.map fun p => [shot none p]) := by
  induction pieces with
  | nil => rfl
  | cons p rest ih => simp [Reel.shotsAll, shots_reel, ih]

/-- The filter at a boundary reads as the join that the boundary asks for. -/
theorem joint_ofFilter (b : Boundary τ) : Joint.ofFilter? 2 b.step.filter = some b.joint := by
  cases b <;> rfl

theorem joint_ofJoin (count : Nat) :
    Joint.ofFilter? count (Step.join count).filter = some .cut := by
  simp [Joint.ofFilter?, Step.filter, Filter.arg, Filter.get?]

theorem shots_joinedReel {r : Reel} {shots : List Shot} (joins : List (Boundary τ × Piece τ))
    (form : r.shots = some shots) :
    (joinedReel r joins).shots
      = some (shots ++ joins.map fun x => shot (some x.1.joint) x.2) := by
  induction joins generalizing r shots with
  | nil => simpa [joinedReel] using form
  | cons x rest ih =>
      have step : (Reel.made (.ofSteps [x.1.step]) [r, x.2.reel]).shots
          = some (shots ++ [shot (some x.1.joint) x.2]) := by
        simp [Reel.shots, Reel.shotsAll, form, shots_reel, Shot.assemble, Chain.ofSteps,
          joint_ofFilter, Shot.splice, shot]
      simpa [joinedReel] using ih step

theorem strip_cons (first : Piece τ) (rest : List (Piece τ)) :
    strip (first :: rest) = shot none first
      :: ((boundaries (first :: rest)).zip rest).map (fun x => shot (some x.1.joint) x.2) := by
  simp only [strip, List.zipWith_cons_cons, List.zipWith_map_left, List.map_zip_eq_zipWith]
  rfl

theorem joint_of_not_transition {b : Boundary τ} (cut : b.isTransition = false) :
    b.joint = .cut := by
  cases b with
  | cut i => rfl
  | transition i kind duration offset => simp [Boundary.isTransition] at cut

/-- Joining all pieces at once is cutting at every boundary. -/
theorem strip_of_no_transition {first : Piece τ} {rest : List (Piece τ)}
    (cuts : (boundaries (first :: rest)).any Boundary.isTransition = false) :
    strip (first :: rest) = shot none first :: rest.map (shot (some .cut)) := by
  rw [strip_cons]
  have joints : ∀ x ∈ (boundaries (first :: rest)).zip rest,
      shot (some x.1.joint) x.2 = shot (some .cut) x.2 := by
    intro x member
    have cut := List.any_eq_false.1 cuts x.1 (List.of_mem_zip member).1
    rw [joint_of_not_transition (by simpa using cut)]
  rw [List.map_congr_left joints]
  have pieces := congrArg (List.map (shot (some .cut))) (zip_boundaries first rest).2
  rw [List.map_map] at pieces
  simp only [Function.comp_def] at pieces
  rw [pieces]

omit [Seconds τ] in
theorem shots_join (first second : Piece τ) (rest : List (Piece τ)) :
    (Reel.made (.ofSteps [.join (first :: second :: rest).length])
        ((first :: second :: rest).map reel)).shots
      = some (shot none first :: (second :: rest).map (shot (some .cut))) := by
  have parts := shotsAll_reels (first :: second :: rest)
  rw [Reel.shots, parts]
  simp only [Option.bind_some, Chain.ofSteps, List.map_cons, List.map_nil, Shot.assemble,
    List.length_cons, List.length_map, joint_ofJoin, Option.map_some]
  simp [Shot.splice, shot, List.flatMap_map, ← List.map_eq_flatMap]

/-- **The finished video is the pieces in a row**, whatever shape joins them: less the
filter that makes its sides even, it unfolds to their strip. -/
theorem videoNodes_reel {pieces : List (Piece τ)} (nonempty : pieces ≠ [])
    (distinct : (pieces.map Piece.index).Nodup) :
    ∃ chain parts,
      Reel.ofLabel (videoNodes pieces).reverse Pad.videoOut.label
          = .made (chain ++ [Step.evenOut.filter]) parts
        ∧ (Reel.made chain parts).shots = some (strip pieces) := by
  match pieces with
  | [] => exact absurd rfl nonempty
  | [only] =>
      refine ⟨only.chain, _, ofLabel_ofPads [.picture only.index] _ .videoOut [], ?_⟩
      exact shots_reel only
  | first :: second :: rest =>
      have sources : ∀ p ∈ first :: second :: rest,
          Reel.ofLabel ((first :: second :: rest).map node).reverse (Pad.segment p.index).label
            = p.reel := fun p member => ofLabel_sources distinct member
      simp only [videoNodes]
      split
      · rw [List.reverse_append, ofLabel_joinNodes, sources first List.mem_cons_self]
        · refine ⟨[], _, rfl, ?_⟩
          have shots := shots_joinedReel
            ((boundaries (first :: second :: rest)).zip (second :: rest)) (shots_reel first)
          rw [Reel.shots_made_nil, shots, strip_cons]
          rfl
        · intro x member
          exact sources x.2 (List.mem_cons_of_mem _ (List.of_mem_zip member).2)
      · rename_i cuts
        rw [List.reverse_append, List.reverse_singleton, List.singleton_append, ofLabel_ofPads]
        refine ⟨Chain.ofSteps [.join (first :: second :: rest).length], _, rfl, ?_⟩
        have parts : ((first :: second :: rest).map fun p => Pad.segment p.index).map (fun p =>
            Reel.ofLabel ((first :: second :: rest).map node).reverse p.label)
            = (first :: second :: rest).map reel := by
          rw [List.map_map]
          exact List.map_congr_left sources
        rw [parts, shots_join, strip_of_no_transition (by simpa using cuts)]

/-! ## The whole graph -/

/-- The labels of the raw streams: a picture for each piece, and the sound of the
narration. -/
def rawLabels (pieces : List (Piece τ)) (audio : Option Nat) : List String :=
  pieces.map (fun p => toString p.index ++ ":v")
    ++ (audio.map fun k => toString k ++ ":a").toList

omit [Seconds τ] in
theorem rawLabels_eq (pieces : List (Piece τ)) (audio : Option Nat) :
    rawLabels pieces audio = (rawPads pieces audio).map Pad.label := by
  rw [rawPads, List.map_append, List.map_map]
  cases audio <;> rfl

section Graph

variable (pieces : List (Piece τ)) (audio : Option Nat) (total : τ)

/-- The graph of some pieces, if there are any. -/
def graph : Graph where
  nodes := videoNodes pieces ++ (audio.map (fun k => audioNode k total)).toList
  videoOut := Pad.videoOut.label
  audioOut := audio.map (fun _ => Pad.audioOut.label)

theorem assemble_eq_graph (nonempty : pieces ≠ []) :
    assemble pieces audio total = .ok (graph pieces audio total) := by
  have notEmpty : pieces.isEmpty = false := by simpa using nonempty
  rw [assemble, notEmpty]
  rfl

theorem graph_produced (nonempty : pieces ≠ []) :
    (graph pieces audio total).produced
      = (middlePads pieces ++ endPads audio).map Pad.label := by
  rw [Graph.produced, graph, List.flatMap_append, videoNodes_outputs nonempty,
    audioNodes_outputs]
  simp [endPads]

theorem graph_consumed :
    (graph pieces audio total).consumed
      = (takenPads pieces ++ (audio.map Pad.sound).toList).map Pad.label := by
  rw [Graph.consumed, graph, List.flatMap_append, videoNodes_inputs, audioNodes_inputs,
    List.map_append]

theorem graph_finished :
    (graph pieces audio total).finished = (endPads audio).map Pad.label := by
  cases audio <;> rfl

theorem graph_fed :
    Node.Fed ((rawPads pieces audio).map Pad.label) (graph pieces audio total).nodes := by
  have sounds : Node.Fed ((rawPads pieces audio).map Pad.label)
      (audio.map (fun k => audioNode k total)).toList := by
    refine Node.fed_of_inputs fun n member l input => ?_
    cases audio with
    | none => simp at member
    | some k =>
        obtain rfl := List.mem_singleton.1 member
        obtain rfl := List.mem_singleton.1 input
        exact List.mem_map_of_mem (List.mem_append_right _ List.mem_cons_self)
  refine Node.fed_append (videoNodes_fed pieces fun p member => ?_)
    (sounds.mono (List.subset_append_left _ _))
  refine List.mem_map_of_mem (List.mem_append_left _ ?_)
  exact List.mem_map_of_mem (f := fun p : Piece τ => Pad.picture p.index) member

theorem graph_balance :
    (takenPads pieces ++ (audio.map Pad.sound).toList).Perm
      (rawPads pieces audio ++ middlePads pieces) := by
  refine ((takenPads_perm pieces).append_right _).trans ?_
  rw [rawPads, List.append_assoc, List.append_assoc]
  exact List.perm_append_comm.append_left _

theorem graph_wellWired (nonempty : pieces ≠ []) (distinct : (pieces.map Piece.index).Nodup) :
    (graph pieces audio total).WellWired (rawLabels pieces audio) := by
  rw [rawLabels_eq]
  exact Graph.wellWired_of_pads (graph_fed pieces audio total)
    (graph_produced pieces audio total nonempty) (graph_consumed pieces audio total)
    (graph_finished pieces audio total) (graph_balance pieces audio)
    (pads_nodup audio distinct)

/-- The narration does not change what the video is made of. -/
theorem graph_reel :
    (graph pieces audio total).reel Pad.videoOut.label
      = Reel.ofLabel (videoNodes pieces).reverse Pad.videoOut.label := by
  have silent : ∀ n ∈ (audio.map (fun k => audioNode k total)).toList.reverse,
      Pad.videoOut.label ∉ n.outputs := by
    intro n member output
    cases audio with
    | none => simp at member
    | some k =>
        obtain rfl := List.mem_singleton.1 (List.mem_reverse.1 member)
        exact Pad.noConfusion (Pad.label_injective (List.mem_singleton.1 output))
  rw [Graph.reel, graph, List.reverse_append, Reel.ofLabel_append silent]

end Graph

/-- **Pieces with an index each have a well-wired graph, and its video is their strip.**
The streams that are neither raw nor finished are `s` and `x` with a count, and there is
finished sound exactly if there is narration. -/
theorem assemble_wellWired {pieces : List (Piece τ)} (nonempty : pieces ≠ [])
    (distinct : (pieces.map Piece.index).Nodup) (audio : Option Nat) (total : τ) :
    ∃ g, assemble pieces audio total = .ok g
      ∧ g.WellWired (rawLabels pieces audio)
      ∧ g.finished = "vout" :: (audio.map fun _ => "aout").toList
      ∧ ("aout" ∈ g.produced ↔ audio.isSome)
      ∧ (∀ l ∈ g.produced, l ∉ g.finished →
          ∃ k : Nat, l = "s" ++ toString k ∨ l = "x" ++ toString k)
      ∧ ((g.reel "vout").beforeLast Step.evenOut.filter).bind Reel.shots
          = some (strip pieces) := by
  have produced_eq := graph_produced pieces audio total nonempty
  refine ⟨_, assemble_eq_graph pieces audio total nonempty,
    graph_wellWired pieces audio total nonempty distinct, ?_, ?_, ?_, ?_⟩
  · cases audio <;> rfl
  · have sound : Pad.audioOut ∈ middlePads pieces ++ endPads audio ↔ audio.isSome := by
      constructor
      · intro member
        rcases List.mem_append.1 member with inMiddle | inEnds
        · rcases mem_middlePads inMiddle with ⟨k, same⟩ | ⟨k, same⟩ <;> cases same
        · cases audio <;> simp [endPads] at inEnds ⊢
      · intro given
        obtain ⟨k, rfl⟩ := Option.isSome_iff_exists.1 given
        simp [endPads]
    rw [produced_eq, ← sound]
    exact Graph.mem_map_label (p := Pad.audioOut)
  · intro l member unfinished
    rw [produced_eq] at member
    obtain ⟨p, made, rfl⟩ := List.mem_map.1 member
    rw [graph_finished, Graph.mem_map_label] at unfinished
    rcases mem_middlePads ((List.mem_append.1 made).resolve_right unfinished) with
      ⟨k, rfl⟩ | ⟨k, rfl⟩
    · exact ⟨k, Or.inl rfl⟩
    · exact ⟨k, Or.inr rfl⟩
  · obtain ⟨chain, parts, reel_eq, shots_eq⟩ := videoNodes_reel nonempty distinct
    have video := (graph_reel pieces audio total).trans reel_eq
    change ((Graph.reel _ Pad.videoOut.label).beforeLast _).bind _ = _
    rw [video, Reel.beforeLast, if_pos (by simp), Option.bind_some, List.dropLast_concat]
    exact shots_eq

/-- Three pieces in no order of their own, the second with a cross-fade. -/
def mixedPieces : List (Piece Rat) :=
  [⟨7, "a.png", [], .passThrough, 2, 50, none, []⟩,
    ⟨3, "b.png", [Step.square.filter], .passThrough, 3, 75, some ⟨.fade, 1 / 2⟩, []⟩,
    ⟨5, "c.png", [], .passThrough, 1, 25, none, []⟩]

/-- The strip of a mixture: the third piece is cut to what the cross-fade joins. -/
theorem mixedPieces_wellWired :
    ∃ g, assemble mixedPieces (some 9) 5 = .ok g
      ∧ g.WellWired ["7:v", "3:v", "5:v", "9:a"]
      ∧ g.finished = ["vout", "aout"]
      ∧ ((g.reel "vout").beforeLast Step.evenOut.filter).bind Reel.shots
          = some [⟨none, "7:v", []⟩,
            ⟨some (.crossfade "fade" "0.5" "1.5"), "3:v", [Step.square.filter]⟩,
            ⟨some .cut, "5:v", []⟩] := by
  obtain ⟨g, made, wired, finished, -, -, shots⟩ :=
    @assemble_wellWired Rat _ mixedPieces (by simp [mixedPieces]) (by decide) (some 9) 5
  have labels : rawLabels mixedPieces (some 9) = ["7:v", "3:v", "5:v", "9:a"] := by cbv
  have shown : strip mixedPieces = [⟨none, "7:v", []⟩,
      ⟨some (.crossfade "fade" "0.5" "1.5"), "3:v", [Step.square.filter]⟩,
      ⟨some .cut, "5:v", []⟩] := by cbv
  exact ⟨g, made, labels ▸ wired, finished, shown ▸ shots⟩

end Piece

end Montage
