/-
# Montage.Proofs.Json.Sound -- the numbers that a text states have values

A number that is too large for a double is read as something unreadable.  What is left over are
numbers with values: every token is sound, because every word is, and the parser only puts together
what it is given.
-/
import Montage.Proofs.Json.Tokens

namespace Montage.Json

set_option autoImplicit false

/-! ## Words and tokens -/

/-- Every number in the token has a value. -/
def Token.Sound : Token → Prop
  | .scalar v => v.Sound
  | _ => True

theorem sound_leaf {v : Value} (leaf : v.IsLeaf) (number : v.HasNumber) : v.Sound :=
  (Value.every_leaf_iff leaf).mpr number

theorem sound_ofLiteral (l : Literal) : (Value.ofLiteral l).Sound := by
  unfold Value.ofLiteral
  split
  · exact sound_leaf trivial trivial
  · rename_i value
    have finite : l.toFloat.isFinite = true := by simpa using value
    split
    · rename_i count
      obtain ⟨negative, whole, places, power⟩ := l
      obtain ⟨rfl, rfl, rfl⟩ := count
      refine sound_leaf trivial ?_
      have same : (Literal.mk false whole none none).toFloat = Float.ofNat (digitsValue whole) := by
        show Float.ofScientific (digitsValue (whole ++ [])) false 0 = _
        rw [List.append_nil]
        rfl
      rwa [same] at finite
    · exact sound_leaf trivial finite

theorem sound_ofWord {cs : List Char} {v : Value} (word : Value.ofWord cs = some v) : v.Sound := by
  unfold Value.ofWord at word
  split at word
  · obtain rfl := Option.some.inj word
    exact sound_leaf trivial trivial
  · split at word
    · obtain rfl := Option.some.inj word
      exact sound_leaf trivial trivial
    · split at word
      · obtain rfl := Option.some.inj word
        exact sound_leaf trivial trivial
      · obtain ⟨l, -, rfl⟩ := Option.map_eq_some_iff.mp word
        exact sound_ofLiteral l

theorem sound_punctuation {c : Char} {t : Token} (mark : punctuation? c = some t) : t.Sound := by
  unfold punctuation? at mark
  split at mark <;> first | (obtain rfl := Option.some.inj mark; trivial) | cases mark

/-! ## The reader -/

namespace Lexer

/-- Every token so far is sound. -/
def Sound (l : Lexer) : Prop := ∀ t ∈ l.tokens, t.Sound

theorem sound_start {tokens : List Token} (sound : ∀ t ∈ tokens, t.Sound) (c : Char) :
    (start tokens c).Sound := by
  unfold start
  split
  · exact sound
  · split
    · exact sound
    · split
      · exact List.forall_mem_cons.mpr ⟨sound_punctuation ‹_›, sound⟩
      · exact sound

/-- One character adds nothing but sound tokens. -/
theorem sound_step {l next : Lexer} {c : Char} (sound : l.Sound) (step : l.step c = some next) :
    next.Sound := by
  obtain ⟨mode, tokens⟩ := l
  cases mode with
  | between =>
      obtain rfl := Option.some.inj step
      exact sound_start sound c
  | word done =>
      simp only [Lexer.step] at step
      split at step
      · obtain ⟨v, word, rfl⟩ := Option.map_eq_some_iff.mp step
        have value : Token.Sound (.scalar v) := sound_ofWord word
        exact sound_start (List.forall_mem_cons.mpr ⟨value, sound⟩) c
      · obtain rfl := Option.some.inj step
        exact sound
  | quoted draft =>
      simp only [Lexer.step] at step
      split at step
      · obtain rfl := Option.some.inj step
        exact List.forall_mem_cons.mpr ⟨trivial, sound⟩
      · split at step
        · obtain rfl := Option.some.inj step
          exact sound
        · split at step
          · cases step
          · obtain rfl := Option.some.inj step
            exact sound
  | escape draft =>
      simp only [Lexer.step] at step
      split at step
      · obtain rfl := Option.some.inj step
        exact sound
      · obtain ⟨e, -, rfl⟩ := Option.map_eq_some_iff.mp step
        exact sound
  | unit draft left sum =>
      obtain ⟨digit, -, rfl⟩ := Option.map_eq_some_iff.mp step
      dsimp only
      split <;> exact sound

theorem sound_run {cs : List Char} {l last : Lexer} (sound : l.Sound) (run : l.run cs = some last) :
    last.Sound := by
  induction cs generalizing l with
  | nil =>
      obtain rfl := Option.some.inj run
      exact sound
  | cons c cs ih =>
      obtain ⟨next, step, rest⟩ := Option.bind_eq_some_iff.mp run
      exact ih (sound_step sound step) rest

theorem sound_finish {l : Lexer} {ts : List Token} (sound : l.Sound) (ended : l.finish = some ts) :
    ∀ t ∈ ts, t.Sound := by
  obtain ⟨mode, tokens⟩ := l
  cases mode with
  | between =>
      obtain rfl := Option.some.inj ended
      exact fun t member => sound t (List.mem_reverse.mp member)
  | word done =>
      obtain ⟨v, word, rfl⟩ := Option.map_eq_some_iff.mp ended
      have all : ∀ t ∈ Token.scalar v :: tokens, t.Sound :=
        List.forall_mem_cons.mpr ⟨sound_ofWord word, sound⟩
      exact fun t member => all t (List.mem_reverse.mp member)
  | quoted draft => cases ended
  | escape draft => cases ended
  | unit draft left sum => cases ended

end Lexer

/-! ## The parser -/

/-- Every value in an open container is sound. -/
def Frame.Sound : Frame → Prop
  | .items done => ∀ v ∈ done, v.Sound
  | .members done _ => ∀ m ∈ done, m.2.Sound

/-- Every value that the parser holds in its place is sound. -/
def Place.Sound : Place → Prop
  | .value _ => True
  | .key _ done | .colon done _ => ∀ m ∈ done, m.2.Sound
  | .after v => v.Sound

theorem sound_ofMembers {members : List (Key × Value)} (sound : ∀ m ∈ members, m.2.Sound) :
    (Value.ofMembers members).Sound := by
  unfold Value.ofMembers
  split
  · rename_i named known
    refine Value.every_object_iff.mpr fun m member => ?_
    obtain ⟨origin, given, same⟩ := exists_of_mapM known m member
    obtain ⟨k, -, rfl⟩ := Option.map_eq_some_iff.mp same
    exact sound origin given
  · exact sound_leaf trivial trivial

namespace Parser

/-- Every value that the parser holds is sound. -/
structure Sound (p : Parser) : Prop where
  place : p.place.Sound
  stack : ∀ f ∈ p.stack, f.Sound

theorem sound_list {items : List Value} (sound : ∀ v ∈ items, v.Sound) : (Value.list items).Sound :=
  Value.every_list_iff.mpr sound

/-- What ends a value is put into the container that it stands in. -/
theorem sound_after {v : Value} {stack : List Frame} {next : Parser} {t : Token} (value : v.Sound)
    (frames : ∀ f ∈ stack, f.Sound) (step : Parser.step ⟨.after v, stack⟩ t = some next) :
    next.Sound := by
  cases stack with
  | nil => cases t <;> cases step
  | cons frame stack =>
      obtain ⟨frame_, others⟩ := List.forall_mem_cons.mp frames
      cases frame with
      | items done =>
          have longer : ∀ w ∈ v :: done, w.Sound := List.forall_mem_cons.mpr ⟨value, frame_⟩
          cases t with
          | comma =>
              obtain rfl := Option.some.inj step
              have items : Frame.Sound (.items (v :: done)) := longer
              exact ⟨trivial, List.forall_mem_cons.mpr ⟨items, others⟩⟩
          | closeList =>
              obtain rfl := Option.some.inj step
              exact ⟨sound_list fun w member => longer w (List.mem_reverse.mp member), others⟩
          | _ => cases step
      | members done key =>
          have longer : ∀ m ∈ (key, v) :: done, m.2.Sound :=
            List.forall_mem_cons.mpr ⟨value, frame_⟩
          cases t with
          | comma =>
              obtain rfl := Option.some.inj step
              exact ⟨longer, others⟩
          | closeObject =>
              obtain rfl := Option.some.inj step
              exact ⟨sound_ofMembers fun m member => longer m (List.mem_reverse.mp member), others⟩
          | _ => cases step

/-- One token, if it is sound, keeps the parser sound. -/
theorem sound_step {p next : Parser} {t : Token} (sound : p.Sound) (token : t.Sound)
    (step : p.step t = some next) : next.Sound := by
  obtain ⟨place, stack⟩ := p
  obtain ⟨held, frames⟩ := sound
  cases place with
  | value mayClose =>
      cases t with
      | scalar v =>
          obtain rfl := Option.some.inj step
          exact ⟨token, frames⟩
      | text s =>
          cases s <;> obtain rfl := Option.some.inj step <;>
            exact ⟨sound_leaf trivial trivial, frames⟩
      | openList =>
          obtain rfl := Option.some.inj step
          have empty : Frame.Sound (.items []) := List.forall_mem_nil _
          exact ⟨trivial, List.forall_mem_cons.mpr ⟨empty, frames⟩⟩
      | openObject =>
          obtain rfl := Option.some.inj step
          have empty : Place.Sound (.key true []) := List.forall_mem_nil _
          exact ⟨empty, frames⟩
      | closeList =>
          cases mayClose with
          | false => cases step
          | true =>
              rcases stack with _ | ⟨_ | _, stack⟩
              · cases step
              · obtain rfl := Option.some.inj step
                exact ⟨sound_list (List.forall_mem_nil _), (List.forall_mem_cons.mp frames).2⟩
              · cases step
      | _ => cases mayClose <;> cases step
  | key mayClose done =>
      cases t with
      | text key =>
          obtain rfl := Option.some.inj step
          exact ⟨held, frames⟩
      | closeObject =>
          cases mayClose with
          | false => cases step
          | true =>
              obtain rfl := Option.some.inj step
              exact ⟨Value.every_object_iff.mpr (List.forall_mem_nil _), frames⟩
      | _ => cases mayClose <;> cases step
  | colon done key =>
      cases t with
      | colon =>
          obtain rfl := Option.some.inj step
          have frame : Frame.Sound (.members done key) := held
          exact ⟨trivial, List.forall_mem_cons.mpr ⟨frame, frames⟩⟩
      | _ => cases step
  | after v => exact sound_after held frames step

theorem sound_run {ts : List Token} {p last : Parser} (sound : p.Sound)
    (tokens : ∀ t ∈ ts, t.Sound) (run : p.run ts = some last) : last.Sound := by
  induction ts generalizing p with
  | nil =>
      obtain rfl := Option.some.inj run
      exact sound
  | cons t ts ih =>
      obtain ⟨here, there⟩ := List.forall_mem_cons.mp tokens
      obtain ⟨next, step, rest⟩ := Option.bind_eq_some_iff.mp run
      exact ih (sound_step sound here step) there rest

end Parser

/-- **Every number in what a text states has a value.** -/
theorem sound_of_parse? {s : String} {v : Value} (stated : parse? s = some v) : v.Sound := by
  obtain ⟨ts, tokens, stated⟩ := Option.bind_eq_some_iff.mp stated
  obtain ⟨l, read, ended⟩ := Option.bind_eq_some_iff.mp tokens
  obtain ⟨p, run, finish⟩ := Option.bind_eq_some_iff.mp stated
  have empty : Lexer.Sound {} := List.forall_mem_nil _
  have reader : l.Sound := Lexer.sound_run empty read
  have start : Parser.Sound {} := ⟨trivial, List.forall_mem_nil _⟩
  have parser := Parser.sound_run start (Lexer.sound_finish reader ended) run
  unfold Parser.finish at finish
  split at finish
  · rename_i w place_ stack_
    obtain rfl := Option.some.inj finish
    have held := parser.place
    rwa [place_] at held
  · cases finish

end Montage.Json
