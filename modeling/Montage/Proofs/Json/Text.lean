/-
# Montage.Proofs.Json.Text -- a printed value is parsed back

Both layouts of a value are read as the same tokens, because they differ in white space only.

What is read of a text is stated for texts that stand between two others.  A text `Closes` if the
reader is between two tokens after it.  A number or a name does not: the reader cannot know that it
has ended before the next character, so all that is known is that the text `Reads` as its tokens
once it is followed by a delimiter, or by nothing.
-/
import Montage.Json.Printer
import Montage.Proofs.Json.Tokens
import Montage.Proofs.Number.Layout

namespace Montage.Json

set_option autoImplicit false

/-! ## Reading characters -/

/-- A character that ends a word. -/
def IsDelimiter (c : Char) : Prop := isSpace c = true ∨ c = '"' ∨ (punctuation? c).isSome = true

/-- The reader as it stands once a word has ended. -/
def Lexer.settle (l : Lexer) : Option Lexer :=
  match l.mode with
  | .between => some l
  | .word done => (Value.ofWord done.reverse).map (fun v => ⟨.between, .scalar v :: l.tokens⟩)
  | _ => none

/-- The characters are read as the tokens, and the reader is between two tokens after them. -/
def Closes (cs : List Char) (ts : List Token) : Prop :=
  ∀ before, Lexer.run ⟨.between, before⟩ cs = some ⟨.between, ts.reverse ++ before⟩

/-- The characters are read as the tokens once the last word has ended. -/
def Reads (cs : List Char) (ts : List Token) : Prop :=
  ∀ before, (Lexer.run ⟨.between, before⟩ cs).bind Lexer.settle
    = some ⟨.between, ts.reverse ++ before⟩

namespace Lexer

variable {l : Lexer} {ts : List Token}

/-- A delimiter ends a word. -/
theorem step_of_settle (settled : l.settle = some ⟨.between, ts⟩) {c : Char}
    (delimiter : IsDelimiter c) : l.step c = Lexer.step ⟨.between, ts⟩ c := by
  obtain ⟨mode, tokens⟩ := l
  cases mode with
  | between =>
      obtain rfl : tokens = ts := by simpa [settle] using settled
      rfl
  | word done =>
      obtain ⟨v, known, same⟩ := Option.map_eq_some_iff.mp settled
      rw [Lexer.mk.injEq] at same
      unfold IsDelimiter at delimiter
      simp only [step, if_pos delimiter, known, Option.map_some, same.2]
  | quoted draft => cases settled
  | escape draft => cases settled
  | unit draft left sum => cases settled

theorem run_of_settle (settled : l.settle = some ⟨.between, ts⟩) {c : Char} {cs : List Char}
    (delimiter : IsDelimiter c) : l.run (c :: cs) = Lexer.run ⟨.between, ts⟩ (c :: cs) := by
  rw [run, run, step_of_settle settled delimiter]

/-- The end of the text ends a word, too. -/
theorem finish_of_settle (settled : l.settle = some ⟨.between, ts⟩) :
    l.finish = some ts.reverse := by
  obtain ⟨mode, tokens⟩ := l
  cases mode with
  | between =>
      obtain rfl : tokens = ts := by simpa [settle] using settled
      rfl
  | word done =>
      obtain ⟨v, known, same⟩ := Option.map_eq_some_iff.mp settled
      rw [Lexer.mk.injEq] at same
      simp only [finish, known, Option.map_some, same.2]
  | quoted draft => cases settled
  | escape draft => cases settled
  | unit draft left sum => cases settled

end Lexer

section

variable {as bs : List Char} {ts us : List Token}

theorem Closes.reads (closes : Closes as ts) : Reads as ts := fun before => by
  rw [closes before]
  rfl

theorem Closes.append (first : Closes as ts) (second : Closes bs us) :
    Closes (as ++ bs) (ts ++ us) := fun before => by
  rw [Lexer.run_append, first before, Option.bind_some, second, List.reverse_append,
    List.append_assoc]

theorem Closes.reads_append (first : Closes as ts) (second : Reads bs us) :
    Reads (as ++ bs) (ts ++ us) := fun before => by
  rw [Lexer.run_append, first before, Option.bind_some, second, List.reverse_append,
    List.append_assoc]

/-- What begins with a delimiter may follow anything that has been read. -/
theorem Reads.closes_append (first : Reads as ts) {c : Char} (second : Closes (c :: bs) us)
    (delimiter : IsDelimiter c) : Closes (as ++ c :: bs) (ts ++ us) := fun before => by
  obtain ⟨l, run, settled⟩ := Option.bind_eq_some_iff.mp (first before)
  rw [Lexer.run_append, run, Option.bind_some, Lexer.run_of_settle settled delimiter, second,
    List.reverse_append, List.append_assoc]

theorem Reads.reads_append (first : Reads as ts) {c : Char} (second : Reads (c :: bs) us)
    (delimiter : IsDelimiter c) : Reads (as ++ c :: bs) (ts ++ us) := fun before => by
  obtain ⟨l, run, settled⟩ := Option.bind_eq_some_iff.mp (first before)
  rw [Lexer.run_append, run, Option.bind_some, Lexer.run_of_settle settled delimiter, second,
    List.reverse_append, List.append_assoc]

/-- A text that is read as the tokens of a value states the value. -/
theorem parse?_of_reads {s : String} {v : Value} (reads : Reads s.toList v.tokens) :
    parse? s = some v := by
  obtain ⟨l, run, settled⟩ := Option.bind_eq_some_iff.mp (reads [])
  have tokens : tokens? s.toList = some v.tokens := by
    rw [tokens?, run, Option.bind_some, Lexer.finish_of_settle settled, List.append_nil,
      List.reverse_reverse]
  rw [parse?, tokens, Option.bind_some, v.run_tokens]
  rfl

end

/-! ## White space -/

theorem closes_spaces (n : Nat) : Closes (List.replicate n ' ') [] := by
  induction n with
  | zero => exact fun _ => rfl
  | succ n ih =>
      rw [List.replicate_succ]
      exact ih

theorem toList_newLine (depth : Nat) :
    (newLine depth).toList = '\n' :: List.replicate (2 * depth) ' ' := by
  simp [newLine]

theorem closes_newLine (depth : Nat) : Closes (newLine depth).toList [] := by
  rw [toList_newLine]
  exact closes_spaces _

/-! ## Texts in quotes -/

namespace Lexer

variable {draft : Draft} {before : List Token} {c : Char}

/-- A hexadecimal digit moves up the ones before it. -/
theorem step_unit {digit : Nat} (known : hexDigit? c = some digit) (left sum : Nat) :
    step ⟨.unit draft left sum, before⟩ c
      = some (if left ≤ 1 then ⟨.quoted (draft.pushUnit (16 * sum + digit)), before⟩
          else ⟨.unit draft (left - 1) (16 * sum + digit), before⟩) := by
  simp only [step, known, Option.map_some]

/-- A character that is not escaped stands for itself. -/
theorem step_plain (quote : c ≠ '"') (backslash : c ≠ '\\') (printable : ¬ c.toNat < 0x20) :
    step ⟨.quoted draft, before⟩ c = some ⟨.quoted (draft.push c), before⟩ := by
  simp only [step, if_neg quote, if_neg backslash, if_neg printable]

end Lexer

/-- A character below the space is read from its two last hexadecimal digits. -/
theorem run_control {c : Char} (control : c.toNat < 0x20) (done : List Char)
    (before : List Token) :
    Lexer.run ⟨.unit ⟨done, true, none⟩ 2 0, before⟩
        [Nat.digitChar (c.toNat / 16), Nat.digitChar (c.toNat % 16)]
      = some ⟨.quoted ⟨c :: done, true, none⟩, before⟩ := by
  have digit : ∀ d < 16, hexDigit? (Nat.digitChar d) = some d := by decide
  have pushed : Draft.pushUnit ⟨done, true, none⟩ (16 * (16 * 0 + c.toNat / 16) + c.toNat % 16)
      = ⟨c :: done, true, none⟩ := by
    have unit : 16 * (16 * 0 + c.toNat / 16) + c.toNat % 16 = c.toNat := by omega
    rw [unit, Draft.pushUnit, if_neg (by omega), if_neg (by omega), Char.ofNat_toNat]
    rfl
  have high := digit (c.toNat / 16) (by omega)
  have low := digit (c.toNat % 16) (by omega)
  rw [Lexer.run, Lexer.step_unit high, if_neg (by decide), Option.bind_some, Lexer.run,
    Lexer.step_unit low, if_pos (by decide), pushed]
  rfl

/-- An escaped character is read as the character. -/
theorem run_escapeChar (c : Char) (done : List Char) (before : List Token) :
    Lexer.run ⟨.quoted ⟨done, true, none⟩, before⟩ (escapeChar c)
      = some ⟨.quoted ⟨c :: done, true, none⟩, before⟩ := by
  unfold escapeChar
  split
  iterate 7 exact rfl
  rename_i quote backslash _ _ _ _ _
  split
  · exact run_control ‹_› done before
  · rw [Lexer.run, Lexer.step_plain quote backslash ‹_›]
    rfl

theorem run_escapeChars (cs done : List Char) (before : List Token) :
    Lexer.run ⟨.quoted ⟨done, true, none⟩, before⟩ (cs.flatMap escapeChar)
      = some ⟨.quoted ⟨cs.reverse ++ done, true, none⟩, before⟩ := by
  induction cs generalizing done with
  | nil => rfl
  | cons c cs ih =>
      rw [List.flatMap_cons, Lexer.run_append, run_escapeChar, Option.bind_some, ih,
        List.reverse_cons, List.append_assoc, List.singleton_append]

/-- **A text in quotes is read as the text**, whatever characters it has. -/
theorem closes_quote (s : String) : Closes (quote s).toList [.text (some s)] := fun before => by
  have text : (quote s).toList = '"' :: (s.toList.flatMap escapeChar ++ ['"']) := by
    simp [quote]
  have ended : Lexer.run ⟨.quoted ⟨s.toList.reverse ++ [], true, none⟩, before⟩ ['"']
      = some ⟨.between, [Token.text (some s)].reverse ++ before⟩ := by
    have finished : Draft.finish ⟨s.toList.reverse ++ [], true, none⟩ = some s := by
      simp [Draft.finish]
    show some (Lexer.mk .between (.text (Draft.finish _) :: before)) = _
    rw [finished]
    rfl
  rw [text]
  show Lexer.run ⟨.quoted ⟨[], true, none⟩, before⟩ _ = _
  rw [Lexer.run_append, run_escapeChars, Option.bind_some, ended]

/-! ## Words -/

instance (c : Char) : Decidable (IsDelimiter c) := inferInstanceAs (Decidable (_ ∨ _ ∨ _))

theorem run_word {cs : List Char} (word : ∀ c ∈ cs, ¬ IsDelimiter c) (done : List Char)
    (before : List Token) :
    Lexer.run ⟨.word done, before⟩ cs = some ⟨.word (cs.reverse ++ done), before⟩ := by
  induction cs generalizing done with
  | nil => rfl
  | cons c cs ih =>
      have kept : Lexer.step ⟨.word done, before⟩ c = some ⟨.word (c :: done), before⟩ :=
        if_neg (word c List.mem_cons_self)
      rw [Lexer.run, kept, Option.bind_some,
        ih fun c member => word c (List.mem_cons_of_mem _ member), List.reverse_cons,
        List.append_assoc, List.singleton_append]

/-- A word without delimiters in it is read as the value of the word. -/
theorem reads_word {cs : List Char} {v : Value} (word : ∀ c ∈ cs, ¬ IsDelimiter c) (some_ : cs ≠ [])
    (known : Value.ofWord cs = some v) : Reads cs [.scalar v] := fun before => by
  obtain ⟨c, rest, rfl⟩ := List.exists_cons_of_ne_nil some_
  have first := word c List.mem_cons_self
  unfold IsDelimiter at first
  have started : Lexer.start before c = ⟨.word [c], before⟩ := by
    have none : punctuation? c = none :=
      Option.not_isSome_iff_eq_none.mp fun is => first (.inr (.inr is))
    rw [Lexer.start, if_neg fun is => first (.inl is), if_neg fun is => first (.inr (.inl is)),
      none]
  show (Lexer.run (Lexer.start before c) rest).bind Lexer.settle = _
  rw [started, run_word fun c member => word c (List.mem_cons_of_mem _ member), Option.bind_some]
  have back : (rest.reverse ++ [c]).reverse = c :: rest := by simp
  simp only [Lexer.settle, back, known, Option.map_some]
  rfl

theorem isDelimiter_iff {c : Char} :
    IsDelimiter c ↔ c ∈ [' ', '\t', '\n', '\r', '"', '[', ']', '\x7b', '\x7d', ',', ':'] := by
  constructor
  · rintro (space | rfl | mark)
    · simp only [isSpace, decide_eq_true_eq] at space
      rcases space with rfl | rfl | rfl | rfl <;> decide
    · decide
    · unfold punctuation? at mark
      split at mark <;> first | decide | cases mark
  · intro member
    simp only [List.mem_cons, List.not_mem_nil, or_false] at member
    rcases member with rfl | rfl | rfl | rfl | rfl | rfl | rfl | rfl | rfl | rfl | rfl <;> decide

/-! ## Numbers -/

/-- What literals are spelled with. -/
theorem mem_spelling {l : Literal} (spelled : l.IsSpelled) {c : Char} (member : c ∈ l.spelling) :
    c.isDigit = true ∨ c ∈ ['-', '.', 'e'] := by
  have power (p : Int) : ∀ c ∈ (toString p).toList, c.isDigit = true ∨ c ∈ ['-', '.', 'e'] := by
    intro c member
    cases p with
    | ofNat n =>
        have text : (toString (Int.ofNat n)).toList = Nat.toDigits 10 n := Nat.toList_repr
        rw [text] at member
        exact .inl (allDigits_toDigits n c member)
    | negSucc n =>
        have text : (toString (Int.negSucc n)).toList = '-' :: Nat.toDigits 10 (n + 1) := by
          show ("-" ++ (n + 1).repr).toList = _
          simp
        rw [text] at member
        rcases List.mem_cons.mp member with rfl | member
        · exact .inr (by decide)
        · exact .inl (allDigits_toDigits _ c member)
  obtain ⟨negative, whole, places, exponent⟩ := l
  have digits := spelled.whole
  have others := spelled.places
  unfold Literal.spelling at member
  simp only [List.mem_append] at member
  rcases member with ((member | member) | member) | member
  · split at member
    · exact .inr (List.mem_cons.mpr (.inl (List.mem_singleton.mp member)))
    · cases member
  · exact .inl (digits c member)
  · cases places with
    | none => cases member
    | some ds =>
        rcases List.mem_cons.mp member with rfl | member
        · exact .inr (by decide)
        · exact .inl (others c member)
  · cases exponent with
    | none => cases member
    | some p =>
        rcases List.mem_cons.mp member with rfl | member
        · exact .inr (by decide)
        · exact power p c member

/-- A literal is a word, and none of the names. -/
theorem reads_spelling {l : Literal} (spelled : l.IsSpelled) :
    Reads l.spelling [.scalar (Value.ofLiteral l)] := by
  have apart (c : Char) (letter : c.isDigit = false) (other : c ∉ ['-', '.', 'e']) :
      c ∉ l.spelling := by
    intro member
    rcases mem_spelling spelled member with digit | mark
    · rw [letter] at digit
      cases digit
    · exact other mark
  apply reads_word
  · intro c member delimiter
    rw [isDelimiter_iff] at delimiter
    simp only [List.mem_cons, List.not_mem_nil, or_false] at delimiter
    rcases delimiter with rfl | rfl | rfl | rfl | rfl | rfl | rfl | rfl | rfl | rfl | rfl <;>
      exact apart _ rfl (by decide) member
  · intro none
    have strict := Literal.readStrict_spelling spelled
    rw [none] at strict
    cases strict
  · have named {word : List Char} (c : Char) (member : c ∈ word) (outside : c ∉ l.spelling) :
        l.spelling ≠ word := fun same => outside (same ▸ member)
    rw [Value.ofWord, if_neg (named 'n' (by decide) (apart 'n' rfl (by decide))),
      if_neg (named 't' (by decide) (apart 't' rfl (by decide))),
      if_neg (named 'f' (by decide) (apart 'f' rfl (by decide))),
      Literal.readStrict_spelling spelled]
    rfl

/-- A count whose double has a value is read as the count. -/
theorem reads_count {n : Nat} (finite : (Float.ofNat n).isFinite = true) :
    Reads (toString n).toList [.scalar (.nat n)] := by
  have spelled : (Literal.mk false (Nat.toDigits 10 n) none none).IsSpelled := by
    refine ⟨allDigits_toDigits n, allDigits_nil, ?_⟩
    have nonempty := Nat.toDigits_ne_nil (b := 10) (n := n)
    rcases Nat.eq_zero_or_pos n with rfl | positive
    · rfl
    · simp [Literal.IsStrict, nonempty, head?_toDigits positive]
  have reads := reads_spelling spelled
  have double : (Literal.mk false (Nat.toDigits 10 n) none none).toFloat = Float.ofNat n := by
    show Float.ofScientific (digitsValue (Nat.toDigits 10 n ++ [])) false 0
      = Float.ofScientific n false 0
    rw [List.append_nil, digitsValue_toDigits]
  have value : Value.ofLiteral (Literal.mk false (Nat.toDigits 10 n) none none) = .nat n := by
    rw [Value.ofLiteral, double, finite, if_neg (by decide), if_pos ⟨rfl, rfl, rfl⟩,
      digitsValue_toDigits]
  have text : (Literal.mk false (Nat.toDigits 10 n) none none).spelling = (toString n).toList := by
    rw [toList_toString]
    simp [Literal.spelling]
  rwa [value, text] at reads

/-- A double with a value is read as the double. -/
theorem reads_double {x : Float} (finite : x.isFinite = true) :
    Reads (dataText x).toList [.scalar (.real x)] := by
  obtain ⟨l, literal⟩ := exists_dataLiteral finite
  have value : Value.ofLiteral l = .real x := by
    rw [Value.ofLiteral, literal.read, finite, if_neg (by decide), if_neg literal.notCount]
  rw [literal.text, ← value]
  exact reads_spelling literal.spelled

/-! ## Items between commas -/

/-- What is read item by item is read with commas between the items. -/
theorem reads_separated {α : Type} {items : List α} (text : α → List Char)
    (tokens : α → List Token) (each : ∀ a ∈ items, Reads (text a) (tokens a)) (some_ : items ≠ []) :
    Reads ([','].intercalate (items.map text)) ([Token.comma].intercalate (items.map tokens)) := by
  have comma : Closes [','] [.comma] := fun _ => rfl
  induction items with
  | nil => exact absurd rfl some_
  | cons a rest ih =>
      have first := each a List.mem_cons_self
      cases rest with
      | nil => simpa using first
      | cons b rest =>
          have others := ih (fun a member => each a (List.mem_cons_of_mem _ member))
            (List.cons_ne_nil _ _)
          have both := first.reads_append (comma.reads_append others) (by decide)
          simpa using both

theorem itemTokens_eq (items : List Value) :
    itemTokens items = [Token.comma].intercalate (items.map Value.tokens) := by
  induction items with
  | nil => rfl
  | cons v rest ih => cases rest with
    | nil => simp [itemTokens]
    | cons w rest => simp [itemTokens_cons, ih]

/-- The tokens of one member. -/
def memberToken (m : String × Value) : List Token := .text (some m.1) :: .colon :: m.2.tokens

theorem memberTokens_eq (members : List (String × Value)) :
    memberTokens members = [Token.comma].intercalate (members.map memberToken) := by
  induction members with
  | nil => rfl
  | cons m rest ih =>
      obtain ⟨k, v⟩ := m
      cases rest with
      | nil => simp [memberTokens, memberToken]
      | cons w rest => rw [memberTokens_cons, ih]; simp [memberToken]

/-- A container is read from what stands between its two ends. -/
theorem closes_container {inner gap : List Char} {ts : List Token} (first last : Char)
    {start stop : Token} (opening : Closes [first] [start]) (reads : Reads inner ts)
    (blank : Closes gap []) (apart : ∀ c ∈ gap.head?, IsDelimiter c)
    (closing : Closes [last] [stop]) (delimiter : IsDelimiter last) :
    Closes (first :: (inner ++ (gap ++ [last]))) (start :: (ts ++ [stop])) := by
  have ending : Closes (inner ++ (gap ++ [last])) (ts ++ [stop]) := by
    have both := blank.append closing
    cases gap with
    | nil => exact reads.closes_append closing delimiter
    | cons c cs => exact reads.closes_append both (apart c rfl)
  exact opening.append ending

/-- The text of a leaf is read as the leaf. -/
theorem reads_scalarText {v : Value} (leaf : v.IsLeaf) (printable : v.Printable) :
    Reads v.scalarText.toList v.tokens := by
  obtain ⟨number, readable⟩ := (Value.every_leaf_iff leaf).mp printable
  have named {s : String} {cs : List Char} {v : Value} (text : s.toList = cs)
      (word : ∀ c ∈ cs, ¬ IsDelimiter c) (some_ : cs ≠ []) (known : Value.ofWord cs = some v) :
      Reads s.toList [.scalar v] := text ▸ reads_word word some_ known
  cases v with
  | null =>
      have text : "null".toList = ['n', 'u', 'l', 'l'] := by simp
      exact named text (by simp [isDelimiter_iff]) (by decide) rfl
  | bool b => cases b with
    | true =>
        have text : "true".toList = ['t', 'r', 'u', 'e'] := by simp
        exact named text (by simp [isDelimiter_iff]) (by decide) rfl
    | false =>
        have text : "false".toList = ['f', 'a', 'l', 's', 'e'] := by simp
        exact named text (by simp [isDelimiter_iff]) (by decide) rfl
  | nat n => exact reads_count number
  | real x => exact reads_double number
  | text s => exact (closes_quote s).reads
  | list items => exact absurd leaf id
  | object members => exact absurd leaf id
  | unreadable => exact absurd rfl readable

/-- A member is read from its key and its value, with a colon and perhaps a space between them. -/
theorem reads_member {cs gap : List Char} {m : String × Value} (blank : Closes gap [])
    (reads : Reads cs m.2.tokens) :
    Reads ((quote m.1).toList ++ (':' :: gap ++ cs)) (memberToken m) := by
  have colon : Closes [':'] [.colon] := fun _ => rfl
  exact (closes_quote m.1).reads_append ((colon.append blank).reads_append reads)

/-! ## Without white space -/

theorem toList_compactItems (items : List Value) :
    (compactItems items).toList = [','].intercalate (items.map (fun v => v.compact.toList)) := by
  induction items with
  | nil => rfl
  | cons v rest ih => cases rest with
    | nil => simp [compactItems]
    | cons w rest => simp [compactItems, ih]

theorem toList_compactMembers (members : List (String × Value)) :
    (compactMembers members).toList = [','].intercalate
      (members.map (fun m => (quote m.1).toList ++ (':' :: [] ++ m.2.compact.toList))) := by
  induction members with
  | nil => rfl
  | cons m rest ih =>
      obtain ⟨k, v⟩ := m
      cases rest with
      | nil => simp [compactMembers]
      | cons w rest => simp [compactMembers, ih]

theorem closes_nil : Closes [] [] := fun _ => rfl

theorem reads_compact {v : Value} (printable : v.Printable) : Reads v.compact.toList v.tokens := by
  induction v using Value.nested with
  | leaf v leaf =>
      have text : v.compact = v.scalarText := by
        cases v <;> first | exact absurd leaf id | simp [Value.compact]
      rw [text]
      exact reads_scalarText leaf printable
  | list items ih =>
      have each := Value.every_list_iff.mp printable
      rw [Value.compact, Value.tokens]
      cases items with
      | nil => exact Closes.reads fun _ => rfl
      | cons v rest =>
          have inner := reads_separated (fun v => v.compact.toList) Value.tokens
            (fun w member => ih w member (each w member)) (List.cons_ne_nil v rest)
          rw [← itemTokens_eq, ← toList_compactItems] at inner
          have closes := closes_container '[' ']' (fun _ => rfl) inner closes_nil (by simp)
            (fun _ => rfl) (by decide)
          simpa using closes.reads
  | object members ih =>
      have each := Value.every_object_iff.mp printable
      rw [Value.compact, Value.tokens]
      cases members with
      | nil => exact Closes.reads fun _ => rfl
      | cons m rest =>
          have inner := reads_separated _ memberToken
            (fun m member => reads_member closes_nil (ih m member (each m member)))
            (List.cons_ne_nil m rest)
          rw [← memberTokens_eq, ← toList_compactMembers] at inner
          have closes := closes_container '\x7b' '\x7d' (fun _ => rfl) inner closes_nil (by simp)
            (fun _ => rfl) (by decide)
          simpa using closes.reads

/-- **A value is read back from its text without white space.** -/
theorem parse?_compact {v : Value} (printable : v.Printable) : parse? v.compact = some v :=
  parse?_of_reads (reads_compact printable)

/-! ## One item a line -/

theorem toList_indentedItems (depth : Nat) (items : List Value) :
    (indentedItems depth items).toList = [','].intercalate
      (items.map (fun v => (newLine depth).toList ++ (v.indented depth).toList)) := by
  induction items with
  | nil => rfl
  | cons v rest ih => cases rest with
    | nil => simp [indentedItems]
    | cons w rest => simp [indentedItems, ih]

theorem toList_indentedMembers (depth : Nat) (members : List (String × Value)) :
    (indentedMembers depth members).toList = [','].intercalate
      (members.map (fun m => (newLine depth).toList
        ++ ((quote m.1).toList ++ (':' :: [' '] ++ (m.2.indented depth).toList)))) := by
  induction members with
  | nil => rfl
  | cons m rest ih =>
      obtain ⟨k, v⟩ := m
      cases rest with
      | nil => simp [indentedMembers]
      | cons w rest => simp [indentedMembers, ih]

theorem reads_indented {v : Value} (printable : v.Printable) (depth : Nat) :
    Reads (v.indented depth).toList v.tokens := by
  have line : ∀ d, ∀ c ∈ (newLine d).toList.head?, IsDelimiter c := by
    intro d c first
    rw [toList_newLine, List.head?_cons, Option.mem_some_iff] at first
    rw [← first]
    decide
  induction v using Value.nested generalizing depth with
  | leaf v leaf =>
      have text : v.indented depth = v.scalarText := by
        cases v <;> first | exact absurd leaf id | simp [Value.indented]
      rw [text]
      exact reads_scalarText leaf printable
  | list items ih =>
      have each := Value.every_list_iff.mp printable
      rw [Value.tokens]
      cases items with
      | nil =>
          rw [Value.indented]
          exact Closes.reads fun _ => rfl
      | cons v rest =>
          have inner := reads_separated _ Value.tokens (fun w member =>
            (closes_newLine (depth + 1)).reads_append (ih w member (each w member) (depth + 1)))
            (List.cons_ne_nil v rest)
          rw [← itemTokens_eq, ← toList_indentedItems] at inner
          have closes := closes_container '[' ']' (fun _ => rfl) inner (closes_newLine depth)
            (line depth) (fun _ => rfl) (by decide)
          simpa [Value.indented] using closes.reads
  | object members ih =>
      have each := Value.every_object_iff.mp printable
      rw [Value.tokens]
      cases members with
      | nil =>
          rw [Value.indented]
          exact Closes.reads fun _ => rfl
      | cons m rest =>
          have space : Closes [' '] [] := fun _ => rfl
          have inner := reads_separated _ memberToken (fun m member =>
            (closes_newLine (depth + 1)).reads_append
              (reads_member space (ih m member (each m member) (depth + 1))))
            (List.cons_ne_nil m rest)
          rw [← memberTokens_eq, ← toList_indentedMembers] at inner
          have closes := closes_container '\x7b' '\x7d' (fun _ => rfl) inner (closes_newLine depth)
            (line depth) (fun _ => rfl) (by decide)
          simpa [Value.indented] using closes.reads

/-- **A value is read back from its text with one item a line.** -/
theorem parse?_pretty {v : Value} (printable : v.Printable) : parse? v.pretty = some v :=
  parse?_of_reads (reads_indented printable 0)

end Montage.Json
