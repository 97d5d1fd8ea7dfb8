/-
Reading a text that stands further on.

Offsets do not influence what is read. The tokens of a text that starts `k` bytes further
on are those of the text, moved by `k` (`Token.scan_shift`), and so are the forms that the
reader makes of them and the flaw that it comes to (`Reading.readTokens_shift`). Behind a
text that is complete, another text on a new line is read as it is alone, only further on:
`read_joined`.
-/

import Sexpr.Proofs.Node.Likeness
import Sexpr.Proofs.Reading.Ending
import Sexpr.Proofs.Reading.Lines

namespace Sexpr

open Text (byteLength)

/-! ### Moving what has an offset -/

/-- The same span `k` bytes further on. -/
def Span.shift (k : Nat) (s : Span) : Span :=
  ⟨s.start + k, s.stop + k, Nat.add_le_add_right s.ordered k⟩

/-- The place `k` bytes further on in its source. -/
def Place.shift (k : Nat) (p : Place) : Place :=
  { p with span := p.span.map (·.shift k) }

theorem Place.shift_within (k : Nat) (label : String) (start stop : Nat) :
    (within label start stop).shift k = within label (start + k) (stop + k) := by
  simp [shift, within, Span.shift, Span.between, Nat.add_max_add_right]

def Text.Quotation.shift (k : Nat) : Quotation → Quotation
  | .closed text stop rest => .closed text (stop + k) rest
  | .unclosed => .unclosed
  | .unknown offset letter => .unknown (offset + k) letter

def Lexeme.shift (k : Nat) : Lexeme → Lexeme
  | .broken flaw offset => .broken flaw (offset + k)
  | other => other

def Token.shift (k : Nat) (t : Token) : Token :=
  ⟨t.lexeme.shift k, t.start + k, t.stop + k⟩

def FlawAt.shift (k : Nat) (flaw : FlawAt) : FlawAt :=
  (flaw.1, flaw.2 + k)

/-- The second node is the first one, `k` bytes further on. -/
abbrev Node.Shifted (k : Nat) : Node → Node → Prop :=
  Node.Alike fun p q => q = p.shift k

/-! ### Tokens -/

theorem Text.Quotation.shift_push (k : Nat) (c : Char) (q : Quotation) :
    (q.push c).shift k = (q.shift k).push c := by
  cases q <;> rfl

theorem Text.unquote_shift (k offset : Nat) (cs : List Char) :
    unquote (offset + k) cs = (unquote offset cs).shift k := by
  fun_induction unquote offset cs with
  | case1 => rfl
  | case2 offset rest => simp only [unquote, Quotation.shift, Nat.add_right_comm offset k 1]
  | case3 => rfl
  | case4 offset letter rest c meaning ih =>
    have further : offset + k + 1 + letter.utf8Size = offset + 1 + letter.utf8Size + k := by omega
    simp only [unquote, meaning, further, ih, Quotation.shift_push]
  | case5 offset letter rest unknown => simp only [unquote, unknown, Quotation.shift]
  | case6 offset c rest notQuote notLast notEscape ih =>
    rw [unquote.eq_5 _ _ _ notQuote notLast notEscape, Nat.add_right_comm, ih,
      Quotation.shift_push]

namespace Token

@[simp] theorem isBroken_shift (k : Nat) (t : Token) : (t.shift k).isBroken = t.isBroken := by
  obtain ⟨lexeme, start, stop⟩ := t
  cases lexeme <;> rfl

theorem skipTrivia_shift (k : Nat) (comments inside : Bool) (offset : Nat) (cs : List Char) :
    skipTrivia comments inside (offset + k) cs =
      ((skipTrivia comments inside offset cs).1 + k, (skipTrivia comments inside offset cs).2) := by
  fun_induction skipTrivia comments inside offset cs with
  | case1 => simp only [skipTrivia]
  | case2 offset c cs ih => rw [skipTrivia, Nat.add_right_comm, ih]
  | case3 offset c cs isBlank ih => rw [skipTrivia, if_pos isBlank, Nat.add_right_comm, ih]
  | case4 offset c cs notBlank opens ih =>
    rw [skipTrivia, if_neg notBlank, if_pos opens, Nat.add_right_comm, ih]
  | case5 offset c cs notBlank noComment => rw [skipTrivia, if_neg notBlank, if_neg noComment]

theorem wordLexeme_shift (k offset : Nat) (word : List Char) :
    wordLexeme (offset + k) word = (wordLexeme offset word).shift k := by
  unfold wordLexeme
  repeat' split
  all_goals rfl

theorem readWord_shift (k offset : Nat) (cs : List Char) :
    readWord (offset + k) cs = ((readWord offset cs).1.shift k, (readWord offset cs).2) := by
  simp only [readWord, shift, wordLexeme_shift, Nat.add_right_comm offset k]

theorem readText_shift (k offset : Nat) (cs : List Char) :
    readText (offset + k) cs = ((readText offset cs).1.shift k, (readText offset cs).2) := by
  have behind : Text.unquote (offset + k + 1) cs = (Text.unquote (offset + 1) cs).shift k := by
    rw [Nat.add_right_comm, Text.unquote_shift]
  rw [readText, readText, behind]
  cases Text.unquote (offset + 1) cs <;> rfl

theorem next_shift (k offset : Nat) (c : Char) (cs : List Char) :
    next (offset + k) c cs = ((next offset c cs).1.shift k, (next offset c cs).2) := by
  unfold next
  split
  case h_6 => exact readText_shift k offset cs
  case h_7 => exact readWord_shift k offset _
  all_goals simp only [shift, Lexeme.shift, Nat.add_right_comm offset k]

/-- The tokens of a text that starts further on are those of the text, further on. -/
theorem scan_shift (comments : Bool) (k offset : Nat) (cs : List Char) :
    scan comments (offset + k) cs = (scan comments offset cs).map (shift k) := by
  induction size : cs.length using Nat.strongRecOn generalizing offset cs with
  | ind size ih =>
  rw [scan_eq, scan_eq, skipTrivia_shift]
  cases skip : skipTrivia comments false offset cs with
  | mk start front =>
    cases front with
    | nil => rfl
    | cons c rest =>
      dsimp only
      rw [next_shift, isBroken_shift]
      split
      · rfl
      · rename_i whole
        have shorter := length_next_lt skip whole
        rw [List.map_cons]
        exact congrArg _ (ih _ (size ▸ shorter) _ _ rfl)

end Token

/-! ### Forms and flaws -/

/-- What is open stands `k` bytes further on. -/
inductive Pending.Shifted (k : Nat) : Pending → Pending → Prop where
  | bracket (kind : Bracket) (start : Nat) {items items' : List Node} :
      List.Forall₂ (Node.Shifted k) items items' →
      Shifted k (.bracket kind start items) (.bracket kind (start + k) items')
  | quote (start : Nat) : Shifted k (.quote start) (.quote (start + k))

namespace Reading

/-- What has become of a token stands `k` bytes further on. -/
inductive StepShifted (k : Nat) : Except FlawAt Progress → Except FlawAt Progress → Prop where
  | inside {stack stack' : List Pending} : List.Forall₂ (Pending.Shifted k) stack stack' →
      StepShifted k (.ok (.inside stack)) (.ok (.inside stack'))
  | done {node node' : Node} : node.Shifted k node' →
      StepShifted k (.ok (.done node)) (.ok (.done node'))
  | flawed (flaw : FlawAt) : StepShifted k (.error flaw) (.error (flaw.shift k))

section

variable (settings : ReadSettings) (label : String) {k : Nat} {stack stack' : List Pending}

theorem toNode_shift (k : Nat) (leaf : Leaf) (start stop : Nat) :
    (leaf.toNode (.within label start stop)).Shifted k
      (leaf.toNode (.within label (start + k) (stop + k))) := by
  have moved := (Place.shift_within k label start stop).symm
  cases leaf with
  | number value => exact .number value moved
  | text value => exact .text value moved
  | atom name => exact .atom name moved
  | symbol name => exact .symbol name moved

theorem deliver_shift (h : List.Forall₂ (Pending.Shifted k) stack stack') (stop : Nat)
    {node node' : Node} (moved : node.Shifted k node') :
    StepShifted k (.ok (deliver label stop node stack))
      (.ok (deliver label (stop + k) node' stack')) := by
  induction h generalizing node node' with
  | nil => exact .done moved
  | cons first others ih =>
    cases first with
    | quote start => exact ih (.quoted (Place.shift_within k label start stop).symm moved)
    | bracket kind start items =>
      exact .inside (.cons (.bracket kind start (.cons moved items)) others)

theorem close_shift (kind : Bracket) (start stop : Nat) {items items' : List Node}
    (moved : List.Forall₂ (Node.Shifted k) items items') :
    (close (.within label start stop) kind items).Shifted k
      (close (.within label (start + k) (stop + k)) kind items') := by
  have here := (Place.shift_within k label start stop).symm
  cases kind with
  | round => exact .call here (List.rel_reverse moved)
  | square => exact .vector here (List.rel_reverse moved)

theorem enter_shift (h : List.Forall₂ (Pending.Shifted k) stack stack') (token : Token) :
    StepShifted k (enter settings label stack token)
      (enter settings label stack' (token.shift k)) := by
  obtain ⟨lexeme, start, stop⟩ := token
  unfold enter
  rw [← h.length_eq]
  split
  · exact .flawed _
  · cases lexeme with
    | opening kind => exact .inside (.cons (.bracket kind start .nil) h)
    | closing kind => exact .flawed _
    | quote => exact .inside (.cons (.quote start) h)
    | leaf leaf => exact deliver_shift label h stop (toNode_shift label k leaf start stop)
    | broken flaw offset => exact .flawed _

theorem step_shift (h : List.Forall₂ (Pending.Shifted k) stack stack') (token : Token) :
    StepShifted k (step settings label stack token)
      (step settings label stack' (token.shift k)) := by
  cases h with
  | nil => exact enter_shift settings label .nil token
  | cons first others =>
    cases first with
    | quote start => exact enter_shift settings label (.cons (.quote start) others) token
    | bracket kind opened moved =>
      obtain ⟨lexeme, start, stop⟩ := token
      cases lexeme with
      | closing found =>
        dsimp only [step, Token.shift, Lexeme.shift]
        split
        · exact deliver_shift label others stop (close_shift label kind opened stop moved)
        · exact .flawed _
      | _ => exact enter_shift settings label (.cons (.bracket kind opened moved) others) _

theorem flawAtEnd_shift (h : List.Forall₂ (Pending.Shifted k) stack stack') (stop : Nat) :
    flawAtEnd settings (stop + k) stack' = (flawAtEnd settings stop stack).shift k := by
  cases h with
  | nil =>
    unfold flawAtEnd
    dsimp only
    split <;> rfl
  | cons first others =>
    cases first with
    | bracket kind start moved => rfl
    | quote start =>
      rw [flawAtEnd_quote, flawAtEnd_quote, List.length_cons, List.length_cons, others.length_eq]
      split <;> rfl

/-- Tokens further on are read as the same forms, further on, up to the same flaw. -/
theorem readTokens_shift (h : List.Forall₂ (Pending.Shifted k) stack stack') (stop : Nat)
    (tokens : List Token) :
    List.Forall₂ (Node.Shifted k) (readTokens settings label stop stack tokens).1
        (readTokens settings label (stop + k) stack' (tokens.map (Token.shift k))).1 ∧
      (readTokens settings label (stop + k) stack' (tokens.map (Token.shift k))).2 =
        (readTokens settings label stop stack tokens).2.map (FlawAt.shift k) := by
  induction tokens generalizing stack stack' with
  | nil =>
    have atEnd := flawAtEnd_shift settings h stop
    cases h with
    | nil => exact ⟨.nil, rfl⟩
    | cons first others => exact ⟨.nil, congrArg some atEnd⟩
  | cons token tokens ih =>
    have steps := step_shift settings label h token
    rw [List.map_cons, readTokens, readTokens]
    generalize step settings label stack token = progress at *
    generalize step settings label stack' (token.shift k) = progress' at *
    cases steps with
    | flawed flaw => exact ⟨.nil, rfl⟩
    | inside left => exact ih left
    | done moved => exact ⟨.cons moved (ih .nil).1, (ih .nil).2⟩

end

/-! ### Behind a text that is complete -/

section

variable {settings : ReadSettings} {label : String} {cs : List Char} {nodes : List Node}
  {stop : Nat}

/-- The tokens of a text that is complete are whole. -/
theorem whole_of_complete
    (complete : readTokens settings label stop [] (Token.scan settings.comments 0 cs) =
      (nodes, none)) :
    ∀ token ∈ Token.scan settings.comments 0 cs, token.isBroken = false := by
  intro token mem
  rw [Bool.eq_false_iff]
  intro broken
  obtain ⟨flaw, stopped⟩ : ∃ flaw, (advance settings label [] _).2 = .error flaw :=
    advance_broken ⟨token, mem, broken⟩
  rw [← List.append_nil (Token.scan _ _ _),
    readTokens_append_of_error (Prod.ext rfl stopped)] at complete
  cases complete

/-- The tokens of a text that is complete stay what they are when text follows on a new
line, and the tokens of that text follow, further on. -/
theorem scan_of_complete
    (complete : readTokens settings label stop [] (Token.scan settings.comments 0 cs) =
      (nodes, none)) (more : List Char) :
    Token.scan settings.comments 0 (cs ++ '\n' :: more) =
      Token.scan settings.comments 0 cs ++
        (Token.scan settings.comments 0 more).map (Token.shift (byteLength cs + 1)) := by
  rw [scan_of_whole (whole_of_complete complete), scan_line, ← Token.scan_shift, Nat.zero_add,
    Nat.zero_add]

/-- Behind a text that is complete, nothing is left open. -/
theorem readTokens_behind {tokens : List Token}
    (complete : readTokens settings label stop [] tokens = (nodes, none)) (stop' : Nat)
    (more : List Token) :
    readTokens settings label stop' [] (tokens ++ more) =
      (nodes ++ (readTokens settings label stop' [] more).1,
        (readTokens settings label stop' [] more).2) := by
  rw [← List.append_nil tokens] at complete
  generalize advanced : advance settings label [] tokens = r
  obtain ⟨forms, flaw | left⟩ := r
  · rw [readTokens_append_of_error advanced] at complete
    cases complete
  · rw [readTokens_append advanced] at complete
    cases left with
    | nil =>
      obtain rfl : forms = nodes := by simpa [readTokens] using complete
      exact readTokens_append advanced more
    | cons pending left => cases complete

end

end Reading

/-- Exactly what is only trivia is read as no forms. -/
theorem Reading.all_eq_nil_iff (settings : ReadSettings) (label text : String) :
    (read settings label text).all = .ok [] ↔ Grammar.Trivia settings.comments text.toList [] := by
  rw [Reading.all_eq_ok_iff, Reading.readTokens_eq_iff]
  generalize text.toList = cs
  constructor
  · rintro ⟨program, _⟩
    cases program with
    | nil trivia => exact trivia
  · exact fun trivia => ⟨.nil trivia, by simp⟩

/-- What is wrong with a text, but not where. -/
def ReadError.unplaced (e : ReadError) : ReadError :=
  { e with place := .computed, context := none }

/-- Behind a text that is complete, a text on a new line is read as it is alone: as the same
forms, further on, up to the same flaw. -/
theorem read_joined {settings : ReadSettings} {label first : String} {forms : List Node}
    (complete : (read settings label first).all = .ok forms) (second : String) :
    let joined := read settings label (first ++ "\n" ++ second)
    ∃ later, joined.forms = forms ++ later ∧
      List.Forall₂ (Node.Shifted (first.utf8ByteSize + 1))
        (read settings label second).forms later ∧
      joined.error.map ReadError.unplaced =
        (read settings label second).error.map ReadError.unplaced := by
  rw [Reading.all_eq_ok_iff] at complete
  have cut : (first ++ "\n" ++ second).toList = first.toList ++ '\n' :: second.toList := by simp
  have lineFeed : Char.utf8Size '\n' = 1 := by decide
  have length : (first ++ "\n" ++ second).utf8ByteSize =
      second.utf8ByteSize + (first.utf8ByteSize + 1) := by
    rw [← Text.byteLength_toList, cut, Text.byteLength_append, Text.byteLength_cons,
      Text.byteLength_toList, Text.byteLength_toList, lineFeed]
    omega
  obtain ⟨nodes, flaws⟩ := Reading.readTokens_shift settings label
    (k := first.utf8ByteSize + 1) .nil second.utf8ByteSize
    (Token.scan settings.comments 0 second.toList)
  rw [← length] at nodes flaws
  have behind := Reading.readTokens_behind complete (first ++ "\n" ++ second).utf8ByteSize
    ((Token.scan settings.comments 0 second.toList).map (Token.shift (first.utf8ByteSize + 1)))
  rw [← Text.byteLength_toList first, ← Reading.scan_of_complete complete, ← cut,
    Text.byteLength_toList] at behind
  simp only [read, behind, flaws]
  refine ⟨_, rfl, nodes, ?_⟩
  rw [Option.map_map, Option.map_map, Option.map_map]
  rfl

end Sexpr
