/-
The reader accepts exactly its grammar.

`Awaits` says what a stack still demands of the text: every bracket its remaining
items and its closing, every quote mark its form, and the top level a row of forms.
`awaits_readTokens` says that a reading without flaw meets the demand; its induction
goes over the text that is left, one token at a time. With nothing open, the demand
is the grammar itself, and with what `Sexpr.Proofs.Reading.Completeness` says of
derived texts this gives the main statement, `read_all_eq_ok_iff`.
-/

import Sexpr.Proofs.Reading.Completeness

namespace Sexpr

open Grammar
open Text (byteLength)

namespace Reading

variable {settings : ReadSettings} {comments : Bool} {label : String} {stop : Nat}

/-! ### What a stack demands of the text -/

/-- What follows a node that is handed to a stack: each open bracket takes more items
and closes, and what comes after the outermost one is a row of forms. -/
def Closes (comments : Bool) (label : String) :
    List Pending → Node → (offset : Nat) → (cs : List Char) → List Node → Prop
  | [], node, offset, cs, nodes =>
    ∃ more, nodes = node :: more ∧ Forms comments label offset cs [] more
  | .quote start :: stack, node, offset, cs, nodes =>
    Closes comments label stack (.quoted (.within label start offset) node) offset cs nodes
  | .bracket bracket start items :: stack, node, offset, cs, nodes =>
    ∃ body rest more, cs = body ++ bracket.closing :: rest ∧
      Forms comments label offset body (bracket.closing :: rest) more ∧
      Closes comments label stack
        (bracket.node (.within label start (offset + byteLength body + 1))
          (items.reverse ++ node :: more))
        (offset + byteLength body + 1) rest nodes

/-- What a stack demands of the text where a form may begin. -/
def Awaits (comments : Bool) (label : String) :
    List Pending → (offset : Nat) → (cs : List Char) → List Node → Prop
  | [], offset, cs, nodes => Forms comments label offset cs [] nodes
  | .quote start :: stack, offset, cs, nodes =>
    ∃ gap text rest inner, cs = gap ++ (text ++ rest) ∧ Trivia comments gap (text ++ rest) ∧
      Grammar.Form comments label (offset + byteLength gap) text rest inner ∧
      Closes comments label (.quote start :: stack) inner
        (offset + byteLength gap + byteLength text) rest nodes
  | .bracket bracket start items :: stack, offset, cs, nodes =>
    ∃ body rest more, cs = body ++ bracket.closing :: rest ∧
      Forms comments label offset body (bracket.closing :: rest) more ∧
      Closes comments label stack
        (bracket.node (.within label start (offset + byteLength body + 1)) (items.reverse ++ more))
        (offset + byteLength body + 1) rest nodes

/-- What the reader demands after a token. -/
def Follows (comments : Bool) (label : String) (offset : Nat) (cs : List Char)
    (nodes : List Node) : Progress → Prop
  | .inside stack => Awaits comments label stack offset cs nodes
  | .done node => ∃ more, nodes = node :: more ∧ Forms comments label offset cs [] more

/-- A delivered node leaves the demand of the stack that it was handed to. -/
theorem closes_of_deliver {stack : List Pending} {node : Node} {offset : Nat} {cs : List Char}
    {nodes : List Node}
    (h : Follows comments label offset cs nodes (deliver label offset node stack)) :
    Closes comments label stack node offset cs nodes := by
  induction stack generalizing node with
  | nil => exact h
  | cons pending stack ih =>
    cases pending with
    | quote start => exact ih h
    | bracket bracket start items =>
      obtain ⟨body, rest, more, cut, forms, closes⟩ := h
      refine ⟨body, rest, more, cut, forms, ?_⟩
      rw [List.reverse_cons, List.append_assoc, List.singleton_append] at closes
      exact closes

/-- A form in front of what the stack demands after it meets the demand of the stack. -/
theorem awaits_of_form {stack : List Pending} {offset : Nat} {gap text rest : List Char}
    {node : Node} {nodes : List Node} (trivia : Trivia comments gap (text ++ rest))
    (form : Grammar.Form comments label (offset + byteLength gap) text rest node)
    (closes : Closes comments label stack node (offset + byteLength gap + byteLength text) rest
      nodes) :
    Awaits comments label stack offset (gap ++ (text ++ rest)) nodes := by
  cases stack with
  | nil =>
    obtain ⟨more, rfl, forms⟩ := closes
    rw [← List.append_nil rest] at trivia form
    exact .cons trivia form forms
  | cons pending stack =>
    cases pending with
    | quote start => exact ⟨gap, text, rest, node, rfl, trivia, form, closes⟩
    | bracket bracket start items =>
      obtain ⟨body, rest, more, rfl, forms, closes⟩ := closes
      rw [← stop_forms] at closes
      exact ⟨gap ++ (text ++ body), rest, node :: more, by simp [List.append_assoc],
        .cons trivia form forms, closes⟩

/-! ### A reading without flaw meets the demand -/

/-- A reading without flaw goes on after its first token. -/
theorem step_of_readTokens {stack : List Pending} {token : Token} {tokens : List Token}
    {nodes : List Node}
    (h : readTokens settings label stop stack (token :: tokens) = (nodes, none)) :
    ∃ progress, step settings label stack token = .ok progress ∧
      resume settings label stop progress tokens = (nodes, none) := by
  cases stepped : step settings label stack token with
  | error flaw =>
    rw [readTokens_of_error stepped] at h
    cases h
  | ok progress =>
    rw [readTokens_of_step stepped] at h
    exact ⟨progress, rfl, h⟩

theorem room_of_step {stack : List Pending} {token : Token} {progress : Progress}
    (begins : ∀ bracket, token.lexeme ≠ .closing bracket)
    (h : step settings label stack token = .ok progress) : stack.length < settings.depth := by
  rcases Nat.lt_or_ge stack.length settings.depth with room | full
  · exact room
  · rw [step_tooDeep begins full] at h
    cases h

theorem step_broken {stack : List Pending} {token : Token} (h : token.isBroken = true) :
    ∃ flaw, step settings label stack token = .error flaw := by
  obtain ⟨lexeme, start, stop⟩ := token
  cases lexeme with
  | broken flaw offset =>
    rw [step_eq_enter (by simp), enter]
    split
    · exact ⟨_, rfl⟩
    · exact ⟨_, rfl⟩
  | _ => cases h

/-- A closing bracket ends the innermost bracket, if that is of its kind, and nothing else. -/
theorem step_closing_inv {stack : List Pending} {bracket : Bracket} {start stop : Nat}
    {progress : Progress}
    (h : step settings label stack ⟨.closing bracket, start, stop⟩ = .ok progress) :
    ∃ begun items outer, stack = .bracket bracket begun items :: outer ∧
      progress =
        deliver label stop (bracket.node (.within label begun stop) items.reverse) outer := by
  unfold step at h
  split at h
  · rename_i kind begun items outer found same
    obtain rfl : bracket = found := Lexeme.closing.inj same
    split at h
    · rename_i matched
      subst matched
      rw [close_eq_node] at h
      exact ⟨begun, items, outer, rfl, (Except.ok.inj h).symm⟩
    · cases h
  · unfold enter at h
    split at h
    · cases h
    · cases h

/-- A reading without flaw meets the demand of its stack. -/
theorem awaits_readTokens {stack : List Pending} {offset : Nat} {cs : List Char}
    {nodes : List Node}
    (h : readTokens settings label stop stack (Token.scan comments offset cs) = (nodes, none)) :
    Awaits comments label stack offset cs nodes := by
  induction size : cs.length using Nat.strongRecOn generalizing stack offset cs nodes with
  | ind size ih =>
  rcases Token.scan_cases comments offset cs with
    ⟨trivia, scanned⟩ | ⟨token, broken, scanned⟩ |
      ⟨gap, text, token, rest, rfl, trivia, lexed, shorter, scanned⟩
  · rw [scanned] at h
    cases stack with
    | nil =>
      cases h
      exact .nil trivia
    | cons pending stack => cases h
  · rw [scanned] at h
    obtain ⟨progress, stepped, _⟩ := step_of_readTokens h
    obtain ⟨flaw, failed⟩ := step_broken broken
    rw [failed] at stepped
    cases stepped
  · rw [scanned] at h
    obtain ⟨progress, stepped, resumed⟩ := step_of_readTokens h
    -- the text behind the token is shorter, so what is said of it is known
    have follows : Follows comments label token.stop rest nodes progress := by
      cases progress with
      | inside stack => exact ih rest.length (size ▸ shorter) resumed rfl
      | done node =>
        obtain ⟨rfl, noFlaw⟩ := Prod.mk.inj resumed
        exact ⟨_, rfl, ih rest.length (size ▸ shorter) (Prod.ext rfl noFlaw) rfl⟩
    cases lexed with
    | opening bracket =>
      rw [step_opening (room_of_step (by simp) stepped)] at stepped
      cases stepped
      obtain ⟨body, rest, more, rfl, forms, closes⟩ := follows
      have form : Grammar.Form comments label (offset + byteLength gap) _ rest _ := .sequence forms
      rw [List.reverse_nil, List.nil_append, ← stop_sequence] at closes
      rw [show bracket.opening :: (body ++ bracket.closing :: rest)
        = (bracket.opening :: (body ++ [bracket.closing])) ++ rest by simp] at trivia ⊢
      exact awaits_of_form trivia form closes
    | closing bracket =>
      obtain ⟨begun, items, outer, rfl, rfl⟩ := step_closing_inv stepped
      refine ⟨gap, rest, [], rfl, .nil trivia, ?_⟩
      rw [List.append_nil]
      exact closes_of_deliver follows
    | quote =>
      rw [step_quote (room_of_step (by simp) stepped)] at stepped
      cases stepped
      obtain ⟨inside, text, rest, inner, rfl, between, form, closes⟩ := follows
      have quoted : Grammar.Form comments label (offset + byteLength gap) _ rest _ :=
        .quoted between form
      rw [← stop_quoted] at closes
      rw [show '\'' :: (inside ++ (text ++ rest)) = ('\'' :: (inside ++ text)) ++ rest by
        simp] at trivia ⊢
      exact awaits_of_form trivia quoted closes
    | @word word _ leaf isWord boundary =>
      rw [step_leaf (room_of_step (by simp) stepped)] at stepped
      cases stepped
      exact awaits_of_form trivia (.word isWord boundary) (closes_of_deliver follows)
    | @text body value _ quotes =>
      rw [step_leaf (room_of_step (by simp) stepped)] at stepped
      cases stepped
      rw [show '"' :: (body ++ '"' :: rest) = ('"' :: (body ++ ['"'])) ++ rest by simp] at trivia ⊢
      exact awaits_of_form trivia (.text quotes) (closes_of_deliver follows)

/-! ### Readings and programs -/

/-- A program that does not nest too deep is read. -/
theorem readTokens_program {cs : List Char} {nodes : List Node}
    (program : Program comments label cs nodes) (room : ∀ n ∈ nodes, n.nesting < settings.depth) :
    readTokens settings label stop [] (Token.scan comments 0 cs) = (nodes, none) := by
  have read : readTokens settings label stop [] _ = _ := readTokens_top program room
  rw [List.append_nil, Token.scan_nil] at read
  rw [read, readTokens, List.append_nil]

/-- The reader has no flaw to report exactly when the text is a program that does not
nest too deep. -/
theorem readTokens_eq_iff {cs : List Char} {nodes : List Node} :
    readTokens settings label stop [] (Token.scan comments 0 cs) = (nodes, none) ↔
      Program comments label cs nodes ∧ ∀ n ∈ nodes, n.nesting < settings.depth := by
  constructor
  · intro read
    have program : Program comments label cs nodes := awaits_readTokens read
    refine ⟨program, ?_⟩
    intro n mem
    apply Nat.lt_of_not_le
    intro deep
    obtain ⟨place, refused⟩ : ∃ place, readTokens settings label stop [] _ = _ :=
      tooDeep_top program ⟨n, mem, deep⟩
    rw [List.append_nil, read] at refused
    cases (Prod.mk.inj refused).2
  · rintro ⟨program, room⟩
    exact readTokens_program program room

/-- A text is a program in one way only. -/
theorem program_unique {cs : List Char} {nodes others : List Node}
    (h : Program comments label cs nodes) (k : Program comments label cs others) :
    nodes = others := by
  -- a reader with room for both readings gives both
  let roomy : ReadSettings := ⟨comments, max (Node.nestingAll nodes) (Node.nestingAll others)⟩
  have first : readTokens roomy label 0 [] _ = _ :=
    readTokens_program h (Node.nestingAll_le_iff.mp (Nat.le_max_left _ _))
  have second : readTokens roomy label 0 [] _ = _ :=
    readTokens_program k (Node.nestingAll_le_iff.mp (Nat.le_max_right _ _))
  exact (Prod.mk.inj (first.symm.trans second)).1

end Reading

theorem Reading.all_eq_ok_iff {settings : ReadSettings} {label text : String}
    {nodes : List Node} :
    (read settings label text).all = .ok nodes ↔
      Reading.readTokens settings label text.utf8ByteSize []
        (Token.scan settings.comments 0 text.toList) = (nodes, none) := by
  simp only [read, Reading.all]
  generalize readTokens settings label text.utf8ByteSize []
    (Token.scan settings.comments 0 text.toList) = reading
  obtain ⟨forms, flaw⟩ := reading
  cases flaw <;> simp

/-- The reader accepts a text as a list of nodes exactly when the grammar derives the
text with these nodes and none of them nests too deep; and the grammar derives no text
with two lists of nodes. -/
theorem read_all_eq_ok_iff (settings : ReadSettings) (label text : String) (nodes : List Node) :
    ((read settings label text).all = .ok nodes ↔
      Program settings.comments label text.toList nodes ∧
        ∀ n ∈ nodes, n.nesting < settings.depth) ∧
    ∀ others, Program settings.comments label text.toList nodes →
      Program settings.comments label text.toList others → nodes = others := by
  refine ⟨?_, fun others => Reading.program_unique⟩
  rw [Reading.all_eq_ok_iff, Reading.readTokens_eq_iff]

end Sexpr
