/-
What the grammar derives is read.

The reader holds what is open on a stack, while the grammar is a tree. `Takes` says what the
reader has finished and left open behind a piece of a text. It takes a derived form and hands
its node to the stack (`takes_form`), and it does so for each form of a row (`takes_forms`
inside a bracket, `takes_top` outside). Where a node nests too deep for the stack, the reader
stops with that flaw and no other (`tooDeep_form`, `tooDeep_forms`, `tooDeep_top`).
-/

import Sexpr.Proofs.Node.Data
import Sexpr.Proofs.Reading.Token

namespace Sexpr

open Grammar
open Text (byteLength byteLength_nil byteLength_cons byteLength_append)

/-- What is open behind a token. -/
def Progress.left : Progress → List Pending
  | .inside stack => stack
  | .done _ => []

/-- The form that a token finishes, if any. -/
def Progress.finished : Progress → List Node
  | .inside _ => []
  | .done node => [node]

namespace Reading

variable {settings : ReadSettings} {label : String} {stop : Nat} {stack : List Pending}

/-! ### One token at a time -/

/-- Reads on after a token. -/
def resume (settings : ReadSettings) (label : String) (stop : Nat) :
    Progress → List Token → List Node × Option FlawAt
  | .inside stack, tokens => readTokens settings label stop stack tokens
  | .done node, tokens =>
    let (nodes, flaw) := readTokens settings label stop [] tokens
    (node :: nodes, flaw)

theorem readTokens_of_step {stack : List Pending} {token : Token} {progress : Progress}
    (h : step settings label stack token = .ok progress) (tokens : List Token) :
    readTokens settings label stop stack (token :: tokens)
      = resume settings label stop progress tokens := by
  rw [readTokens, h]
  cases progress <;> rfl

theorem readTokens_of_error {stack : List Pending} {token : Token} {flaw : FlawAt}
    (h : step settings label stack token = .error flaw) (tokens : List Token) :
    readTokens settings label stop stack (token :: tokens) = ([], some flaw) := by
  rw [readTokens, h]

/-- Every token but a closing bracket begins a form. -/
theorem step_eq_enter {stack : List Pending} {token : Token}
    (h : ∀ bracket, token.lexeme ≠ .closing bracket) :
    step settings label stack token = enter settings label stack token := by
  unfold step
  split
  · rename_i closing
    exact absurd closing (h _)
  · rfl

theorem step_tooDeep {stack : List Pending} {token : Token}
    (h : ∀ bracket, token.lexeme ≠ .closing bracket) (deep : settings.depth ≤ stack.length) :
    step settings label stack token = .error (.tooDeep settings.depth, token.start) := by
  rw [step_eq_enter h, enter, if_pos deep]

theorem step_leaf {stack : List Pending} {leaf : Leaf} {start stop : Nat}
    (room : stack.length < settings.depth) :
    step settings label stack ⟨.leaf leaf, start, stop⟩
      = .ok (deliver label stop (leaf.toNode (.within label start stop)) stack) := by
  rw [step_eq_enter (by simp), enter, if_neg (by omega)]

theorem step_opening {stack : List Pending} {bracket : Bracket} {start stop : Nat}
    (room : stack.length < settings.depth) :
    step settings label stack ⟨.opening bracket, start, stop⟩
      = .ok (.inside (.bracket bracket start [] :: stack)) := by
  rw [step_eq_enter (by simp), enter, if_neg (by omega)]

theorem step_quote {stack : List Pending} {start stop : Nat}
    (room : stack.length < settings.depth) :
    step settings label stack ⟨.quote, start, stop⟩ = .ok (.inside (.quote start :: stack)) := by
  rw [step_eq_enter (by simp), enter, if_neg (by omega)]

theorem close_eq_node (place : Place) (bracket : Bracket) (items : List Node) :
    close place bracket items = bracket.node place items.reverse := by
  cases bracket <;> rfl

theorem step_closing (bracket : Bracket) (start : Nat) (items : List Node)
    (stack : List Pending) (from' stop : Nat) :
    step settings label (.bracket bracket start items :: stack) ⟨.closing bracket, from', stop⟩
      = .ok (deliver label stop (bracket.node (.within label start stop) items.reverse) stack) := by
  show (if bracket = bracket then _ else _) = _
  rw [if_pos rfl, close_eq_node]

/-! ### Tokens behind one another -/

/-- Takes tokens one after the other; gives the forms that were finished and what is left
open, or the flaw. -/
def advance (settings : ReadSettings) (label : String) :
    List Pending → List Token → List Node × Except FlawAt (List Pending)
  | stack, [] => ([], .ok stack)
  | stack, token :: tokens =>
    match step settings label stack token with
    | .error flaw => ([], .error flaw)
    | .ok (.inside stack) => advance settings label stack tokens
    | .ok (.done node) =>
      let (nodes, left) := advance settings label [] tokens
      (node :: nodes, left)

theorem advance_of_step {token : Token} {progress : Progress}
    (h : step settings label stack token = .ok progress) (tokens : List Token) :
    advance settings label stack (token :: tokens) =
      (progress.finished ++ (advance settings label progress.left tokens).1,
        (advance settings label progress.left tokens).2) := by
  rw [advance, h]
  cases progress <;> rfl

theorem advance_of_error {token : Token} {flaw : FlawAt}
    (h : step settings label stack token = .error flaw) (tokens : List Token) :
    advance settings label stack (token :: tokens) = ([], .error flaw) := by
  rw [advance, h]

theorem resume_eq (progress : Progress) (tokens : List Token) :
    resume settings label stop progress tokens =
      (progress.finished ++ (readTokens settings label stop progress.left tokens).1,
        (readTokens settings label stop progress.left tokens).2) := by
  cases progress <;> rfl

/-- Tokens behind others are read where these have left off. -/
theorem readTokens_append {tokens : List Token} {nodes : List Node} {left : List Pending}
    (h : advance settings label stack tokens = (nodes, .ok left)) (more : List Token) :
    readTokens settings label stop stack (tokens ++ more) =
      (nodes ++ (readTokens settings label stop left more).1,
        (readTokens settings label stop left more).2) := by
  induction tokens generalizing stack nodes with
  | nil =>
    cases h
    rfl
  | cons token tokens ih =>
    cases stepped : step settings label stack token with
    | error flaw =>
      rw [advance_of_error stepped] at h
      cases h
    | ok progress =>
      rw [advance_of_step stepped] at h
      obtain ⟨rfl, taken⟩ := Prod.mk.inj h
      rw [List.cons_append, readTokens_of_step stepped, resume_eq, ih (Prod.ext rfl taken),
        List.append_assoc]

theorem advance_append {tokens : List Token} {nodes : List Node} {left : List Pending}
    (h : advance settings label stack tokens = (nodes, .ok left)) (more : List Token) :
    advance settings label stack (tokens ++ more) =
      (nodes ++ (advance settings label left more).1, (advance settings label left more).2) := by
  induction tokens generalizing stack nodes with
  | nil =>
    cases h
    rfl
  | cons token tokens ih =>
    cases stepped : step settings label stack token with
    | error flaw =>
      rw [advance_of_error stepped] at h
      cases h
    | ok progress =>
      rw [advance_of_step stepped] at h
      obtain ⟨rfl, taken⟩ := Prod.mk.inj h
      rw [List.cons_append, advance_of_step stepped, ih (Prod.ext rfl taken), List.append_assoc]

/-- Where a bracket ends: one byte for each of its ends. -/
theorem stop_sequence (offset : Nat) (bracket : Bracket) (body : List Char) :
    offset + byteLength (bracket.opening :: (body ++ [bracket.closing]))
      = offset + 1 + byteLength body + 1 := by
  have opening : bracket.opening.utf8Size = 1 := by cases bracket <;> decide
  have closing : bracket.closing.utf8Size = 1 := by cases bracket <;> decide
  rw [byteLength_cons, byteLength_append, byteLength_cons, byteLength_nil, opening, closing]
  omega

/-- Where a quoted form ends: one byte for the mark. -/
theorem stop_quoted (offset : Nat) (gap text : List Char) :
    offset + byteLength ('\'' :: (gap ++ text))
      = offset + 1 + byteLength gap + byteLength text := by
  have mark : Char.utf8Size '\'' = 1 := by decide
  rw [byteLength_cons, byteLength_append, mark]
  omega

/-- Where a row ends whose first form has trivia before it and forms behind it. -/
theorem stop_forms (offset : Nat) (gap text more : List Char) :
    offset + byteLength (gap ++ (text ++ more))
      = offset + byteLength gap + byteLength text + byteLength more := by
  rw [byteLength_append, byteLength_append]
  omega

/-- A whole token ends where its text does. -/
theorem stop_of_lexed {offset : Nat} {text rest : List Char} {token : Token}
    (h : Lexed offset (text ++ rest) token rest) : token.stop = offset + byteLength text := by
  generalize cut : text ++ rest = cs at h
  cases h with
  | opening bracket =>
    obtain rfl : text = [bracket.opening] := List.append_cancel_right cut
    cases bracket <;> rfl
  | closing bracket =>
    obtain rfl : text = [bracket.closing] := List.append_cancel_right cut
    cases bracket <;> rfl
  | quote =>
    obtain rfl : text = ['\''] := List.append_cancel_right cut
    rfl
  | word _ _ =>
    obtain rfl := List.append_cancel_right cut
    rfl
  | @text body _ _ _ =>
    obtain rfl : text = '"' :: (body ++ ['"']) := List.append_cancel_right (cut.trans (by simp))
    rfl

/-- Between `offset` and `rest` the reader takes the text, token by token: on the way it finishes
some forms, and it leaves some brackets and quote marks open. -/
def Takes (settings : ReadSettings) (label : String) (comments : Bool) (stack : List Pending)
    (offset : Nat) (text rest : List Char) (nodes : List Node) (left : List Pending) : Prop :=
  ∃ tokens, Token.scan comments offset (text ++ rest) =
      tokens ++ Token.scan comments (offset + byteLength text) rest ∧
    advance settings label stack tokens = (nodes, .ok left)

namespace Takes

variable {comments : Bool} {offset : Nat} {text rest : List Char} {left : List Pending}

theorem trivia {gap : List Char} (h : Trivia comments gap rest) :
    Takes settings label comments stack offset gap rest [] stack :=
  ⟨[], Token.scan_trivia h offset, rfl⟩

theorem token {token : Token} {progress : Progress} (lexed : Lexed offset (text ++ rest) token rest)
    (taken : step settings label stack token = .ok progress) :
    Takes settings label comments stack offset text rest progress.finished progress.left := by
  refine ⟨[token], ?_, ?_⟩
  · rw [Token.scan_lexed lexed, stop_of_lexed lexed, List.singleton_append]
  · rw [advance_of_step taken, advance, List.append_nil]

theorem append {more : List Char} {middle : List Pending} {nodes others : List Node}
    (h : Takes settings label comments stack offset text (more ++ rest) nodes middle)
    (h' : Takes settings label comments middle (offset + byteLength text) more rest others left) :
    Takes settings label comments stack offset (text ++ more) rest (nodes ++ others) left := by
  obtain ⟨tokens, scanned, taken⟩ := h
  obtain ⟨tokens', scanned', taken'⟩ := h'
  refine ⟨tokens ++ tokens', ?_, ?_⟩
  · rw [List.append_assoc, scanned, scanned', List.append_assoc, byteLength_append, Nat.add_assoc]
  · rw [advance_append taken, taken']

/-- Reading goes on behind what has been taken. -/
theorem read {nodes : List Node}
    (h : Takes settings label comments stack offset text rest nodes left) (stop : Nat) :
    readTokens settings label stop stack (Token.scan comments offset (text ++ rest)) =
      (nodes ++ (readTokens settings label stop left
          (Token.scan comments (offset + byteLength text) rest)).1,
        (readTokens settings label stop left
          (Token.scan comments (offset + byteLength text) rest)).2) := by
  obtain ⟨tokens, scanned, taken⟩ := h
  rw [scanned, readTokens_append taken]

end Takes

/-! ### What the grammar derives is read -/

/-- The node of a bracket nests as deep as its items say. -/
theorem nesting_node (bracket : Bracket) (place : Place) (items : List Node) :
    (bracket.node place items).nesting = Node.nestingAll items := by
  cases bracket <;> rfl

theorem nesting_toNode (leaf : Leaf) (place : Place) : (leaf.toNode place).nesting = 0 := by
  cases leaf <;> rfl

mutual

/-- The reader takes a form and hands its node to the stack. -/
theorem takes_form {comments : Bool} {offset : Nat} {text rest : List Char} {node : Node}
    (h : Grammar.Form comments label offset text rest node) (stack : List Pending)
    (room : stack.length + node.nesting < settings.depth) :
    let progress := deliver label (offset + byteLength text) node stack
    Takes settings label comments stack offset text rest progress.finished progress.left := by
  match h with
  | .word isWord boundary =>
    rw [nesting_toNode] at room
    exact .token (.word isWord boundary) (step_leaf room)
  | @Grammar.Form.text _ _ _ body _ _ quotes =>
    have lexed : Lexed offset ('"' :: (body ++ '"' :: rest)) _ rest := .text rest quotes
    rw [show '"' :: (body ++ '"' :: rest) = ('"' :: (body ++ ['"'])) ++ rest by simp] at lexed
    exact .token lexed (step_leaf (by omega))
  | @Grammar.Form.quoted _ _ _ gap text _ _ trivia form =>
    rw [Node.nesting] at room
    have mark : Takes settings label comments stack offset ['\''] (gap ++ text ++ rest) []
        (.quote offset :: stack) :=
      .token (.quote _) (step_quote (by omega))
    have inner := takes_form form (.quote offset :: stack)
      (by simp only [List.length_cons]; omega)
    rw [← stop_quoted] at inner
    exact mark.append ((Takes.trivia trivia).append inner)
  | @Grammar.Form.sequence _ _ _ bracket body _ items forms =>
    rw [nesting_node] at room
    have below : ∀ n ∈ items, stack.length + 1 + n.nesting < settings.depth := by
      intro n mem
      have := Node.nestingAll_le_iff.mp (Nat.le_refl _) n mem
      omega
    have opened : Takes settings label comments stack offset [bracket.opening]
        (body ++ [bracket.closing] ++ rest) [] (.bracket bracket offset [] :: stack) :=
      .token (.opening bracket _) (step_opening (by omega))
    have inner := takes_forms forms bracket offset [] stack below
    have closed : Takes settings label comments _ (offset + 1 + byteLength body)
        [bracket.closing] rest _ _ :=
      .token (.closing bracket rest) (step_closing bracket offset (items.reverse ++ []) stack _ _)
    rw [List.append_nil, List.reverse_reverse, ← stop_sequence offset bracket body] at closed
    rw [List.append_nil] at inner
    have start : offset + 1 = offset + byteLength [bracket.opening] := by cases bracket <;> rfl
    exact opened.append (start ▸ inner.append closed)

/-- Inside a bracket the reader takes a row of forms and keeps their nodes. -/
theorem takes_forms {comments : Bool} {offset : Nat} {text rest : List Char} {nodes : List Node}
    (h : Forms comments label offset text rest nodes) (bracket : Bracket) (start : Nat)
    (items : List Node) (stack : List Pending)
    (room : ∀ n ∈ nodes, stack.length + 1 + n.nesting < settings.depth) :
    Takes settings label comments (.bracket bracket start items :: stack) offset text rest []
      (.bracket bracket start (nodes.reverse ++ items) :: stack) := by
  match h with
  | .nil trivia => exact .trivia trivia
  | @Forms.cons _ _ _ gap text more _ node _ trivia form forms =>
    have first := takes_form form (.bracket bracket start items :: stack)
      (room node List.mem_cons_self)
    have others := takes_forms forms bracket start (node :: items) stack
      fun n mem => room n (List.mem_cons_of_mem node mem)
    rw [← List.append_assoc] at trivia
    rw [List.reverse_cons, List.append_assoc, List.singleton_append]
    exact (Takes.trivia trivia).append (first.append others)

end

/-- At the top level the reader takes a row of forms and gives their nodes. -/
theorem takes_top {comments : Bool} {offset : Nat} {text rest : List Char} {nodes : List Node}
    (h : Forms comments label offset text rest nodes)
    (room : ∀ n ∈ nodes, n.nesting < settings.depth) :
    Takes settings label comments [] offset text rest nodes [] := by
  match h with
  | .nil trivia => exact .trivia trivia
  | @Forms.cons _ _ _ gap text more _ node nodes trivia form forms =>
    have first : Takes settings label comments [] _ text (more ++ rest) [node] [] :=
      takes_form form [] (by simpa using room node List.mem_cons_self)
    have others := takes_top forms fun n mem => room n (List.mem_cons_of_mem node mem)
    rw [← List.append_assoc] at trivia
    exact (Takes.trivia trivia).append (first.append others)

/-- In front of a form the reader comes to its end and hands its node to the stack. -/
theorem readTokens_form {comments : Bool} {offset : Nat} {text rest : List Char} {node : Node}
    (h : Grammar.Form comments label offset text rest node) (stack : List Pending)
    (room : stack.length + node.nesting < settings.depth) :
    readTokens settings label stop stack (Token.scan comments offset (text ++ rest))
      = resume settings label stop (deliver label (offset + byteLength text) node stack)
          (Token.scan comments (offset + byteLength text) rest) := by
  rw [(takes_form h stack room).read, resume_eq]

/-- At the top level the reader goes over a row of forms and gives their nodes. -/
theorem readTokens_top {comments : Bool} {offset : Nat} {text rest : List Char}
    {nodes : List Node} (h : Forms comments label offset text rest nodes)
    (room : ∀ n ∈ nodes, n.nesting < settings.depth) :
    readTokens settings label stop [] (Token.scan comments offset (text ++ rest))
      = (nodes ++ (readTokens settings label stop []
            (Token.scan comments (offset + byteLength text) rest)).1,
          (readTokens settings label stop []
            (Token.scan comments (offset + byteLength text) rest)).2) :=
  (takes_top h room).read stop

/-! ### What nests too deep is refused -/

mutual

/-- A form that nests too deep for the stack is refused for that. -/
theorem tooDeep_form {comments : Bool} : ∀ {offset : Nat} {text rest : List Char} {node : Node},
    Grammar.Form comments label offset text rest node → ∀ stack : List Pending,
      settings.depth ≤ stack.length + node.nesting →
      ∃ place, readTokens settings label stop stack (Token.scan comments offset (text ++ rest))
        = ([], some (.tooDeep settings.depth, place))
  | offset, word, rest, _, .word isWord boundary, stack, deep => by
    rw [nesting_toNode] at deep
    rw [Token.scan_lexed (.word isWord boundary)]
    exact ⟨_, readTokens_of_error (step_tooDeep (by simp) deep) _⟩
  | offset, _, rest, _, .text quotes, stack, deep => by
    rw [List.cons_append, List.append_assoc, List.singleton_append,
      Token.scan_lexed (.text rest quotes)]
    exact ⟨_, readTokens_of_error (step_tooDeep (by simp) deep) _⟩
  | offset, _, rest, _, @Grammar.Form.quoted _ _ _ gap text _ _ trivia form, stack, deep => by
    rw [Node.nesting] at deep
    rw [List.cons_append, List.append_assoc, Token.scan_lexed (.quote _)]
    by_cases full : settings.depth ≤ stack.length
    · exact ⟨_, readTokens_of_error (step_tooDeep (by simp) full) _⟩
    · rw [readTokens_of_step (step_quote (by omega)), resume, Token.scan_trivia trivia]
      exact tooDeep_form form (.quote offset :: stack) (by simp only [List.length_cons]; omega)
  | offset, _, rest, _, @Grammar.Form.sequence _ _ _ bracket body _ items forms, stack, deep => by
    rw [nesting_node] at deep
    rw [List.cons_append, List.append_assoc, List.singleton_append,
      Token.scan_lexed (.opening bracket _)]
    by_cases full : settings.depth ≤ stack.length
    · exact ⟨_, readTokens_of_error (step_tooDeep (by simp) full) _⟩
    · rw [readTokens_of_step (step_opening (by omega)), resume]
      obtain ⟨n, mem, below⟩ := Node.exists_of_lt_nestingAll
        (show settings.depth - stack.length - 1 < Node.nestingAll items by omega)
      exact tooDeep_forms forms bracket offset [] stack ⟨n, mem, by omega⟩

theorem tooDeep_forms {comments : Bool} : ∀ {offset : Nat} {text rest : List Char}
    {nodes : List Node}, Forms comments label offset text rest nodes → ∀ (bracket : Bracket)
      (start : Nat) (items : List Node) (stack : List Pending),
      (∃ n ∈ nodes, settings.depth ≤ stack.length + 1 + n.nesting) →
      ∃ place, readTokens settings label stop (.bracket bracket start items :: stack)
          (Token.scan comments offset (text ++ rest))
        = ([], some (.tooDeep settings.depth, place))
  | offset, _, rest, _, .nil trivia, bracket, start, items, stack, deep => by
    obtain ⟨n, mem, _⟩ := deep
    cases mem
  | offset, _, rest, _, @Forms.cons _ _ _ gap text more _ node _ trivia form forms, bracket, start,
      items, stack, deep => by
    rw [List.append_assoc, List.append_assoc, Token.scan_trivia trivia]
    by_cases here : settings.depth ≤ stack.length + 1 + node.nesting
    · exact tooDeep_form form (.bracket bracket start items :: stack) here
    · rw [readTokens_form form (.bracket bracket start items :: stack) (Nat.lt_of_not_le here),
        deliver, resume]
      obtain ⟨n, mem, deep⟩ := deep
      rcases List.mem_cons.mp mem with rfl | later
      · exact absurd deep here
      · exact tooDeep_forms forms bracket start (node :: items) stack ⟨n, later, deep⟩

end

/-- At the top level the reader gives the nodes before the first that nests too deep. -/
theorem tooDeep_top {comments : Bool} : ∀ {offset : Nat} {text rest : List Char}
    {nodes : List Node}, Forms comments label offset text rest nodes →
      (∃ n ∈ nodes, settings.depth ≤ n.nesting) →
      ∃ place, readTokens settings label stop [] (Token.scan comments offset (text ++ rest))
        = (nodes.takeWhile (·.nesting < settings.depth), some (.tooDeep settings.depth, place))
  | offset, _, rest, _, .nil trivia, deep => by
    obtain ⟨n, mem, _⟩ := deep
    cases mem
  | offset, _, rest, _, @Forms.cons _ _ _ gap text more _ node nodes trivia form forms, deep => by
    rw [List.append_assoc, List.append_assoc, Token.scan_trivia trivia]
    by_cases here : settings.depth ≤ node.nesting
    · rw [List.takeWhile_cons_of_neg (by simpa using here)]
      exact tooDeep_form form [] (by simpa using here)
    · obtain ⟨n, mem, deep⟩ := deep
      rcases List.mem_cons.mp mem with rfl | later
      · exact absurd deep here
      · obtain ⟨place, read⟩ := tooDeep_top forms ⟨n, later, deep⟩
        refine ⟨place, ?_⟩
        rw [readTokens_form form [] (by simpa using here), deliver, resume, read,
          List.takeWhile_cons_of_pos (by simpa using here)]

end Reading

end Sexpr
