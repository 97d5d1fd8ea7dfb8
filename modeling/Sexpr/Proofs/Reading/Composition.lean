/-
Texts on lines that follow one another.

A line feed ends every word and every comment, so what the grammar derives at the end of a
text it also derives in front of a new line (`Forms.before`, `Forms.line`). Where a text stands
is a matter of places only (`Form.moved`, `Forms.moved`). Main statement: `Program.line`, a
text on the lines behind another text reads as the forms of the first and then those of the
second.
-/

import Sexpr.Proofs.Node.Data
import Sexpr.Proofs.Reading.Token

namespace Sexpr

open Text (byteLength byteLength_append)

namespace Grammar

variable {comments : Bool} {gap rest : List Char}

/-! ### In front of a new line -/

theorem Boundary.line (h : Boundary rest) (more : List Char) : Boundary (rest ++ '\n' :: more) := by
  cases rest with
  | nil =>
    rintro c ⟨⟩
    decide
  | cons c cs => exact h

theorem LineEnd.line (h : LineEnd rest) (more : List Char) : LineEnd (rest ++ '\n' :: more) := by
  cases rest with
  | nil =>
    rintro c ⟨⟩
    rfl
  | cons c cs => exact h

/-- Trivia may stand in front of another text, if a comment may end there too. -/
theorem Trivia.before (h : Trivia comments gap rest) (rest' : List Char)
    (ends : LineEnd rest → LineEnd rest') : Trivia comments gap rest' := by
  induction h with
  | nil => exact .nil
  | blank isBlank _ ih => exact .blank isBlank (ih ends)
  | @comment line gap rest on inside atEnd _ ih =>
    refine .comment on inside ?_ (ih ends)
    cases gap with
    | nil => exact ends atEnd
    | cons c gap => exact atEnd

theorem Trivia.line (h : Trivia comments gap rest) (more : List Char) :
    Trivia comments gap (rest ++ '\n' :: more) :=
  h.before _ fun atEnd => atEnd.line more

theorem Form.ne_nil {label : String} {offset : Nat} {text rest : List Char} {node : Node}
    (h : Form comments label offset text rest node) : text ≠ [] := by
  cases h with
  | word isWord _ => exact isWord.ne_nil
  | text _ => simp
  | quoted _ _ => simp
  | sequence _ => simp

mutual

/-- A form may stand in front of another text, if a word may end there too. -/
theorem Form.before {label : String} {offset : Nat} {text rest : List Char} {node : Node}
    (h : Form comments label offset text rest node) (rest' : List Char)
    (ends : Boundary rest → Boundary rest') : Form comments label offset text rest' node := by
  match h with
  | .word isWord boundary => exact .word isWord (ends boundary)
  | .text quotes => exact .text quotes
  | .quoted trivia form =>
    refine .quoted (trivia.before _ ?_) (form.before rest' ends)
    obtain ⟨c, cs, rfl⟩ := List.exists_cons_of_ne_nil form.ne_nil
    exact id
  | .sequence forms => exact .sequence (forms.before _ id id)

/-- Forms may stand in front of another text, if words and comments may end there too. -/
theorem Forms.before {label : String} {offset : Nat} {text rest : List Char} {nodes : List Node}
    (h : Forms comments label offset text rest nodes) (rest' : List Char)
    (ends : Boundary rest → Boundary rest') (lineEnds : LineEnd rest → LineEnd rest') :
    Forms comments label offset text rest' nodes := by
  match h with
  | .nil trivia => exact .nil (trivia.before rest' lineEnds)
  | @Forms.cons _ _ _ _ text more _ _ _ trivia form forms =>
    refine .cons (trivia.before _ ?_) (form.before _ ?_) (forms.before rest' ends lineEnds)
    · obtain ⟨c, cs, rfl⟩ := List.exists_cons_of_ne_nil form.ne_nil
      exact id
    · cases more with
      | nil => exact ends
      | cons c more => exact id

end

theorem Forms.line {label : String} {offset : Nat} {text rest : List Char} {nodes : List Node}
    (h : Forms comments label offset text rest nodes) (more : List Char) :
    Forms comments label offset text (rest ++ '\n' :: more) nodes :=
  h.before _ (fun boundary => boundary.line more) fun atEnd => atEnd.line more

/-! ### One row behind another -/

theorem Trivia.append {gap' : List Char} (h : Trivia comments gap (gap' ++ rest))
    (h' : Trivia comments gap' rest) : Trivia comments (gap ++ gap') rest := by
  generalize follows : gap' ++ rest = front at h
  induction h with
  | nil => exact h'
  | blank isBlank _ ih => exact .blank isBlank (ih follows)
  | @comment line gap _ on inside atEnd _ ih =>
    subst follows
    rw [List.cons_append, List.append_assoc]
    refine .comment on inside ?_ (ih rfl)
    rwa [List.append_assoc]

theorem Forms.behind {label : String} {offset : Nat} {text : List Char} {nodes : List Node}
    (trivia : Trivia comments gap (text ++ rest))
    (h : Forms comments label (offset + byteLength gap) text rest nodes) :
    Forms comments label offset (gap ++ text) rest nodes := by
  cases h with
  | nil inner => exact .nil (trivia.append inner)
  | @cons _ between text more _ _ _ inner form forms =>
    rw [← List.append_assoc gap between]
    simp only [List.append_assoc] at trivia
    have both : Trivia comments (gap ++ between) (text ++ (more ++ rest)) := trivia.append inner
    have start : offset + byteLength gap + byteLength between =
        offset + byteLength (gap ++ between) := by
      rw [byteLength_append, Nat.add_assoc]
    rw [start] at form forms
    exact .cons both form forms

theorem Forms.append {label : String} {offset : Nat} {a b : List Char} {ns ms : List Node}
    (h : Forms comments label offset a (b ++ rest) ns)
    (k : Forms comments label (offset + byteLength a) b rest ms) :
    Forms comments label offset (a ++ b) rest (ns ++ ms) := by
  match h with
  | .nil trivia => exact k.behind trivia
  | @Forms.cons _ _ _ gap text more _ node nodes trivia form forms =>
    have start : offset + byteLength (gap ++ (text ++ more)) =
        offset + byteLength gap + byteLength text + byteLength more := by
      simp only [byteLength_append]
      omega
    rw [start] at k
    have tail := forms.append k
    rw [← List.append_assoc more] at trivia form
    simp only [List.append_assoc gap, List.append_assoc text]
    exact .cons trivia form tail

/-! ### At another place -/

theorem Leaf.unplaced_toNode (leaf : Leaf) (p q : Place) :
    (leaf.toNode p).unplaced = (leaf.toNode q).unplaced := by
  cases leaf <;> rfl

mutual

theorem Form.moved {label : String} {offset : Nat} {text rest : List Char} {node : Node}
    (h : Form comments label offset text rest node) (label' : String) (offset' : Nat) :
    ∃ node', Form comments label' offset' text rest node' ∧ node'.unplaced = node.unplaced := by
  match h with
  | .word isWord boundary => exact ⟨_, .word isWord boundary, Leaf.unplaced_toNode _ _ _⟩
  | .text quotes => exact ⟨_, .text quotes, rfl⟩
  | .quoted trivia form =>
    obtain ⟨inner, form, same⟩ := form.moved label' _
    exact ⟨_, .quoted trivia form, by simp only [Node.unplaced, same]⟩
  | @Form.sequence _ _ _ bracket _ _ _ forms =>
    obtain ⟨items, forms, same⟩ := forms.moved label' _
    refine ⟨_, .sequence forms, ?_⟩
    cases bracket with
    | round => exact congrArg (Node.call .computed) same
    | square => exact congrArg (Node.vector .computed) same

theorem Forms.moved {label : String} {offset : Nat} {text rest : List Char} {nodes : List Node}
    (h : Forms comments label offset text rest nodes) (label' : String) (offset' : Nat) :
    ∃ nodes', Forms comments label' offset' text rest nodes' ∧
      Node.unplacedAll nodes' = Node.unplacedAll nodes := by
  match h with
  | .nil trivia => exact ⟨[], .nil trivia, rfl⟩
  | .cons trivia form forms =>
    obtain ⟨node, form, sameNode⟩ := form.moved label' _
    obtain ⟨nodes, forms, sameNodes⟩ := forms.moved label' _
    refine ⟨_, .cons trivia form forms, ?_⟩
    simp only [Node.unplacedAll, sameNode, sameNodes]

end

/-- A text on the lines behind another reads as the forms of both, wherever the two were
read before. -/
theorem Program.line {first second : String} {a b : List Char} {ns ms : List Node}
    (h : Program comments first a ns) (k : Program comments second b ms) (label : String) :
    ∃ nodes, Program comments label (a ++ '\n' :: b) nodes ∧
      Node.unplacedAll nodes = Node.unplacedAll ns ++ Node.unplacedAll ms := by
  obtain ⟨ns', h, sameFirst⟩ := Forms.moved h label 0
  obtain ⟨ms', k, sameSecond⟩ := Forms.moved k label (byteLength a + 1)
  have line : Trivia comments ['\n'] (b ++ []) := .blank (by decide) .nil
  have k : Forms comments label (0 + byteLength a) ('\n' :: b) [] ms' := by
    refine Forms.behind line ?_
    rwa [Nat.zero_add]
  have h := h.line b
  rw [List.nil_append, ← List.append_nil ('\n' :: b)] at h
  refine ⟨ns' ++ ms', h.append k, ?_⟩
  rw [Node.unplacedAll_append, sameFirst, sameSecond]

end Grammar

end Sexpr
