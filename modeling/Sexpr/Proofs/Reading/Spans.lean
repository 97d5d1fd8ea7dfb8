/-
The spans of what is read.

The grammar derives every part of a form from a piece of the text of the form
(`Grammar.Form.occurs_of_mem_parts`), and the pieces of the items of a row lie behind one
another (`Grammar.Forms.spaced`). A piece alone is read as the part that it was, only that it
begins at offset zero (`Reading.readOne_of_form`). Main statement: `read_spans`.
-/

import Sexpr.Proofs.Node.Parts
import Sexpr.Proofs.Reading.Prefix
import Sexpr.Proofs.Reading.RoundTrip
import Sexpr.Proofs.Reading.Shift

namespace Sexpr

open Grammar
open Text (byteLength byteLength_nil byteLength_cons byteLength_append)

/-! ### Parts and children -/

namespace Node

/-- The nodes directly inside of a node. -/
def children : Node → List Node
  | .call _ items | .vector _ items => items
  | .quoted _ inner => [inner]
  | .closure _ _ body => [body]
  | _ => []

/-- The first node ends before the second begins. -/
def Before (a b : Node) : Prop :=
  ∃ s t, a.place.span = some s ∧ b.place.span = some t ∧ s.stop ≤ t.start

end Node

namespace Grammar

variable {comments : Bool} {label : String}

/-- The grammar derives the node from a piece of a text that stands at an offset. -/
def Occurs (comments : Bool) (label : String) (offset : Nat) (text : List Char) (n : Node) :
    Prop :=
  ∃ front piece back rest, text = front ++ (piece ++ back) ∧
    Form comments label (offset + byteLength front) piece rest n

theorem Form.occurs {offset : Nat} {text rest : List Char} {n : Node}
    (h : Form comments label offset text rest n) : Occurs comments label offset text n :=
  ⟨[], text, [], rest, by simp, h⟩

/-- What occurs in a piece of a text occurs in the text. -/
theorem Occurs.within {offset : Nat} {text : List Char} {n : Node} {front : List Char}
    (h : Occurs comments label (offset + byteLength front) text n) (back : List Char) :
    Occurs comments label offset (front ++ (text ++ back)) n := by
  obtain ⟨before, piece, behind, rest, rfl, form⟩ := h
  refine ⟨front ++ before, piece, behind ++ back, rest, by simp, ?_⟩
  rwa [byteLength_append, ← Nat.add_assoc]

/-- A form stands where its text does. -/
theorem Form.place_eq {offset : Nat} {text rest : List Char} {n : Node}
    (h : Form comments label offset text rest n) : n.place = placeOf label offset text := by
  cases h with
  | @word _ _ _ leaf _ _ => cases leaf <;> rfl
  | text _ => rfl
  | quoted _ _ => rfl
  | @sequence _ bracket _ _ _ _ => cases bracket <;> rfl

theorem parts_toNode (leaf : Leaf) (p : Place) : (leaf.toNode p).parts = [leaf.toNode p] := by
  cases leaf <;> rfl

theorem parts_node (bracket : Bracket) (p : Place) (items : List Node) :
    (bracket.node p items).parts = bracket.node p items :: Node.partsAll items := by
  cases bracket <;> rfl

mutual

/-- Every part of a form occurs in the text of the form, and nests no deeper. -/
theorem Form.occurs_of_mem_parts {offset : Nat} {text rest : List Char} {n part : Node}
    (h : Form comments label offset text rest n) (mem : part ∈ n.parts) :
    Occurs comments label offset text part ∧ part.nesting ≤ n.nesting := by
  have whole := h.occurs
  match h with
  | .word _ _ =>
    rw [parts_toNode] at mem
    obtain rfl := List.mem_singleton.mp mem
    exact ⟨whole, Nat.le_refl _⟩
  | .text _ =>
    obtain rfl := List.mem_singleton.mp mem
    exact ⟨whole, Nat.le_refl _⟩
  | @Form.quoted _ _ _ gap text _ inner _ form =>
    rcases List.mem_cons.mp mem with rfl | inside
    · exact ⟨whole, Nat.le_refl _⟩
    · obtain ⟨occurs, nests⟩ := form.occurs_of_mem_parts inside
      have mark : Char.utf8Size '\'' = 1 := by decide
      have start : offset + 1 + byteLength gap = offset + byteLength ('\'' :: gap) := by
        rw [byteLength_cons, mark, Nat.add_assoc]
      rw [start] at occurs
      have further := occurs.within []
      rw [List.append_nil, List.cons_append] at further
      exact ⟨further, Nat.le_succ_of_le nests⟩
  | @Form.sequence _ _ _ bracket body _ items forms =>
    rw [parts_node] at mem
    rw [Reading.nesting_node]
    rcases List.mem_cons.mp mem with rfl | inside
    · exact ⟨whole, by rw [Reading.nesting_node]⟩
    · obtain ⟨occurs, nests⟩ := forms.occurs_of_mem_parts inside
      have opening : bracket.opening.utf8Size = 1 := by cases bracket <;> decide
      have start : offset + 1 = offset + byteLength [bracket.opening] := by
        rw [byteLength_cons, opening, byteLength_nil]
      rw [start] at occurs
      exact ⟨occurs.within [bracket.closing], Nat.le_of_lt nests⟩

/-- Every part of the forms of a row occurs in the text of the row. -/
theorem Forms.occurs_of_mem_parts {offset : Nat} {text rest : List Char} {nodes : List Node}
    {part : Node} (h : Forms comments label offset text rest nodes)
    (mem : part ∈ Node.partsAll nodes) :
    Occurs comments label offset text part ∧ part.nesting < Node.nestingAll nodes := by
  match h with
  | .nil _ => cases mem
  | @Forms.cons _ _ _ gap text more _ node nodes _ form forms =>
    rw [Node.nestingAll]
    rcases List.mem_append.mp mem with first | others
    · obtain ⟨occurs, nests⟩ := form.occurs_of_mem_parts first
      exact ⟨occurs.within more, by omega⟩
    · obtain ⟨occurs, nests⟩ := forms.occurs_of_mem_parts others
      rw [Nat.add_assoc, ← byteLength_append] at occurs
      have further := occurs.within []
      rw [List.append_nil, List.append_assoc] at further
      exact ⟨further, by omega⟩

end

/-! ### Children lie in order -/

theorem span_placeOf (offset : Nat) (text : List Char) :
    (placeOf label offset text).span =
      some ⟨offset, offset + byteLength text, Nat.le_add_right _ _⟩ := by
  simp [placeOf, Place.within, Span.between]

/-- The spans of nodes lie behind one another, between two offsets. -/
def Spaced (start stop : Nat) (nodes : List Node) : Prop :=
  nodes.Pairwise Node.Before ∧
    ∀ n ∈ nodes, ∃ span, n.place.span = some span ∧ start ≤ span.start ∧ span.stop ≤ stop

/-- The forms of a row lie behind one another in the text of the row. -/
theorem Forms.spaced {offset : Nat} {text rest : List Char} {nodes : List Node}
    (h : Forms comments label offset text rest nodes) :
    Spaced offset (offset + byteLength text) nodes := by
  induction nodes generalizing offset text with
  | nil => exact ⟨.nil, by simp⟩
  | cons node nodes ih =>
    obtain _ | @⟨_, gap, text, more, _, _, _, _, form, forms⟩ := h
    obtain ⟨ordered, inside⟩ := ih forms
    have here : node.place.span = _ := form.place_eq ▸ span_placeOf _ _
    have length : offset + byteLength (gap ++ (text ++ more)) =
        offset + byteLength gap + byteLength text + byteLength more := Reading.stop_forms ..
    constructor
    · refine .cons (fun n mem => ?_) ordered
      obtain ⟨span, isSpan, after, _⟩ := inside n mem
      exact ⟨_, span, here, isSpan, after⟩
    · refine List.forall_mem_cons.mpr ⟨⟨_, here, ?_, ?_⟩, fun n mem => ?_⟩
      · dsimp only
        omega
      · dsimp only
        omega
      · obtain ⟨span, isSpan, after, until'⟩ := inside n mem
        exact ⟨span, isSpan, by omega, by omega⟩

/-- The children of a form lie behind one another, and behind the start of the form. -/
theorem Form.spaced_children {offset : Nat} {text rest : List Char} {n : Node}
    (h : Form comments label offset text rest n) :
    Spaced (offset + 1) (offset + byteLength text) n.children := by
  cases h with
  | @word _ _ _ leaf _ _ => cases leaf <;> exact ⟨.nil, by simp [Leaf.toNode, Node.children]⟩
  | text _ => exact ⟨.nil, by simp [Node.children]⟩
  | @quoted _ gap text _ inner _ form =>
    have here : inner.place.span = _ := form.place_eq ▸ span_placeOf _ _
    refine ⟨List.pairwise_singleton _ _, List.forall_mem_singleton.mpr ⟨_, here, ?_, ?_⟩⟩
    · exact Nat.le_add_right _ _
    · rw [Reading.stop_quoted]
  | @sequence _ bracket body _ items forms =>
    obtain ⟨ordered, inside⟩ := forms.spaced
    have same : (bracket.node (placeOf label offset
        (bracket.opening :: (body ++ [bracket.closing]))) items).children = items := by
      cases bracket <;> rfl
    rw [same, Reading.stop_sequence]
    refine ⟨ordered, fun n mem => ?_⟩
    obtain ⟨span, isSpan, after, until'⟩ := inside n mem
    exact ⟨span, isSpan, after, Nat.le_succ_of_le until'⟩

end Grammar

/-! ### Reading a piece alone -/

/-- The piece of a text that a node was read from is read as that node, from offset zero. -/
theorem Reading.readOne_of_form {settings : ReadSettings} {label : String} {offset : Nat}
    {piece rest : List Char} {n : Node}
    (form : Grammar.Form settings.comments label offset piece rest n)
    (room : n.nesting < settings.depth) :
    ∃ m, readOne settings label (String.ofList piece) = .ok m ∧ m.Shifted offset n := by
  have alone := form.before [] fun _ => by simp [Boundary]
  have further : readTokens settings label (byteLength piece + offset) [] _ = _ :=
    readTokens_form alone [] (by simpa using room)
  rw [List.append_nil, Token.scan_nil, ← Nat.zero_add offset, Token.scan_shift, deliver, resume,
    readTokens, Nat.zero_add] at further
  obtain ⟨nodes, flaws⟩ := @readTokens_shift settings label offset _ _ .nil
    (byteLength piece) (Token.scan settings.comments 0 piece)
  generalize reading : readTokens settings label (byteLength piece) [] _ = r at nodes flaws
  obtain ⟨first, flaw⟩ := r
  rw [further] at nodes flaws
  obtain ⟨m, _, moved, ⟨⟩, rfl⟩ := List.forall₂_cons_right_iff.mp nodes
  obtain rfl : flaw = none := Option.map_eq_none_iff.mp flaws.symm
  have length : (String.ofList piece).utf8ByteSize = byteLength piece := by
    rw [← Text.byteLength_toList, String.toList_ofList]
  refine ⟨m, ?_, moved⟩
  rw [readOne, String.toList_ofList, length, readFirst_eq_ok_iff.mpr reading]

/-- The forms that are read from a text are the program of a beginning of it. -/
theorem Reading.program_of_forms (settings : ReadSettings) (label text : String) :
    let forms := (read settings label text).forms
    ∃ front rest, text.toList = front ++ rest ∧ Program settings.comments label front forms ∧
      ∀ n ∈ forms, n.nesting < settings.depth := by
  obtain ⟨front, rest, cut, goesOn⟩ := @forms_cut settings label text.utf8ByteSize
    settings.comments text.toList
  have alone := goesOn [] (fun _ => by simp [Boundary]) 0
  simp only [Token.scan_nil, readTokens, List.append_nil] at alone
  exact ⟨front, rest, cut, readTokens_eq_iff.mp alone⟩

/-- Spans are faithful. The forms of a text lie behind one another. So do the children of every
part of a form, and they lie inside its span and behind the start of it. The span covers a
piece of the text, and the piece alone is read as that part, only that spans begin at zero. -/
theorem read_spans (settings : ReadSettings) (label text : String) :
    let forms := (read settings label text).forms
    forms.Pairwise Node.Before ∧
    ∀ form ∈ forms, ∀ n ∈ form.parts, ∃ span, n.place = ⟨label, some span⟩ ∧
      span.start < span.stop ∧ span.stop ≤ text.utf8ByteSize ∧
      n.children.Pairwise Node.Before ∧
      (∀ child ∈ n.children, ∃ inner, child.place.span = some inner ∧
        span.start < inner.start ∧ inner.stop ≤ span.stop) ∧
      ∃ piece m, Text.slice? text span.start span.stop = some piece ∧
        readOne settings label (String.ofList piece) = .ok m ∧ m.Shifted span.start n := by
  intro forms
  obtain ⟨_, behind, cut, program, room⟩ := Reading.program_of_forms settings label text
  refine ⟨program.spaced.1, fun form mem n part => ?_⟩
  obtain ⟨⟨front, piece, after, rest, rfl, derived⟩, nests⟩ :=
    program.occurs_of_mem_parts (Node.mem_partsAll.mpr ⟨form, mem, part⟩)
  rw [Nat.zero_add] at derived
  have cut : text.toList = front ++ (piece ++ (after ++ behind)) := by simp [cut]
  obtain ⟨m, alone, moved⟩ := Reading.readOne_of_form derived
    (Nat.lt_of_lt_of_le nests (Node.nestingAll_le_iff.mpr room))
  obtain ⟨ordered, inside⟩ := derived.spaced_children
  refine ⟨⟨byteLength front, byteLength front + byteLength piece, Nat.le_add_right _ _⟩,
    ?_, ?_, ?_, ordered, inside, piece, m, Text.slice?_of_eq_append cut, alone, moved⟩
  · rw [derived.place_eq, placeOf, Place.within, Span.between]
    simp
  · obtain ⟨c, cs, rfl⟩ := List.exists_cons_of_ne_nil derived.ne_nil
    obtain ⟨size, length, _⟩ := Text.byteLength_cons_succ c cs
    dsimp only
    omega
  · rw [← Text.byteLength_toList, cut]
    simp only [byteLength_append]
    omega

end Sexpr
