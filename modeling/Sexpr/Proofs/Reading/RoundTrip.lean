/-
Printing and reading are inverse on data.

A printed datum is derived by the grammar, with a node of the same structure
(`form_print`), and whatever the grammar derives is data (`isData_of_form`). The
reader of a single form goes over the same tokens as the reader of many
(`readOne_eq_ok_iff`), so what is known of the one carries over. Main statement:
`readOne_print_iff`, a node survives being printed and read back exactly when it
is data and does not nest too deep.
-/

import Sexpr.Node.Print
import Sexpr.Proofs.Number.RoundTrip
import Sexpr.Proofs.Reading.Acceptance
import Sexpr.Proofs.Reading.Composition

namespace Sexpr

open Grammar
open Text (byteLength)

/-! ### Printed data is derived -/

/-- An escaped text is what stands between double quotes. -/
theorem Text.quotes_escape (cs : List Char) : Text.Quotes (Text.escape cs) cs := by
  induction cs with
  | nil => exact .nil
  | cons c cs ih =>
    rw [Text.escape, List.flatMap_cons, Text.escapeChar]
    cases h : Text.escapeLetter? c with
    | some letter => exact .escape (Text.unescapeLetter?_of_escapeLetter? h) ih
    | none =>
      refine .plain ?_ ?_ ih
      · rintro rfl
        cases h
      · rintro rfl
        cases h

namespace Node

/-- Printed items with a blank in front of each. -/
def printTail (ns : List Node) : List Char :=
  ns.flatMap fun n => ' ' :: n.print.toList

/-- A printed row of items: the first one, and the others with blanks between. -/
theorem toList_printRow (n : Node) (ns : List Node) :
    (" ".intercalate (printAll (n :: ns))).toList = n.print.toList ++ printTail ns := by
  induction ns generalizing n with
  | nil => simp [printAll, printTail]
  | cons m ns ih =>
    rw [printAll, printAll, String.intercalate_cons_cons, ← printAll, String.toList_append,
      String.toList_append, ih m]
    simp [printTail]

end Node

namespace Grammar

variable {comments : Bool} {label : String}

theorem boundary_closing (bracket : Bracket) (rest : List Char) :
    Boundary (bracket.closing :: rest) := by
  rintro c ⟨⟩
  cases bracket <;> decide

/-- Behind an item of a printed row stands a blank or the closing bracket. -/
theorem boundary_printTail (ns : List Node) {rest : List Char} (h : Boundary rest) :
    Boundary (Node.printTail ns ++ rest) := by
  cases ns with
  | nil => exact h
  | cons n ns =>
    rintro c ⟨⟩
    decide

/-- A printed row of items is derived if its first item and the tail are. -/
theorem forms_of_tail {offset : Nat} {n m : Node} {ns ms : List Node} {rest : List Char}
    (form : Grammar.Form comments label offset n.print.toList (Node.printTail ns ++ rest) m)
    (forms : Forms comments label (offset + byteLength n.print.toList) (Node.printTail ns) rest
      ms) :
    Forms comments label offset (" ".intercalate (Node.printAll (n :: ns))).toList rest
      (m :: ms) := by
  rw [Node.toList_printRow]
  exact @Forms.cons _ _ _ [] _ _ _ _ _ .nil form forms

/-- A printed bracket is derived if the row of its items is. -/
theorem form_sequence {offset : Nat} {bracket : Bracket} {place : Place} {items ms : List Node}
    {rest : List Char}
    (forms : Forms comments label (offset + 1) (" ".intercalate (Node.printAll items)).toList
      (bracket.closing :: rest) ms)
    (same : Node.unplacedAll ms = Node.unplacedAll items) :
    ∃ m, Grammar.Form comments label offset (bracket.node place items).print.toList rest m ∧
      m.unplaced = (bracket.node place items).unplaced := by
  have printed : (bracket.node place items).print.toList =
      bracket.opening :: ((" ".intercalate (Node.printAll items)).toList ++ [bracket.closing]) := by
    have whole : (bracket.node place items).print = String.singleton bracket.opening ++
        " ".intercalate (Node.printAll items) ++ String.singleton bracket.closing := by
      cases bracket <;> rfl
    rw [whole, String.toList_append, String.toList_append, String.toList_singleton,
      String.toList_singleton, List.singleton_append, List.cons_append]
  rw [printed]
  refine ⟨_, .sequence forms, ?_⟩
  cases bracket <;> simp only [Bracket.node, Node.unplaced, same]

mutual

/-- Printed data is derived, before any boundary, with a node of the same structure. -/
theorem form_print (n : Node) (h : n.isData = true) (offset : Nat) {rest : List Char}
    (boundary : Boundary rest) :
    ∃ m, Grammar.Form comments label offset n.print.toList rest m ∧ m.unplaced = n.unplaced := by
  cases n with
  | number place n =>
    obtain ⟨l, spelled, value⟩ := Number.spells_print h
    exact ⟨_, .word (.number spelled value) boundary, rfl⟩
  | symbol place name =>
    refine ⟨_, .word (.symbol h) boundary, ?_⟩
    rw [String.ofList_toList]
    rfl
  | atom place name =>
    have printed : (Node.atom place name).print.toList = ':' :: name.toList :=
      String.toList_append
    rw [printed]
    refine ⟨_, .word (.atom h) boundary, ?_⟩
    rw [String.ofList_toList]
    rfl
  | text place s =>
    have printed : (Node.text place s).print.toList = '"' :: (Text.escape s.toList ++ ['"']) :=
      String.toList_ofList
    rw [printed]
    refine ⟨_, .text (Text.quotes_escape s.toList), ?_⟩
    rw [String.ofList_toList]
    rfl
  | call place items =>
    obtain ⟨ms, forms, same⟩ := forms_print items h (offset + 1) (boundary_closing .round rest)
    exact @form_sequence _ _ _ .round place _ _ _ forms same
  | vector place items =>
    obtain ⟨ms, forms, same⟩ := forms_print items h (offset + 1) (boundary_closing .square rest)
    exact @form_sequence _ _ _ .square place _ _ _ forms same
  | quoted place inner =>
    obtain ⟨m, form, same⟩ := form_print inner h (offset + 1) boundary
    have printed : (Node.quoted place inner).print.toList = '\'' :: ([] ++ inner.print.toList) :=
      String.toList_append
    rw [printed]
    refine ⟨_, .quoted .nil form, ?_⟩
    simp only [Node.unplaced, same]
  | closure => cases h
  | primitive => cases h
  | form => cases h

/-- A printed row of data is derived. -/
theorem forms_print (ns : List Node) (h : Node.allData ns = true) (offset : Nat) {rest : List Char}
    (boundary : Boundary rest) :
    ∃ ms, Forms comments label offset (" ".intercalate (Node.printAll ns)).toList rest ms ∧
      Node.unplacedAll ms = Node.unplacedAll ns := by
  cases ns with
  | nil => exact ⟨[], .nil .nil, rfl⟩
  | cons n ns =>
    obtain ⟨first, others⟩ := Bool.and_eq_true_iff.mp h
    obtain ⟨m, form, same⟩ := form_print n first offset (boundary_printTail ns boundary)
    obtain ⟨ms, forms, sames⟩ :=
      forms_printTail ns others (offset + byteLength n.print.toList) boundary
    refine ⟨m :: ms, forms_of_tail form forms, ?_⟩
    simp only [Node.unplacedAll, same, sames]

theorem forms_printTail (ns : List Node) (h : Node.allData ns = true) (offset : Nat)
    {rest : List Char} (boundary : Boundary rest) :
    ∃ ms, Forms comments label offset (Node.printTail ns) rest ms ∧
      Node.unplacedAll ms = Node.unplacedAll ns := by
  cases ns with
  | nil => exact ⟨[], .nil .nil, rfl⟩
  | cons n ns =>
    obtain ⟨first, others⟩ := Bool.and_eq_true_iff.mp h
    obtain ⟨m, form, same⟩ :=
      form_print n first (offset + byteLength [' ']) (boundary_printTail ns boundary)
    obtain ⟨ms, forms, sames⟩ := forms_printTail ns others
      (offset + byteLength [' '] + byteLength n.print.toList) boundary
    refine ⟨m :: ms, ?_, by simp only [Node.unplacedAll, same, sames]⟩
    have blank : Trivia comments [' '] (n.print.toList ++ (Node.printTail ns ++ rest)) :=
      .blank (by decide) .nil
    exact .cons blank form forms

end

/-! ### Whatever is derived is data -/

theorem isData_of_word {word : List Char} {leaf : Leaf} (h : Word word leaf) (place : Place) :
    (leaf.toNode place).isData = true := by
  cases h with
  | number spelled value => exact Number.isFinite_of_number? value
  | atom isName => simpa [Leaf.toNode, Node.isData] using isName
  | symbol isName => simpa [Leaf.toNode, Node.isData] using isName

mutual

theorem isData_of_form : ∀ {offset : Nat} {text rest : List Char} {node : Node},
    Grammar.Form comments label offset text rest node → node.isData = true
  | _, _, _, _, .word isWord _ => isData_of_word isWord _
  | _, _, _, _, .text _ => rfl
  | _, _, _, _, .quoted _ form => by
    have inner := isData_of_form form
    exact inner
  | _, _, _, _, @Grammar.Form.sequence _ _ _ bracket _ _ _ forms => by
    have items := allData_of_forms forms
    cases bracket <;> exact items

theorem allData_of_forms : ∀ {offset : Nat} {text rest : List Char} {nodes : List Node},
    Forms comments label offset text rest nodes → Node.allData nodes = true
  | _, _, _, _, .nil _ => rfl
  | _, _, _, _, .cons _ form forms =>
    Bool.and_eq_true_iff.mpr ⟨isData_of_form form, allData_of_forms forms⟩

end

end Grammar

/-! ### The reader of a single form -/

namespace Reading

variable {settings : ReadSettings} {label : String} {stop : Nat}

theorem ne_nil_of_deliver {node : Node} {stack inside : List Pending}
    (h : deliver label stop node stack = .inside inside) : inside ≠ [] := by
  induction stack generalizing node with
  | nil => cases h
  | cons pending stack ih =>
    cases pending with
    | quote start => exact ih h
    | bracket kind start items =>
      cases h
      exact List.cons_ne_nil _ _

/-- Inside a form something is open. -/
theorem ne_nil_of_step {stack inside : List Pending} {token : Token}
    (h : step settings label stack token = .ok (.inside inside)) : inside ≠ [] := by
  unfold step at h
  split at h
  · split at h
    · exact ne_nil_of_deliver (Except.ok.inj h)
    · cases h
  · unfold enter at h
    split at h
    · cases h
    · split at h
      · cases h
        exact List.cons_ne_nil _ _
      · cases h
        exact List.cons_ne_nil _ _
      · exact ne_nil_of_deliver (Except.ok.inj h)
      · cases h
      · cases h

/-- The reader of many forms begins like that of a single one. -/
theorem readTokens_of_readFirst {stack : List Pending} {tokens : List Token}
    (h : stack ≠ [] ∨ tokens ≠ []) :
    readTokens settings label stop stack tokens =
      match readFirst settings label stop stack tokens with
      | .error flaw => ([], some flaw)
      | .ok (node, more) => resume settings label stop (.done node) more := by
  induction tokens generalizing stack with
  | nil =>
    cases stack with
    | nil => simp at h
    | cons pending stack => rfl
  | cons token tokens ih =>
    rw [readFirst]
    cases stepped : step settings label stack token with
    | error flaw => exact readTokens_of_error stepped tokens
    | ok progress =>
      rw [readTokens_of_step stepped]
      cases progress with
      | inside stack => exact ih (.inl (ne_nil_of_step stepped))
      | done node => rfl

theorem readFirst_eq_ok_iff {tokens : List Token} {node : Node} :
    readFirst settings label stop [] tokens = .ok (node, []) ↔
      readTokens settings label stop [] tokens = ([node], none) := by
  cases tokens with
  | nil => simp [readFirst, readTokens]
  | cons token tokens =>
    rw [readTokens_of_readFirst (.inr (List.cons_ne_nil _ _))]
    cases first : readFirst settings label stop [] (token :: tokens) with
    | error flaw => simp
    | ok reading =>
      obtain ⟨other, more⟩ := reading
      cases more with
      | nil => simp [resume, readTokens]
      | cons next more =>
        simp only [resume]
        rw [readTokens_of_readFirst (.inr (List.cons_ne_nil _ _))]
        cases second : readFirst settings label stop [] (next :: more) with
        | error flaw => simp
        | ok reading => simp [resume]

theorem readFirst_eq_error {tokens : List Token} {flaw : FlawAt}
    (h : readTokens settings label stop [] tokens = ([], some flaw)) :
    readFirst settings label stop [] tokens = .error flaw := by
  cases tokens with
  | nil => cases h
  | cons token tokens =>
    rw [readTokens_of_readFirst (.inr (List.cons_ne_nil _ _))] at h
    cases first : readFirst settings label stop [] (token :: tokens) with
    | error other =>
      rw [first] at h
      cases h
      rfl
    | ok reading =>
      rw [first] at h
      cases h

/-- The first form is flawed as the text is, or the text is trivia. -/
theorem flaw_of_readFirst {stop : Nat} {flaw : FlawAt}
    (h : readFirst settings label stop [] (Token.scan comments 0 cs) = .error flaw) :
    readTokens settings label stop [] (Token.scan comments 0 cs) = ([], some flaw) ∨
      Trivia comments cs [] ∧ flaw = flawAtEnd settings stop [] := by
  cases scanned : Token.scan comments 0 cs with
  | nil =>
    rw [scanned] at h
    cases h
    exact .inr ⟨Token.scan_eq_nil_iff.mp scanned, rfl⟩
  | cons token tokens =>
    rw [scanned] at h
    left
    rw [readTokens_of_readFirst (.inr (List.cons_ne_nil _ _)), h]

end Reading

/-- A single form is read exactly when it is all that the text holds. -/
theorem readOne_iff_all {settings : ReadSettings} {label text : String} {node : Node} :
    readOne settings label text = .ok node ↔ (read settings label text).all = .ok [node] := by
  rw [Reading.all_eq_ok_iff, ← Reading.readFirst_eq_ok_iff, readOne]
  split
  · rename_i failed
    simp [failed]
  · rename_i first
    simp [first]
  · rename_i first
    simp [first]

/-- A single form is read exactly when the text is a program of that form which does
not nest too deep. -/
theorem readOne_eq_ok_iff {settings : ReadSettings} {label text : String} {node : Node} :
    readOne settings label text = .ok node ↔
      Program settings.comments label text.toList [node] ∧ node.nesting < settings.depth := by
  rw [readOne_iff_all, Reading.all_eq_ok_iff, Reading.readTokens_eq_iff,
    List.forall_mem_singleton]

/-- A program of a single form that nests too deep is refused for that. -/
theorem readOne_tooDeep {settings : ReadSettings} {label text : String} {node : Node}
    (program : Program settings.comments label text.toList [node])
    (deep : settings.depth ≤ node.nesting) :
    ∃ error, readOne settings label text = .error error ∧ error.kind = .tooDeeplyNested := by
  obtain ⟨place, refused⟩ : ∃ place, Reading.readTokens settings label text.utf8ByteSize [] _ = _ :=
    Reading.tooDeep_top program ⟨node, List.mem_singleton_self node, deep⟩
  rw [List.append_nil, List.takeWhile_cons_of_neg (by simpa using deep)] at refused
  rw [readOne, Reading.readFirst_eq_error refused]
  exact ⟨_, rfl, rfl⟩

/-! ### The round trip -/

theorem program_print {n : Node} (h : n.isData = true) (comments : Bool) (label : String) :
    ∃ m, Program comments label n.print.toList [m] ∧ m.unplaced = n.unplaced := by
  obtain ⟨m, form, same⟩ := @form_print comments label n h 0 [] (by simp [Boundary])
  refine ⟨m, ?_, same⟩
  have program : Program comments label _ [m] :=
    @Forms.cons _ _ _ [] _ [] _ _ _ .nil form (.nil .nil)
  rwa [List.nil_append, List.append_nil] at program

/-- Data that is printed in the same way is the same but for places. -/
theorem unplaced_eq_of_print_eq {n m : Node} (data : n.isData = true) (data' : m.isData = true)
    (printed : n.print = m.print) : n.unplaced = m.unplaced := by
  obtain ⟨n', program, same⟩ := program_print data true ""
  obtain ⟨m', program', same'⟩ := program_print data' true ""
  obtain ⟨rfl⟩ := Reading.program_unique (printed ▸ program) program'
  rw [← same, ← same']

/-- Data that does not nest too deep is read back. -/
theorem readOne_print {settings : ReadSettings} {n : Node} (data : n.isData = true)
    (room : n.nesting < settings.depth) (label : String) :
    ∃ m, readOne settings label n.print = .ok m ∧ m.unplaced = n.unplaced := by
  obtain ⟨m, program, same⟩ := program_print data settings.comments label
  rw [← Node.nesting_unplaced n, ← same, Node.nesting_unplaced] at room
  exact ⟨m, readOne_eq_ok_iff.mpr ⟨program, room⟩, same⟩

/-- The reader gives the forms of a program, if none of them nests too deep. -/
theorem read_of_program {settings : ReadSettings} {label text : String} {nodes : List Node}
    (program : Program settings.comments label text.toList nodes)
    (room : ∀ n ∈ nodes, n.nesting < settings.depth) :
    read settings label text = ⟨nodes, none⟩ := by
  simp only [read, Reading.readTokens_program program room, Option.map_none]

/-- Data that does not nest too deep is the only form of what is printed. -/
theorem read_print {settings : ReadSettings} {n : Node} (data : n.isData = true)
    (room : n.nesting < settings.depth) (label : String) :
    ∃ m, read settings label n.print = ⟨[m], none⟩ ∧ m.unplaced = n.unplaced := by
  obtain ⟨m, isRead, same⟩ := readOne_print data room label
  obtain ⟨program, room⟩ := readOne_eq_ok_iff.mp isRead
  exact ⟨m, read_of_program program (List.forall_mem_singleton.mpr room), same⟩

/-- A text whose only form is printed like the data `n` is read as `n`, behind any label. -/
theorem read_of_print_eq {settings : ReadSettings} {text : String} {n : Node}
    (data : n.isData = true)
    (printed : (Reading.readTokens settings "" 0 []
      (Token.scan settings.comments 0 text.toList)).map (List.map Node.print) Option.isSome =
        ([n.print], false)) (label : String) :
    ∃ m, read settings label text = ⟨[m], none⟩ ∧ m.unplaced = n.unplaced := by
  obtain ⟨prints, whole⟩ := Prod.mk.inj printed
  obtain ⟨first, only, prints⟩ := List.map_eq_singleton_iff.mp prints
  have flawless := Option.isNone_iff_eq_none.mp (Option.isSome_eq_false_iff.mp whole)
  have tokens : Reading.readTokens settings "" 0 [] (Token.scan settings.comments 0 text.toList) =
      ([first], none) := Prod.ext only flawless
  obtain ⟨program, room⟩ := Reading.readTokens_eq_iff.mp tokens
  have firstData : first.isData = true := (Bool.and_eq_true_iff.mp (allData_of_forms program)).1
  obtain ⟨nodes, moved, same⟩ := Forms.moved program label 0
  rcases nodes with _ | ⟨m, _ | _⟩ <;> simp only [Node.unplacedAll, List.cons.injEq,
    reduceCtorEq, and_true, and_false] at same
  refine ⟨m, read_of_program moved (List.forall_mem_singleton.mpr ?_), ?_⟩
  · rw [← Node.nesting_unplaced m, same, Node.nesting_unplaced]
    exact room first (List.mem_singleton_self first)
  · rw [same, unplaced_eq_of_print_eq firstData data prints]

/-- A node survives being printed and read back exactly when it is data and does not
nest too deep; data that nests too deep is refused for that. -/
theorem readOne_print_iff (settings : ReadSettings) (label : String) (n : Node) :
    ((∃ m, readOne settings label n.print = .ok m ∧ m.unplaced = n.unplaced) ↔
      n.isData = true ∧ n.nesting < settings.depth) ∧
    (n.isData = true → settings.depth ≤ n.nesting →
      ∃ error, readOne settings label n.print = .error error ∧ error.kind = .tooDeeplyNested) := by
  refine ⟨⟨?_, ?_⟩, ?_⟩
  · rintro ⟨m, read, same⟩
    obtain ⟨program, room⟩ := readOne_eq_ok_iff.mp read
    have data : m.isData = true := (Bool.and_eq_true_iff.mp (allData_of_forms program)).1
    rw [← Node.isData_unplaced n, ← Node.nesting_unplaced n, ← same, Node.isData_unplaced,
      Node.nesting_unplaced]
    exact ⟨data, room⟩
  · rintro ⟨data, room⟩
    exact readOne_print data room label
  · intro data deep
    obtain ⟨m, program, same⟩ := program_print data settings.comments label
    rw [← Node.nesting_unplaced n, ← same, Node.nesting_unplaced] at deep
    exact readOne_tooDeep program deep

end Sexpr
