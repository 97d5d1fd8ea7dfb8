/-
The reader as a descent.

The reader goes over its tokens once, with a stack of what is open. Here is the same reader as a
descent: `form` and `sequence` call one another for what is inside of brackets and behind quote
marks, and `trivia` and `literal` are its loops. All of them run on fuel, one for each call or
round inside of another, and give nothing without. The loops do what the scanner does
(`trivia_eq`, `literal_eq`), and more fuel never changes what is read (`form_more`,
`sequence_more`).
-/

import Sexpr.Proofs.Reading.Extension

namespace Sexpr.Descent

open Grammar Reading
open Text (byteLength)

/-! ### Trivia -/

/-- The blanks or the comment at the front of a text, and what follows. -/
def piece? (comments : Bool) : List Char → Option (List Char × List Char)
  | [] => none
  | c :: cs =>
    if Text.isBlank c then some ((c :: cs).span Text.isBlank)
    else if comments && c == ';' then some ((c :: cs).span (· != '\n'))
    else none

/-- Skips one piece of trivia after the other. -/
def trivia (comments : Bool) : (fuel offset : Nat) → List Char → Option (Nat × List Char)
  | 0, _, _ => none
  | fuel + 1, offset, cs =>
    match piece? comments cs with
    | none => some (offset, cs)
    | some (piece, rest) => trivia comments fuel (offset + byteLength piece) rest

theorem trivia_of_blanks {comments : Bool} {gap : List Char}
    (blanks : ∀ c ∈ gap, Text.isBlank c = true) (rest : List Char) : Trivia comments gap rest := by
  induction gap with
  | nil => exact .nil
  | cons c gap ih =>
    obtain ⟨here, behind⟩ := List.forall_mem_cons.mp blanks
    exact .blank here (ih behind)

/-- A piece of trivia is not empty, and text begins where there is none. -/
theorem piece?_cases (comments : Bool) (cs : List Char) :
    (piece? comments cs = none ∧ ∀ c ∈ cs.head?, Begins comments c) ∨
      ∃ piece rest, piece? comments cs = some (piece, rest) ∧ cs = piece ++ rest ∧
        piece ≠ [] ∧ Trivia comments piece rest := by
  cases cs with
  | nil => exact .inl ⟨rfl, by simp⟩
  | cons c cs =>
    simp only [piece?, List.span_eq_takeWhile_dropWhile]
    split
    · rename_i blank
      refine .inr ⟨_, _, rfl, List.takeWhile_append_dropWhile.symm, by simp [blank], ?_⟩
      exact trivia_of_blanks (fun _ mem => List.mem_takeWhile_imp mem) _
    · rename_i solid
      split
      · rename_i opens
        obtain ⟨on, rfl⟩ : comments = true ∧ c = ';' := by simpa using opens
        refine .inr ⟨_, _, rfl, List.takeWhile_append_dropWhile.symm, by simp, ?_⟩
        rw [List.takeWhile_cons_of_pos (by decide), List.dropWhile_cons_of_pos (by decide),
          ← List.append_nil (cs.takeWhile _)]
        refine .comment on (fun d mem => by simpa using List.mem_takeWhile_imp mem) ?_ .nil
        intro d first
        rw [List.nil_append, Option.mem_def] at first
        have ends := List.head?_dropWhile_not (· != '\n') cs
        rw [first] at ends
        simpa using ends
      · rename_i noComment
        refine .inl ⟨rfl, ?_⟩
        rintro d ⟨⟩
        exact ⟨by simpa using solid, by simpa using noComment⟩

/-- The loop comes to an end, and where the scanner does. -/
theorem trivia_eq {comments : Bool} {fuel : Nat} {cs : List Char} (enough : cs.length < fuel)
    (offset : Nat) :
    trivia comments fuel offset cs = some (Token.skipTrivia comments false offset cs) := by
  induction fuel generalizing offset cs with
  | zero => exact absurd enough (Nat.not_lt_zero _)
  | succ fuel ih =>
    rw [trivia]
    rcases piece?_cases comments cs with
      ⟨none, begins⟩ | ⟨piece, rest, found, rfl, notEmpty, gap⟩
    · rw [none]
      cases cs with
      | nil => rfl
      | cons c cs => rw [Token.skipTrivia_of_begins (begins c rfl)]
    · have taken := List.length_pos_iff.mpr notEmpty
      rw [List.length_append] at enough
      rw [found, Token.skipTrivia_append gap]
      exact ih (by omega) _

/-! ### Literals -/

/-- Reads a literal behind its opening quote; `text` is what it holds so far, the last character
first. -/
def literal : (fuel offset : Nat) → (text : List Char) → List Char → Option Text.Quotation
  | 0, _, _, _ => none
  | _ + 1, _, _, [] => some .unclosed
  | _ + 1, offset, text, '"' :: rest => some (.closed text.reverse (offset + 1) rest)
  | _ + 1, _, _, '\\' :: [] => some .unclosed
  | fuel + 1, offset, text, '\\' :: letter :: rest =>
    match Text.unescapeLetter? letter with
    | some c => literal fuel (offset + 1 + letter.utf8Size) (c :: text) rest
    | none => some (.unknown offset letter)
  | fuel + 1, offset, text, c :: rest => literal fuel (offset + c.utf8Size) (c :: text) rest

theorem foldl_push_closed (text tail : List Char) (stop : Nat) (rest : List Char) :
    text.foldl (fun q c => q.push c) (.closed tail stop rest) =
      Text.Quotation.closed (text.reverse ++ tail) stop rest := by
  induction text generalizing tail with
  | nil => rfl
  | cons c text ih =>
    rw [List.foldl_cons, Text.Quotation.push, ih]
    simp

theorem foldl_push_flaw (text : List Char) {q : Text.Quotation} (h : ∀ c, q.push c = q) :
    text.foldl (fun q c => q.push c) q = q := by
  induction text with
  | nil => rfl
  | cons c text ih => rw [List.foldl_cons, h, ih]

theorem literal_push {fuel : Nat} {cs : List Char} (enough : cs.length < fuel) (offset : Nat)
    (text : List Char) :
    literal fuel offset text cs =
      some (text.foldl (fun q c => q.push c) (Text.unquote offset cs)) := by
  obtain ⟨fuel, rfl⟩ := Nat.exists_eq_add_one_of_ne_zero (Nat.ne_zero_of_lt enough)
  fun_induction Text.unquote offset cs generalizing text fuel with
  | case1 => simp [literal, foldl_push_flaw (q := .unclosed) text fun _ => rfl]
  | case2 offset rest => simp [literal, foldl_push_closed]
  | case3 => simp [literal, foldl_push_flaw (q := .unclosed) text fun _ => rfl]
  | case4 offset letter rest c meaning ih =>
    cases fuel with
    | zero => simp at enough
    | succ fuel =>
      simp only [literal, meaning]
      exact ih (c :: text) fuel (by simp at enough; omega)
  | case5 offset letter rest meaning =>
    simp [literal, meaning, foldl_push_flaw (q := .unknown offset letter) text fun _ => rfl]
  | case6 offset c rest notQuote notLast notEscape ih =>
    cases fuel with
    | zero => simp at enough
    | succ fuel =>
      rw [literal]
      · exact ih (c :: text) fuel (by simpa using enough)
      · exact notQuote
      · exact notLast
      · exact notEscape

/-- The loop comes to an end, with what the characters behind the quote turn out to be. -/
theorem literal_eq {fuel : Nat} {cs : List Char} (enough : cs.length < fuel) (offset : Nat) :
    literal fuel offset [] cs = some (Text.unquote offset cs) :=
  literal_push enough offset []

/-! ### Forms -/

/-- A form that has been read, with what is left of the text. -/
structure Taken where
  node : Node
  /-- Where the form ends and the rest begins. -/
  stop : Nat
  rest : List Char

mutual

/-- Reads a form that stands under `depth` brackets and quote marks. -/
def form (settings : ReadSettings) (label : String) :
    (fuel depth offset : Nat) → List Char → ExceptT FlawAt Option Taken
  | 0, _, _, _ => .mk none
  | fuel + 1, depth, offset, cs => do
    let (start, front) ← trivia settings.comments fuel offset cs
    if settings.depth ≤ depth then throw (.tooDeep settings.depth, start)
    else match front with
      | [] => throw (.endOfInput, start)
      | c :: rest =>
        match Token.next start c rest with
        | (⟨.opening kind, _, stop⟩, rest) =>
          sequence settings label fuel depth kind start [] stop rest
        | (⟨.closing kind, _, _⟩, _) => throw (.unopened kind, start)
        | (⟨.quote, _, stop⟩, rest) => do
          let ⟨inner, stop, rest⟩ ← form settings label fuel (depth + 1) stop rest
          return ⟨.quoted (.within label start stop) inner, stop, rest⟩
        | (⟨.leaf leaf, _, stop⟩, rest) =>
          return ⟨leaf.toNode (.within label start stop), stop, rest⟩
        | (⟨.broken flaw place, _, _⟩, _) => throw (flaw, place)

/-- Reads what is left of a bracket that was opened at `start`, behind the items read so far,
the latest first. -/
def sequence (settings : ReadSettings) (label : String) :
    (fuel depth : Nat) → Bracket → (start : Nat) → (items : List Node) → (offset : Nat) →
      List Char → ExceptT FlawAt Option Taken
  | 0, _, _, _, _, _, _ => .mk none
  | fuel + 1, depth, kind, start, items, offset, cs => do
    let (here, front) ← trivia settings.comments fuel offset cs
    match front with
    | [] => throw (.unclosed kind, start)
    | c :: rest =>
      match Token.next here c rest with
      | (⟨.closing found, _, stop⟩, rest) =>
        if found = kind then return ⟨close (.within label start stop) kind items, stop, rest⟩
        else throw (.mismatched found kind, here)
      | _ => do
        let ⟨node, stop, rest⟩ ← form settings label fuel (depth + 1) here front
        sequence settings label fuel depth kind start (node :: items) stop rest

end

/-! ### Runs -/

theorem lift_bind {α β : Type} (x : α) (f : α → ExceptT FlawAt Option β) :
    ((liftM (some x) : ExceptT FlawAt Option α) >>= f) = f x := rfl

theorem run_bind_error {α β : Type} {run : ExceptT FlawAt Option α} {flaw : FlawAt}
    (ran : run.run = some (.error flaw)) (f : α → ExceptT FlawAt Option β) :
    (run >>= f).run = some (.error flaw) := by
  rw [ExceptT.run_bind, ran]
  rfl

theorem run_bind_ok {α β : Type} {run : ExceptT FlawAt Option α} {a : α}
    (ran : run.run = some (.ok a)) (f : α → ExceptT FlawAt Option β) :
    (run >>= f).run = (f a).run := by
  rw [ExceptT.run_bind, ran]
  rfl

/-! ### More fuel -/

/-- What the one run comes to, so does the other. -/
def Within {α : Type} (run more : ExceptT FlawAt Option α) : Prop :=
  ∀ outcome, run.run = some outcome → more.run = some outcome

theorem Within.refl {α : Type} (run : ExceptT FlawAt Option α) : Within run run :=
  fun _ ended => ended

theorem Within.bind {α β : Type} {run more : ExceptT FlawAt Option α}
    {f g : α → ExceptT FlawAt Option β} (h : Within run more) (behind : ∀ a, Within (f a) (g a)) :
    Within (run >>= f) (more >>= g) := by
  intro outcome ended
  cases ran : run.run with
  | none =>
    rw [ExceptT.run_bind, ran] at ended
    cases ended
  | some first =>
    cases first with
    | error flaw =>
      rw [run_bind_error ran] at ended
      rw [run_bind_error (h _ ran), ended]
    | ok a =>
      rw [run_bind_ok ran] at ended
      rw [run_bind_ok (h _ ran)]
      exact behind a outcome ended

theorem trivia_more (comments : Bool) (fuel offset : Nat) (cs : List Char) :
    Within (liftM (trivia comments fuel offset cs))
      (liftM (trivia comments (fuel + 1) offset cs)) := by
  induction fuel generalizing offset cs with
  | zero => rintro outcome ⟨⟩
  | succ fuel ih =>
    rw [trivia, trivia]
    split
    · exact .refl _
    · exact ih _ _

mutual

/-- More fuel never changes what a run comes to. -/
theorem form_more (settings : ReadSettings) (label : String) : ∀ (fuel depth offset : Nat)
    (cs : List Char), Within (form settings label fuel depth offset cs)
      (form settings label (fuel + 1) depth offset cs)
  | 0, depth, offset, cs => by
    rw [form]
    rintro outcome ⟨⟩
  | fuel + 1, depth, offset, cs => by
    rw [form, form]
    refine (trivia_more _ fuel _ _).bind fun (start, front) => ?_
    dsimp only
    split
    · exact .refl _
    · split
      · exact .refl _
      · split
        · exact sequence_more settings label fuel _ _ _ _ _ _
        · exact .refl _
        · exact (form_more settings label fuel _ _ _).bind fun _ => .refl _
        · exact .refl _
        · exact .refl _

theorem sequence_more (settings : ReadSettings) (label : String) : ∀ (fuel depth : Nat)
    (kind : Bracket) (start : Nat) (items : List Node) (offset : Nat) (cs : List Char),
    Within (sequence settings label fuel depth kind start items offset cs)
      (sequence settings label (fuel + 1) depth kind start items offset cs)
  | 0, depth, kind, start, items, offset, cs => by
    rw [sequence]
    rintro outcome ⟨⟩
  | fuel + 1, depth, kind, start, items, offset, cs => by
    rw [sequence, sequence]
    refine (trivia_more _ fuel _ _).bind fun (here, front) => ?_
    dsimp only
    split
    · exact .refl _
    · split
      · exact .refl _
      · exact (form_more settings label fuel _ _ _).bind fun item =>
          sequence_more settings label fuel _ _ _ _ _ _

end

theorem Within.eventually {α : Type} {run : Nat → ExceptT FlawAt Option α}
    (more : ∀ fuel, Within (run fuel) (run (fuel + 1))) {least : Nat} {outcome : Except FlawAt α}
    (ended : (run least).run = some outcome) (fuel : Nat) (enough : least ≤ fuel) :
    (run fuel).run = some outcome := by
  induction fuel, enough using Nat.le_induction with
  | base => exact ended
  | succ fuel _ ih => exact more fuel outcome ih

end Sexpr.Descent
