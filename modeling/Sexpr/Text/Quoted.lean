/-
Quoted texts: the two ways to write a text between double quotes.

`quote` is the literal of the language: five characters have an escape, all
others stand for themselves. `unquote` reads the characters behind an opening
quote; `unquote_escape` says that it reads back what `quote` wrote. `inspect` is
the form of inspection output, which also spells out characters that cannot be
seen.
-/

import Sexpr.Text.Position
import Sexpr.Text.Visible

namespace Sexpr.Text

/-- The letter that stands for a character behind a backslash. -/
def escapeLetter? : Char → Option Char
  | '\n' => some 'n'
  | '\t' => some 't'
  | '\r' => some 'r'
  | '\\' => some '\\'
  | '"' => some '"'
  | _ => none

/-- The character that a letter behind a backslash stands for. -/
def unescapeLetter? : Char → Option Char
  | 'n' => some '\n'
  | 't' => some '\t'
  | 'r' => some '\r'
  | '\\' => some '\\'
  | '"' => some '"'
  | _ => none

/-- One character inside a literal. -/
def escapeChar (c : Char) : List Char :=
  match escapeLetter? c with
  | some letter => ['\\', letter]
  | none => [c]

/-- The characters of a literal between its quotes. -/
def escape (cs : List Char) : List Char :=
  cs.flatMap escapeChar

def quote (s : String) : String :=
  String.ofList ('"' :: escape s.toList ++ ['"'])

/-- What the characters behind an opening quote turn out to be. -/
inductive Quotation where
  /-- The text up to the closing quote, the offset behind that quote, and the rest. -/
  | closed (text : List Char) (stop : Nat) (rest : List Char)
  /-- The input ends before a closing quote. -/
  | unclosed
  /-- A backslash at `offset` is followed by a letter that has no meaning. -/
  | unknown (offset : Nat) (letter : Char)
deriving Repr, DecidableEq

/-- Puts one more character in front of the text that was read. -/
def Quotation.push (c : Char) : Quotation → Quotation
  | .closed text stop rest => .closed (c :: text) stop rest
  | other => other

/-- Reads the characters behind an opening quote; `offset` is where they start. -/
def unquote (offset : Nat) : List Char → Quotation
  | [] => .unclosed
  | '"' :: rest => .closed [] (offset + 1) rest
  | '\\' :: [] => .unclosed
  | '\\' :: letter :: rest =>
    match unescapeLetter? letter with
    | some c => (unquote (offset + 1 + letter.utf8Size) rest).push c
    | none => .unknown offset letter
  | c :: rest => (unquote (offset + c.utf8Size) rest).push c

theorem unescapeLetter?_of_escapeLetter? {c letter : Char} (h : escapeLetter? c = some letter) :
    unescapeLetter? letter = some c := by
  unfold escapeLetter? at h
  split at h <;> cases h <;> rfl

/-- A closed literal is read back, with the offset behind it and the rest. -/
theorem unquote_escape (offset : Nat) (cs rest : List Char) :
    unquote offset (escape cs ++ '"' :: rest)
      = .closed cs (offset + byteLength (escape cs) + 1) rest := by
  induction cs generalizing offset with
  | nil => simp [escape, unquote]
  | cons c cs ih =>
    have ih' := ih
    simp only [escape] at ih'
    simp only [escape, List.flatMap_cons, List.append_assoc, byteLength_append]
    cases h : escapeLetter? c with
    | some letter =>
      have back := unescapeLetter?_of_escapeLetter? h
      have one : Char.utf8Size '\\' = 1 := by decide
      simp only [escapeChar, h, List.cons_append, List.nil_append, unquote, back, ih',
        Quotation.push, byteLength_cons, byteLength_nil, one]
      congr 1
      omega
    | none =>
      have plain : c ≠ '"' ∧ c ≠ '\\' := by
        constructor <;> rintro rfl <;> simp [escapeLetter?] at h
      simp only [escapeChar, h, List.cons_append, List.nil_append, byteLength_cons,
        byteLength_nil]
      rw [unquote.eq_5 _ _ _ plain.1 (by grind) (by grind)]
      simp only [ih', Quotation.push]
      congr 1
      omega

theorem Quotation.push_eq_closed {c : Char} {q : Quotation} {text : List Char} {stop : Nat}
    {rest : List Char} (h : q.push c = .closed text stop rest) :
    ∃ tail, q = .closed tail stop rest := by
  cases q with
  | closed tail stop' rest' => cases h; exact ⟨tail, rfl⟩
  | unclosed => cases h
  | unknown offset letter => cases h

/-- What follows a quotation is shorter than what follows its opening quote. -/
theorem length_lt_of_unquote {offset : Nat} {cs text : List Char} {stop : Nat} {rest : List Char}
    (h : unquote offset cs = .closed text stop rest) : rest.length < cs.length := by
  fun_induction unquote offset cs generalizing text with
  | case1 => cases h
  | case2 => cases h; simp
  | case3 => cases h
  | case4 offset letter rest' c _ ih =>
    obtain ⟨tail, hq⟩ := Quotation.push_eq_closed h
    have := ih hq
    simp
    omega
  | case5 => cases h
  | case6 offset c rest' _ _ _ ih =>
    obtain ⟨tail, hq⟩ := Quotation.push_eq_closed h
    have := ih hq
    simp
    omega

/-- The letter that stands for a character in inspection output. -/
def inspectLetter? : Char → Option Char
  | '\x00' => some '0'
  | c => escapeLetter? c

/-- One character of inspection output. -/
def inspectChar (c : Char) : List Char :=
  match inspectLetter? c with
  | some letter => ['\\', letter]
  | none => if isVisible c then [c] else ['\\', 'u', '\x7b'] ++ Nat.toDigits 16 c.toNat ++ ['\x7d']

/-- A text as inspection output shows it. -/
def inspect (s : String) : String :=
  String.ofList ('"' :: s.toList.flatMap inspectChar ++ ['"'])

end Sexpr.Text
