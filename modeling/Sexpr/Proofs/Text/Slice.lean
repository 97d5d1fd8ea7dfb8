/-
Offsets and slices.

Offsets count bytes. Those at which a character begins, and the end of the text, are its
boundaries. What stands between two boundaries is the slice between them (`exists_slice`,
`slice?_of_eq_append`), and nothing else is (`append_inj_of_byteLength`).
-/

import Mathlib
import Sexpr.Text.Position

namespace Sexpr.Text

/-! ### Bytes -/

theorem byteLength_toList (s : String) : byteLength s.toList = s.utf8ByteSize := by
  have sum (cs : List Char) : byteLength cs = String.utf8Len cs := by
    induction cs with
    | nil => rfl
    | cons c cs ih => rw [byteLength_cons, String.utf8Len_cons, ih, Nat.add_comm]
  rw [sum, ← String.utf8ByteSize_ofList, String.ofList_toList]

/-- A character takes at least one byte, and leaves those of the characters behind it. -/
theorem byteLength_cons_succ (c : Char) (cs : List Char) :
    ∃ n, byteLength (c :: cs) = n + 1 ∧ c.utf8Size ≤ n + 1 ∧
      n + 1 - c.utf8Size = byteLength cs := by
  have size := c.utf8Size_pos
  refine ⟨byteLength (c :: cs) - 1, ?_⟩
  rw [byteLength_cons]
  omega

theorem byteLength_eq_zero_iff {cs : List Char} : byteLength cs = 0 ↔ cs = [] := by
  cases cs with
  | nil => simp
  | cons c cs =>
    have size := c.utf8Size_pos
    simp only [byteLength_cons, reduceCtorEq, iff_false]
    omega

/-! ### Slices -/

theorem dropBytes?_append (front rest : List Char) :
    dropBytes? (front ++ rest) (byteLength front) = some rest := by
  induction front with
  | nil => cases rest <;> simp [dropBytes?]
  | cons c front ih =>
    obtain ⟨n, length, fits, behind⟩ := byteLength_cons_succ c front
    rw [length, List.cons_append, dropBytes?, if_pos fits, behind, ih]

theorem takeBytes?_append (piece rest : List Char) :
    takeBytes? (piece ++ rest) (byteLength piece) = some piece := by
  induction piece with
  | nil => cases rest <;> simp [takeBytes?]
  | cons c piece ih =>
    obtain ⟨n, length, fits, behind⟩ := byteLength_cons_succ c piece
    rw [length, List.cons_append, takeBytes?, if_pos fits, behind, ih]
    rfl

/-- A piece of a text is its slice. -/
theorem slice?_of_eq_append {text : String} {front piece rest : List Char}
    (cut : text.toList = front ++ (piece ++ rest)) :
    slice? text (byteLength front) (byteLength front + byteLength piece) = some piece := by
  rw [slice?, cut, dropBytes?_append, Option.bind_some, Nat.add_sub_cancel_left,
    takeBytes?_append]

/-- A text is cut in one way only into pieces of given lengths. -/
theorem append_inj_of_byteLength {front front' rest rest' : List Char}
    (cut : front ++ rest = front' ++ rest') (length : byteLength front = byteLength front') :
    front = front' ∧ rest = rest' := by
  have behind := dropBytes?_append front rest
  rw [cut, length, dropBytes?_append] at behind
  obtain rfl := Option.some.inj behind
  exact ⟨List.append_cancel_right cut, rfl⟩

/-- Of two beginnings of a text the one that is no longer begins the other. -/
theorem exists_piece {front front' rest rest' : List Char} (cut : front ++ rest = front' ++ rest')
    (ordered : byteLength front ≤ byteLength front') :
    ∃ piece, front' = front ++ piece ∧ rest = piece ++ rest' := by
  rcases List.append_eq_append_iff.mp cut with ⟨piece, rfl, rfl⟩ | ⟨back, rfl, rfl⟩
  · exact ⟨piece, rfl, rfl⟩
  · have empty : byteLength back = 0 := by
      rw [byteLength_append] at ordered
      omega
    obtain rfl := byteLength_eq_zero_iff.mp empty
    exact ⟨[], by simp, by simp⟩

/-! ### Boundaries -/

/-- An offset that cuts no character: one at which a character begins, or the end. -/
def IsBoundary (cs : List Char) (offset : Nat) : Prop :=
  ∃ front rest, cs = front ++ rest ∧ offset = byteLength front

/-- Two boundaries have a slice between them. -/
theorem exists_slice {cs : List Char} {start stop : Nat} (first : IsBoundary cs start)
    (second : IsBoundary cs stop) (ordered : start ≤ stop) :
    ∃ front piece rest, cs = front ++ (piece ++ rest) ∧ start = byteLength front ∧
      stop = byteLength front + byteLength piece := by
  obtain ⟨front, rest, rfl, rfl⟩ := first
  obtain ⟨front', rest', cut, rfl⟩ := second
  obtain ⟨piece, rfl, rfl⟩ := exists_piece cut ordered
  exact ⟨front, piece, rest', rfl, rfl, byteLength_append front piece⟩

end Sexpr.Text
