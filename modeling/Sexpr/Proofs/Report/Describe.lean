/-
How places in known sources are described.

A description ends in a line and a column, which hold no colon, so it says where the label
ends; and labels that are put in brackets are told from those that are not
(`Sources.bracketed_injective`). Main statement: `Sources.describe_eq_iff`, no two places are
described in the same way.
-/

import Sexpr.Proofs.Text.Lines
import Sexpr.Report.Sources

namespace Sexpr

open Text (IsBoundary lineCol)

/-- What stands on both sides of the last of some character is told apart. -/
theorem append_inj_of_last {α : Type} {a : α} {as bs ds es : List α} (notLeft : a ∉ ds)
    (notRight : a ∉ es) (h : as ++ a :: ds = bs ++ a :: es) : as = bs ∧ ds = es := by
  rcases List.append_eq_append_iff.mp h with ⟨more, rfl, behind⟩ | ⟨more, rfl, behind⟩
  · cases more with
    | nil => exact ⟨(List.append_nil as).symm, (List.cons.inj behind).2⟩
    | cons b more =>
      obtain ⟨rfl, rfl⟩ := List.cons.inj behind
      exact absurd (List.mem_append_right more List.mem_cons_self) notLeft
  · cases more with
    | nil => exact ⟨List.append_nil bs, (List.cons.inj behind).2.symm⟩
    | cons b more =>
      obtain ⟨rfl, rfl⟩ := List.cons.inj behind
      exact absurd (List.mem_append_right more List.mem_cons_self) notRight

theorem colon_notMem_toDigits (n : Nat) : ':' ∉ Nat.toDigits 10 n := fun mem =>
  absurd (Nat.isDigit_of_mem_toDigits (by decide) (by decide) mem) (by decide)

theorem toDigits_injective : Function.Injective (Nat.toDigits 10) :=
  Function.LeftInverse.injective (g := fun ds => Nat.ofDigitChars 10 ds 0)
    fun _ => Nat.ofDigitChars_ten_toDigits

namespace Sources

/-- A label in brackets holds a colon, and one without brackets does not. -/
theorem colon_mem_bracketed (label : String) :
    ':' ∈ (bracketed label).toList ↔ ':' ∈ label.toList := by
  unfold bracketed
  split <;> simp

/-- Different labels stand in front of line numbers in different ways. -/
theorem bracketed_injective : Function.Injective bracketed := by
  intro a b same
  have colon : ':' ∈ a.toList ↔ ':' ∈ b.toList := by
    rw [← colon_mem_bracketed a, same, colon_mem_bracketed b]
  unfold bracketed at same
  by_cases mem : ':' ∈ a.toList
  · rw [if_pos (by simpa using mem), if_pos (by simpa using colon.mp mem)] at same
    have inside := congrArg String.toList same
    simp only [String.toList_append] at inside
    exact String.toList_inj.mp
      (List.append_cancel_left (List.append_cancel_right inside))
  · rwa [if_neg (by simpa using mem), if_neg (by simpa using fun other => mem (colon.mpr other))]
      at same

variable {s : Sources} {p q : Place} {span other : Span} {text text' : String}

/-- A place in a known source is described by its label, its line and its column. -/
theorem toList_describe (isSpan : p.span = some span) (known : s.get? p.source = some text) :
    (s.describe p).toList = (bracketed p.source).toList ++
      ':' :: (Nat.toDigits 10 (lineCol text span.start).1 ++
        ':' :: Nat.toDigits 10 (lineCol text span.start).2) := by
  rw [describe, isSpan, known]
  simp only [String.toList_append, String.toList_ofList, Nat.toString_eq_ofList_toDigits,
    List.append_assoc]
  rfl

/-- Places in known sources, with spans that begin between characters, are described in the same
way only if they have the same label and begin at the same offset. -/
theorem describe_eq_iff (isSpan : p.span = some span) (isSpan' : q.span = some other)
    (known : s.get? p.source = some text) (known' : s.get? q.source = some text')
    (boundary : IsBoundary text.toList span.start)
    (boundary' : IsBoundary text'.toList other.start) :
    s.describe p = s.describe q ↔ p.source = q.source ∧ span.start = other.start := by
  constructor
  · intro same
    have written := congrArg String.toList same
    rw [toList_describe isSpan known, toList_describe isSpan' known', ← List.cons_append,
      ← List.cons_append, ← List.append_assoc, ← List.append_assoc] at written
    -- the column stands behind the last colon, the line behind the last that is left
    obtain ⟨inFront, cols⟩ :=
      append_inj_of_last (colon_notMem_toDigits _) (colon_notMem_toDigits _) written
    obtain ⟨labels, lines⟩ :=
      append_inj_of_last (colon_notMem_toDigits _) (colon_notMem_toDigits _) inFront
    have source : p.source = q.source := bracketed_injective (String.toList_inj.mp labels)
    rw [source, known'] at known
    obtain rfl := Option.some.inj known
    have position : lineCol text' span.start = lineCol text' other.start :=
      Prod.ext (toDigits_injective lines) (toDigits_injective cols)
    exact ⟨source, Text.injOn_lineCol text' boundary boundary' position⟩
  · rintro ⟨source, start⟩
    rw [source, known'] at known
    obtain rfl := Option.some.inj known
    rw [← String.toList_inj, toList_describe isSpan (source ▸ known'), toList_describe isSpan' known',
      source, start]

/-- Of a label with a colon and one that only looks as if it was in brackets for that, the two
descriptions of a place are different. -/
theorem describe_of_brackets :
    let s : Sources := ofList [("a:1", "é\nx"), ("<a:1>", "é\nx")]
    let p : Place := .within "a:1" 3 4
    let q : Place := .within "<a:1>" 3 4
    IsBoundary "é\nx".toList 3 ∧ s.get? p.source = some "é\nx" ∧ s.get? q.source = some "é\nx" ∧
      s.describe p = "<a:1>:2:1" ∧ s.describe p ≠ s.describe q := by
  intro s p q
  have boundary : IsBoundary "é\nx".toList 3 := ⟨"é\n".toList, ['x'], by decide, by decide⟩
  have known : s.get? p.source = some "é\nx" := by decide
  have known' : s.get? q.source = some "é\nx" := by decide
  refine ⟨boundary, known, known', by decide, fun same => ?_⟩
  have source := (describe_eq_iff rfl rfl known known' boundary boundary).mp same
  exact absurd source.1 (by decide)

end Sources

end Sexpr
