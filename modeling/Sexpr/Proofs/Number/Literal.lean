/-
The grammar of numeric literals.

`Literal.Spells cs l` derives the text `cs` of a literal from its parts, rule by
rule: an optional minus sign, digits, an optional point with digits and an
optional exponent with a mark and a sign of its own. Main statement:
`Literal.read?_eq_some_iff`, the reader of literals accepts exactly the texts
that the rules derive, and takes each apart into its parts.
-/

import Sexpr.Number.Literal

namespace Sexpr.Literal

/-! ### The rules -/

/-- A row of one or more decimal digits. -/
def IsDigits (ds : List Char) : Prop :=
  ds ≠ [] ∧ ∀ c ∈ ds, c.isDigit = true

/-- The sign in front of a literal. -/
def minus (negative : Bool) : List Char :=
  if negative then ['-'] else []

/-- A point with digits behind it, or nothing. -/
inductive SpellsFraction : List Char → Option (List Char) → Prop where
  | absent : SpellsFraction [] none
  | present {ds : List Char} : IsDigits ds → SpellsFraction ('.' :: ds) (some ds)

/-- The sign of an exponent, which may be left out. -/
inductive SpellsSign : List Char → Bool → Prop where
  | absent : SpellsSign [] false
  | plus : SpellsSign ['+'] false
  | minus : SpellsSign ['-'] true

/-- A mark with a sign and digits behind it, or nothing. -/
inductive SpellsExponent : List Char → Option (Bool × List Char) → Prop where
  | absent : SpellsExponent [] none
  | present {mark : Char} {sign ds : List Char} {negative : Bool} : mark = 'e' ∨ mark = 'E' →
      SpellsSign sign negative → IsDigits ds →
      SpellsExponent (mark :: (sign ++ ds)) (some (negative, ds))

/-- The text of a literal, put together from its parts. -/
inductive Spells : List Char → Literal → Prop where
  | parts {negative : Bool} {whole point mark : List Char} {fraction : Option (List Char)}
      {exponent : Option (Bool × List Char)} : IsDigits whole → SpellsFraction point fraction →
      SpellsExponent mark exponent →
      Spells (minus negative ++ (whole ++ (point ++ mark))) ⟨negative, whole, fraction, exponent⟩

/-! ### Readers of single parts -/

/-- A text does not go on with a digit. -/
def NoDigit (cs : List Char) : Prop :=
  ∀ c ∈ cs.head?, c.isDigit = false

theorem noDigit_nil : NoDigit [] := by
  simp [NoDigit]

theorem noDigit_cons {c : Char} {cs : List Char} (h : c.isDigit = false) : NoDigit (c :: cs) := by
  simpa [NoDigit] using h

theorem readDigits?_append {ds rest : List Char} (digits : IsDigits ds) (stop : NoDigit rest) :
    readDigits? (ds ++ rest) = some (ds, rest) := by
  have taken : (ds ++ rest).takeWhile Char.isDigit = ds := by
    rw [List.takeWhile_append_of_pos digits.2]
    cases rest with
    | nil => simp
    | cons c cs => simp [stop c (by simp)]
  have dropped : (ds ++ rest).dropWhile Char.isDigit = rest := by
    rw [List.dropWhile_append_of_pos digits.2]
    cases rest with
    | nil => rfl
    | cons c cs => simp [stop c (by simp)]
  rw [readDigits?, taken, dropped, if_neg digits.1]

theorem eq_append_of_readDigits? {cs ds rest : List Char} (h : readDigits? cs = some (ds, rest)) :
    cs = ds ++ rest ∧ IsDigits ds ∧ NoDigit rest := by
  unfold readDigits? at h
  split at h
  · cases h
  · rename_i nonempty
    cases h
    refine ⟨List.takeWhile_append_dropWhile.symm, ⟨nonempty, ?_⟩, ?_⟩
    · intro c mem
      exact List.all_eq_true.mp List.all_takeWhile c mem
    · intro c first
      have := List.head?_dropWhile_not Char.isDigit cs
      rw [Option.mem_def.mp first] at this
      simpa using this

theorem noDigit_of_spellsExponent {mark : List Char} {exponent : Option (Bool × List Char)}
    (h : SpellsExponent mark exponent) : NoDigit mark := by
  cases h with
  | absent => exact noDigit_nil
  | present isMark _ _ =>
    apply noDigit_cons
    rcases isMark with rfl | rfl <;> decide

theorem noDigit_of_spellsFraction {point mark : List Char} {fraction : Option (List Char)}
    {exponent : Option (Bool × List Char)} (hf : SpellsFraction point fraction)
    (he : SpellsExponent mark exponent) : NoDigit (point ++ mark) := by
  cases hf with
  | absent => exact noDigit_of_spellsExponent he
  | present _ => exact noDigit_cons (by decide)

theorem readSign_minus (negative : Bool) {ds rest : List Char} (digits : IsDigits ds) :
    readSign (minus negative ++ (ds ++ rest)) = (negative, ds ++ rest) := by
  cases negative with
  | true => rfl
  | false =>
    obtain ⟨nonempty, all⟩ := digits
    obtain ⟨d, ds, rfl⟩ := List.exists_cons_of_ne_nil nonempty
    have digit : d.isDigit = true := all d (by simp)
    have : d ≠ '-' := by
      rintro rfl
      exact absurd digit (by decide)
    simp [minus, readSign, this]

theorem minus_append_readSign (cs : List Char) : minus (readSign cs).1 ++ (readSign cs).2 = cs := by
  unfold readSign
  split <;> rfl

theorem readFraction?_append {point mark : List Char} {fraction : Option (List Char)}
    {exponent : Option (Bool × List Char)} (hf : SpellsFraction point fraction)
    (he : SpellsExponent mark exponent) :
    readFraction? (point ++ mark) = some (fraction, mark) := by
  cases hf with
  | absent =>
    cases he with
    | absent => rfl
    | present isMark _ _ => rcases isMark with rfl | rfl <;> rfl
  | present digits =>
    simp [readFraction?, readDigits?_append digits (noDigit_of_spellsExponent he)]

theorem spellsFraction_of_readFraction? {cs rest : List Char} {fraction : Option (List Char)}
    (h : readFraction? cs = some (fraction, rest)) :
    ∃ point, cs = point ++ rest ∧ SpellsFraction point fraction := by
  unfold readFraction? at h
  split at h
  · obtain ⟨⟨ds, rest'⟩, read, same⟩ := Option.map_eq_some_iff.mp h
    cases same
    obtain ⟨rfl, digits, _⟩ := eq_append_of_readDigits? read
    exact ⟨'.' :: ds, rfl, .present digits⟩
  · cases h
    exact ⟨[], rfl, .absent⟩

theorem readEitherSign_append {sign ds : List Char} {negative : Bool}
    (hs : SpellsSign sign negative) (digits : IsDigits ds) :
    readEitherSign (sign ++ ds) = (negative, ds) := by
  cases hs with
  | plus => rfl
  | minus => rfl
  | absent =>
    obtain ⟨nonempty, all⟩ := digits
    obtain ⟨d, ds, rfl⟩ := List.exists_cons_of_ne_nil nonempty
    have digit : d.isDigit = true := all d (by simp)
    have notMinus : d ≠ '-' := by
      rintro rfl
      exact absurd digit (by decide)
    have notPlus : d ≠ '+' := by
      rintro rfl
      exact absurd digit (by decide)
    simp [readEitherSign, notMinus, notPlus]

theorem spellsSign_readEitherSign (cs : List Char) :
    ∃ sign, sign ++ (readEitherSign cs).2 = cs ∧ SpellsSign sign (readEitherSign cs).1 := by
  unfold readEitherSign
  split
  · exact ⟨['-'], rfl, .minus⟩
  · exact ⟨['+'], rfl, .plus⟩
  · exact ⟨[], rfl, .absent⟩

theorem readExponent?_eq_some_iff {cs : List Char} {exponent : Option (Bool × List Char)} :
    readExponent? cs = some exponent ↔ SpellsExponent cs exponent := by
  constructor
  · intro h
    cases cs with
    | nil =>
      cases h
      exact .absent
    | cons mark cs =>
      simp only [readExponent?] at h
      split at h
      · rename_i isMark
        split at h
        · rename_i ds read
          cases h
          obtain ⟨sign, same, hs⟩ := spellsSign_readEitherSign cs
          obtain ⟨all, digits, _⟩ := eq_append_of_readDigits? read
          rw [all, List.append_nil] at same
          have spelled := SpellsExponent.present isMark hs digits
          rwa [same] at spelled
        · cases h
      · cases h
  · intro h
    cases h with
    | absent => rfl
    | @present mark sign ds negative isMark hs digits =>
      have read := readDigits?_append digits noDigit_nil
      rw [List.append_nil] at read
      simp [readExponent?, isMark, readEitherSign_append hs digits, read]

/-! ### The whole literal -/

/-- The reader accepts exactly the literals of the grammar. -/
theorem read?_eq_some_iff {cs : List Char} {l : Literal} : read? cs = some l ↔ Spells cs l := by
  constructor
  · intro h
    simp only [read?, Option.bind_eq_bind, Option.bind_eq_some_iff] at h
    obtain ⟨⟨whole, afterWhole⟩, readWhole, ⟨fraction, afterPoint⟩, readFraction, exponent,
      readExponent, same⟩ := h
    obtain ⟨split, digits, _⟩ := eq_append_of_readDigits? readWhole
    obtain ⟨point, rfl, hf⟩ := spellsFraction_of_readFraction? readFraction
    rw [← minus_append_readSign cs, split, ← Option.some.inj same]
    exact .parts digits hf (readExponent?_eq_some_iff.mp readExponent)
  · intro h
    cases h with
    | @parts negative whole point mark fraction exponent digits hf he =>
      simp [read?, readSign_minus negative digits,
        readDigits?_append digits (noDigit_of_spellsFraction hf he), readFraction?_append hf he,
        readExponent?_eq_some_iff.mpr he]

end Sexpr.Literal
