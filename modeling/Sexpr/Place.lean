/-
Places: where a node comes from.

A node that was read has a span of bytes in a labelled source. A node that was
computed has no span; all such nodes share one label. Places never take part in
the comparison of nodes.
-/

import Sexpr.Text.Position

namespace Sexpr

/-- A half-open range of byte offsets. -/
structure Span where
  start : Nat
  stop : Nat
  ordered : start ≤ stop
deriving DecidableEq

namespace Span

/-- The span between two offsets, empty when the second lies before the first. -/
def between (start stop : Nat) : Span :=
  ⟨start, max start stop, Nat.le_max_left start stop⟩

def length (s : Span) : Nat :=
  s.stop - s.start

def isEmpty (s : Span) : Bool :=
  s.start == s.stop

theorem isEmpty_iff {s : Span} : s.isEmpty = true ↔ s.length = 0 := by
  have := s.ordered
  simp [isEmpty, length]
  omega

end Span

/-- A labelled source and, for what was read from it, a span. -/
structure Place where
  source : String
  span : Option Span
deriving DecidableEq

namespace Place

/-- The place of everything that was computed. -/
def computed : Place :=
  ⟨"<runtime>", none⟩

instance : Inhabited Place := ⟨computed⟩

/-- A place in a source. -/
def within (source : String) (start stop : Nat) : Place :=
  ⟨source, some (.between start stop)⟩

/-- The place has no span. -/
def isComputed (p : Place) : Bool :=
  p.span.isNone

/-- The label and where the span starts. -/
def describe (p : Place) : String :=
  match p.span with
  | some span => s!"{p.source}@{span.start}"
  | none => p.source

/-- The label and the whole span. -/
def inspect (p : Place) : String :=
  match p.span with
  | some span => s!"{p.source}@{span.start}..{span.stop}"
  | none => p.source

/-- Line and column of the start of the span in a text. -/
def lineCol? (p : Place) (text : String) : Option (Nat × Nat) :=
  p.span.map fun span => Text.lineCol text span.start

end Place

end Sexpr
