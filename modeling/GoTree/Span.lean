/-!
# Spans

A half-open range of byte offsets in a source text. Offsets are 32-bit words,
and a span may be written backwards: its length is then zero.
-/
namespace GoTree

/-- Mirrors `Span`. -/
structure Span where
  start : UInt32 := 0
  stop : UInt32 := 0
  deriving DecidableEq, Repr

namespace Span

/-- The span of a node that carries no position. Mirrors `Span.default`. -/
def none : Span := {}

/-- Number of bytes covered; a backward span covers none. Mirrors `Span.len`. -/
def length (s : Span) : UInt32 := if s.start ≤ s.stop then s.stop - s.start else 0

/-- Mirrors `Span.is_empty`. -/
def isEmpty (s : Span) : Bool := s.length == 0

/-- From the start of `s` to the end of `t`. -/
def through (s t : Span) : Span := ⟨s.start, t.stop⟩

end Span
end GoTree
