import GoTree.Node
/-!
# Pools

A pool holds the nodes of one kind in two parallel arrays, one of contents and one
of spans. A node has the same index in both, so the arrays have the same size at
all times; a pool carries the proof.
-/
namespace GoTree

/-- The nodes of kind `k`. Mirrors `SpannedArena`. -/
structure Pool (k : Kind) where
  contents : Array (Content k)
  spans : Array Span
  size_spans : spans.size = contents.size

namespace Pool

variable {k : Kind}

/-- The pool that holds nothing. -/
def empty : Pool k := ⟨#[], #[], rfl⟩

/-- Number of nodes. Mirrors `SpannedArena.len`. -/
def size (p : Pool k) : Nat := p.contents.size

/-- Adds a node at the end of both arrays. Mirrors `SpannedArena.alloc`. -/
def push (p : Pool k) (c : Content k) (span : Span) : Pool k :=
  ⟨p.contents.push c, p.spans.push span, by simp [p.size_spans]⟩

/-- Overwrites the content at an index. Mirrors an assignment through
`SpannedArena.get_mut`. -/
def setContent (p : Pool k) (i : Nat) (c : Content k) : Pool k :=
  ⟨p.contents.setIfInBounds i c, p.spans, by simp [p.size_spans]⟩

/-- Overwrites the span at an index. Mirrors `SpannedArena.set_span`. -/
def setSpan (p : Pool k) (i : Nat) (span : Span) : Pool k :=
  ⟨p.contents, p.spans.setIfInBounds i span, by simp [p.size_spans]⟩

@[simp] theorem size_empty : (empty : Pool k).size = 0 := rfl

@[simp] theorem size_push (p : Pool k) (c : Content k) (span : Span) :
    (p.push c span).size = p.size + 1 := by
  simp [push, size]

/-- An index is inside both arrays or outside of both. -/
theorem lt_spans_iff {p : Pool k} {i : Nat} : i < p.spans.size ↔ i < p.size := by
  rw [p.size_spans, size]

end Pool
end GoTree
