import GoTree.Position.Basic
/-!
# Line index

The byte offsets at which the lines of a text start, for going from an offset
to a position and back. A line ends with its newline byte. Offsets, lines and
columns are 32-bit words.
-/
namespace GoTree

/-- Mirrors `LineIndex`. -/
structure LineIndex where
  /-- Start of each line; the first line starts at zero. -/
  starts : Array UInt32
  /-- Length of the text in bytes. -/
  length : UInt32
  deriving DecidableEq, Repr

namespace LineIndex

/-- The newline byte. -/
def newline : UInt8 := 10

/-- The offsets right after each newline of a text whose first byte has the
offset `i`. -/
def startsFrom (i : UInt32) : List UInt8 → List UInt32
  | [] => []
  | b :: bs => if b = newline then (i + 1) :: startsFrom (i + 1) bs else startsFrom (i + 1) bs

/-- The index of a text given by its bytes. -/
def ofBytes (bytes : List UInt8) : LineIndex :=
  ⟨(0 :: startsFrom 0 bytes).toArray, UInt32.ofNat bytes.length⟩

/-- The index of a text. Mirrors `LineIndex.new`. -/
def ofText (s : String) : LineIndex := ofBytes s.toUTF8.data.toList

/-- Mirrors `LineIndex.line_count`. -/
def lineCount (x : LineIndex) : Nat := x.starts.size

/-- The offset at which a line starts, lines counted from one. Mirrors
`LineIndex.line_start`. -/
def lineStart? (x : LineIndex) (line : UInt32) : Option UInt32 :=
  if line = 0 then none else x.starts[line.toNat - 1]?

/-- The sum of two offsets if it fits. -/
def addOffset? (a b : UInt32) : Option UInt32 :=
  if a.toNat + b.toNat < UInt32.size then some (a + b) else none

/-- The offset one past the last, unless that does not fit. -/
def past (x : LineIndex) : UInt32 := if x.length = 4294967295 then x.length else x.length + 1

/-- The offset of a position, if the position lies in the text. The end of the text is
part of its last line, a newline part of the line it ends. Mirrors
`LineIndex.offset`. -/
def offset? (x : LineIndex) (p : Position) : Option UInt32 := do
  let start ← x.lineStart? p.line
  let stop := (x.lineStart? (p.line + 1)).getD x.past
  let o ← if p.column = 0 then none else addOffset? start (p.column - 1)
  if o < stop then some o else none

/-- Halves the range `lo … hi` until it is empty: the number of leading elements up to
`o` of an increasing array. Mirrors the `partition_point` of `LineIndex.resolve`. -/
def countUpTo (starts : Array UInt32) (o : UInt32) (lo hi : Nat) : Nat :=
  if lo < hi then
    let mid := (lo + hi) / 2
    if starts.getD mid 0 ≤ o then countUpTo starts o (mid + 1) hi
    else countUpTo starts o lo mid
  else lo
termination_by hi - lo

/-- The position of an offset. Offsets past the end of the text have the position of its
end. Mirrors `LineIndex.resolve`. -/
def resolve (x : LineIndex) (offset : UInt32) : Position :=
  let o := if offset ≤ x.length then offset else x.length
  let line := countUpTo x.starts o 0 x.starts.size
  ⟨UInt32.ofNat line, o - x.starts.getD (line - 1) 0 + 1⟩

end LineIndex
end GoTree
