import GoTree.Text.Numeral
/-!
# Positions

A line and a column, both counted from one, columns in bytes. Positions are
ordered by line, then by column.
-/
namespace GoTree

/-- Mirrors `Position`. -/
structure Position where
  line : UInt32
  column : UInt32
  deriving DecidableEq, Repr

namespace Position

instance : LT Position :=
  ⟨fun p q => p.line < q.line ∨ (p.line = q.line ∧ p.column < q.column)⟩

instance : LE Position :=
  ⟨fun p q => p.line < q.line ∨ (p.line = q.line ∧ p.column ≤ q.column)⟩

instance (p q : Position) : Decidable (p < q) :=
  inferInstanceAs (Decidable (p.line < q.line ∨ (p.line = q.line ∧ p.column < q.column)))

instance (p q : Position) : Decidable (p ≤ q) :=
  inferInstanceAs (Decidable (p.line < q.line ∨ (p.line = q.line ∧ p.column ≤ q.column)))

instance : Ord Position := ⟨fun p q => compareOfLessAndEq p q⟩

/-- A position as `line:column`. Mirrors `Position.fmt`. -/
def text (p : Position) : String :=
  Text.numeral p.line.toNat ++ ":" ++ Text.numeral p.column.toNat

end Position
end GoTree
