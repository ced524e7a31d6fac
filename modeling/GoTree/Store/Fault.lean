import GoTree.Store.Basic
/-!
# Faults

Why a traversal of a store does not finish: it met a name that resolves to
nothing, or it nested deeper than the store has nodes, which only happens when
a node lies below itself.
-/
namespace GoTree

inductive Fault where
  | dangling (d : Dangling)
  | cycle
  deriving DecidableEq, Repr

/-- A reading whose failure is a fault. -/
def orFault {α : Type} : Except Dangling α → Except Fault α
  | .ok a => .ok a
  | .error d => .error (.dangling d)

/-- The nesting that a traversal allows: in a store without cycles no path is
longer than the number of nodes, and one step more reports a name that
resolves to nothing. -/
def Store.depth (s : Store) : Nat := s.nodeCount + 1

end GoTree
