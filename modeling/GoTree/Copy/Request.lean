import GoTree.Copy.Basic
/-!
# Copy requests

What a copier can be asked for: a node of any kind, a sequence of such nodes, the
node of a slot, or a list. What is absent is copied to what is absent.
-/
namespace GoTree

/-- Mirrors the public entry points of `Copier`. -/
inductive CopyRequest where
  | node (n : Option Node)
  | nodes (ns : Option (List Node))
  | slot (sl : Slot) (h : Option (Handle sl.kind))
  | list (sl : Slot) (r : Option ListRef)

/-- What a request gives. -/
inductive CopyResult where
  | node (n : Option Node)
  | nodes (ns : Option (List Node))
  | list (r : Option ListRef)
  deriving DecidableEq, Repr

namespace Copy

/-- Copies a node of any kind, and reports it before. Mirrors `Copier.node_id`. -/
def node (n : Node) : CopyM Node := do
  report (.node n)
  let copy ← within (← depth) n.kind n.handle
  return copy.node

/-- Copies the node of a slot that may be absent. Mirrors `Copier.expr`, `Copier.ident`
and the like. -/
def slotOpt (sl : Slot) : Option (Handle sl.kind) → CopyM (Option (Handle sl.kind))
  | none => return none
  | some h => return some (← slot (within (← depth)) sl h)

/-- Copies a list that may be absent. Mirrors `Copier.exprs`, `Copier.idents` and the
like. -/
def listOpt (sl : Slot) : Option ListRef → CopyM (Option ListRef)
  | none => return none
  | some r => return some (← list (within (← depth)) sl r)

/-- Does what a copier is asked for. Mirrors `Copier.node`, `Copier.nodes` and the entry
points for slots and lists. -/
def perform : CopyRequest → CopyM CopyResult
  | .node none => return .node none
  | .node (some n) => return .node (some (← node n))
  | .nodes none => return .nodes none
  | .nodes (some ns) => return .nodes (some (← ns.mapM node))
  | .slot sl h? => return .node ((← slotOpt sl h?).map Handle.node)
  | .list sl r? => return .list (← listOpt sl r?)

end Copy

/-- Answers a request, and gives the copier as it is afterwards. -/
def Copier.perform (c : Copier) (r : CopyRequest) : Except CopyError CopyResult × Copier :=
  match Copy.perform r c with
  | .ok a c => (.ok a, c)
  | .error e c => (.error e, c)

end GoTree
