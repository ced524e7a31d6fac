import GoTree.Store.Fault
/-!
# Walks

A walk meets the nodes under a root in pre-order: a node, then what its fields
refer to in declared order. The visitor decides at each node whether to go into
its children, past them, or to stop the walk with a result.

A node is visited before it is read, so a visitor that does not descend may be
shown a node that resolves to nothing. A list is read when the walk reaches it.
-/
namespace GoTree

/-- What to do after visiting a node. -/
inductive Action (β : Type) where
  | descend
  | skip
  | stop (b : β)
  deriving DecidableEq, Repr

/-- What is done at each node: a step of the visitor's state. It may read the store, and
so may fail. Mirrors `Visitor.visit_node`. -/
abbrev Visitor (σ β : Type) := Node → σ → Except Dangling (Action β × σ)

/-- Goes through the items until one of them stops with a result. Mirrors the loop in
`Walk.walk` of a list. -/
def untilStop {α σ β : Type} (f : α → σ → Except Fault (Option β × σ)) :
    List α → σ → Except Fault (Option β × σ)
  | [], st => .ok (none, st)
  | a :: as, st => do
    match ← f a st with
    | (some b, st) => return (some b, st)
    | (none, st) => untilStop f as st

namespace Store

variable {σ β : Type}

/-- Walks what the fields of a node refer to, given how to walk one node. Mirrors
`walk_children`. -/
def walkLinks (s : Store) (child : Node → σ → Except Fault (Option β × σ)) (n : Node) (st : σ) :
    Except Fault (Option β × σ) := do
  let c ← orFault (s.contentAt n.handle)
  untilStop (fun l st => do untilStop child (← orFault (s.targets l)) st) c.walkedLinks st

/-- Walks the tree under a node that nests at most `depth` nodes. Mirrors `Walk.walk` of
a node. -/
def walkWithin (s : Store) (visit : Visitor σ β) :
    (depth : Nat) → Node → σ → Except Fault (Option β × σ)
  | 0, _, _ => .error .cycle
  | depth + 1, n, st => do
    match ← orFault (visit n st) with
    | (.stop b, st) => return (some b, st)
    | (.skip, st) => return (none, st)
    | (.descend, st) => s.walkLinks (s.walkWithin visit depth) n st

/-- Walks the tree under a node, the node included. Gives the result with which the
visitor stopped, if it did, and its final state. Mirrors `walk_node`. -/
def walk (s : Store) (visit : Visitor σ β) (root : Node) (st : σ) :
    Except Fault (Option β × σ) :=
  s.walkWithin visit s.depth root st

/-- Walks the tree under a node without the node itself. Mirrors `walk_children`. -/
def walkChildren (s : Store) (visit : Visitor σ β) (root : Node) (st : σ) :
    Except Fault (Option β × σ) :=
  s.walkLinks (s.walkWithin visit s.depth) root st

/-! ## Pre-order -/

/-- A node and the nodes below it, at most `depth` deep, in the order of their
fields. -/
def preorderWithin (s : Store) : (depth : Nat) → Node → Except Fault (List Node)
  | 0, _ => .error .cycle
  | depth + 1, n => do
    let c ← orFault (s.contentAt n.handle)
    let below ← c.walkedLinks.mapM fun l => do
      (← orFault (s.targets l)).mapM (s.preorderWithin depth)
    return n :: below.flatten.flatten

/-- All that a walk can meet under a node, in order. A node appears once for
each path to it. -/
def preorder (s : Store) (root : Node) : Except Fault (List Node) :=
  s.preorderWithin s.depth root

/-! ## Visitors -/

/-- Visits every node and never stops; `f` says whether to go into the children. Mirrors
`Inspector.visit_node`. -/
def inspector (f : Node → σ → Except Dangling (Bool × σ)) : Visitor σ Empty := fun n st => do
  let (into, st) ← f n st
  return (if into then .descend else .skip, st)

/-- Walks everything that `f` lets it into, and gives the final state. Mirrors
`inspect`. -/
def inspect (s : Store) (f : Node → σ → Except Dangling (Bool × σ)) (root : Node) (st : σ) :
    Except Fault σ :=
  (s.walk (inspector f) root st).map (·.2)

/-- What a visitor does at a node, by the kind of the node. -/
structure Hooks (σ β : Type) where
  /-- What it does at the nodes of any kind. -/
  node : Visitor σ β := fun _ st => .ok (.descend, st)
  /-- What it does at the nodes of one kind instead. -/
  ofKind? : Kind → Option (Visitor σ β) := fun _ => none

/-- The hook of the node's kind, or the one for any kind if there is none. Mirrors the
defaults of `Visitor.visit_expr` and its like. -/
def Hooks.visitor (h : Hooks σ β) : Visitor σ β := fun n => (h.ofKind? n.kind).getD h.node n

/-- What a recording visitor does. -/
structure Recorder where
  /-- The kind of nodes it records; every kind if there is none. -/
  kind? : Option Kind := none
  /-- Whether to stop after recording a node with its tag, given how many are
  recorded then. -/
  stop : Nat → Node → Tag → Bool := fun _ _ _ => false
  /-- Whether to go into the children of a recorded node. -/
  descend : Bool := true

/-- Records a node with its tag. -/
def record (s : Store) (r : Recorder) : Visitor (Array (Node × Tag)) Node := fun n seen => do
  let tag ← s.tagAt n
  let seen := seen.push (n, tag)
  if r.stop seen.size n tag then return (.stop n, seen)
  else return (if r.descend then .descend else .skip, seen)

/-- Records in one hook and leaves the others as they are. -/
def recorder (s : Store) (r : Recorder) : Visitor (Array (Node × Tag)) Node :=
  match r.kind? with
  | none => Hooks.visitor { node := s.record r }
  | some k => Hooks.visitor { ofKind? := fun l => if l = k then some (s.record r) else none }

end Store
end GoTree
