import GoTree.Log
import GoTree.Position.Basic
import GoTree.Walk
/-!
# Locating a node by position

The search for the first node, in pre-order, that contains a position and
satisfies a predicate. A node contains the positions from the start of its span
to its end, both included. Nodes are laid out in source order, so a node that
starts after the position ends the search.

The predicate has a state and may fail; a failure ends the search too. What the
search did is part of its result: how many nodes it visited, which offsets it
turned into positions, which nodes it tested.
-/
namespace GoTree

/-- A test of nodes that carries a state and may fail. -/
abbrev Predicate (τ ε : Type) := Node → τ → Except ε Bool × τ

/-- What ends a search before the end of the tree. Mirrors `Stop`. -/
inductive SearchStop (ε : Type) where
  | passed
  | found (n : Node)
  | failed (e : ε)
  deriving DecidableEq, Repr

/-- Why a search ended. -/
inductive SearchEnd where
  | exhausted
  | passed
  | found
  | failed
  deriving DecidableEq, Repr

def SearchEnd.text : SearchEnd → String
  | exhausted => "exhausted"
  | passed => "passed"
  | found => "found"
  | failed => "predicate failed"

/-- What a search reports. Mirrors the events of `Search.visit_node` and
`Locator.locate`. -/
inductive SearchEvent where
  /-- A node was tested; `ok` says that the test did not fail. -/
  | tested (n : Node) (ok : Bool)
  | finished (wanted : Position) (visited : Nat) (reason : SearchEnd)
  deriving DecidableEq, Repr

def SearchEvent.line : SearchEvent → Log.Line
  | tested n ok =>
    ⟨.trace, "evaluated predicate",
      [("kind", n.kind.noun), ("raw", Text.numeral n.raw), ("ok", Log.bool ok)]⟩
  | finished wanted visited reason =>
    ⟨.debug, "locate finished",
      [("at", wanted.text), ("visited", Text.numeral visited), ("reason", reason.text)]⟩

/-- The state of a search. Mirrors `Search`. -/
structure Search (τ : Type) where
  /-- Number of nodes visited. -/
  visited : Nat := 0
  /-- The offsets whose position was asked for. -/
  offsets : Array UInt32 := #[]
  /-- What was reported so far. -/
  log : Array SearchEvent := #[]
  /-- The state of the predicate. -/
  memory : τ

/-- The outcome of a search. -/
structure Located (τ ε : Type) where
  result : Except ε (Option Node)
  reason : SearchEnd
  search : Search τ

namespace Store

variable {τ ε : Type}

/-- Visits a node: compares its span with the wanted position, and tests the node if it
contains it. Mirrors `Search.visit_node`. -/
def searcher (s : Store) (resolve : UInt32 → Position) (wanted : Position)
    (test : Predicate τ ε) : Visitor (Search τ) (SearchStop ε) := fun n st => do
  let span ← s.spanAt n
  let st := { st with visited := st.visited + 1, offsets := st.offsets.push span.start }
  if wanted < resolve span.start then return (.stop .passed, st)
  let st := { st with offsets := st.offsets.push span.stop }
  if wanted ≤ resolve span.stop then
    match test n st.memory with
    | (.ok matched, memory) =>
      let st := { st with memory := memory, log := st.log.push (.tested n true) }
      return (if matched then .stop (.found n) else .descend, st)
    | (.error e, memory) =>
      let st := { st with memory := memory, log := st.log.push (.tested n false) }
      return (.stop (.failed e), st)
  else return (.descend, st)

/-- The outcome of a search by how its walk ended. Mirrors the match in
`Locator.locate`. -/
def outcome : Option (SearchStop ε) → Except ε (Option Node) × SearchEnd
  | none => (.ok none, .exhausted)
  | some .passed => (.ok none, .passed)
  | some (.found n) => (.ok (some n), .found)
  | some (.failed e) => (.error e, .failed)

/-- Searches the tree under `root`. Mirrors `Locator.locate`. -/
def locate (s : Store) (resolve : UInt32 → Position) (root : Node) (wanted : Position)
    (test : Predicate τ ε) (memory : τ) : Except Fault (Located τ ε) := do
  let (stop?, st) ← s.walk (s.searcher resolve wanted test) root { memory := memory }
  let (result, reason) := outcome stop?
  let st := { st with log := st.log.push (.finished wanted st.visited reason) }
  return ⟨result, reason, st⟩

/-- The test of a plain property of nodes. -/
def plainTest (p : Node → Bool) : Predicate Unit Empty := fun n u => (.ok (p n), u)

/-- The first node under `root` that contains a position and has a property. Mirrors
`Locator.find`. -/
def find (s : Store) (resolve : UInt32 → Position) (root : Node) (wanted : Position)
    (p : Node → Bool) : Except Fault (Option Node) := do
  let l ← s.locate resolve root wanted (plainTest p) ()
  match l.result with
  | .ok n? => return n?

end Store
end GoTree
