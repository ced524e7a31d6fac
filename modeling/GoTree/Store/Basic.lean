import GoTree.Interner
import GoTree.Store.Pool
/-!
# The store

A store holds the nodes of many syntax trees: a pool of nodes for each kind, a
buffer of list items for each kind, the entries of packages, and the interned
texts. Everything is appended and never moved, so a handle, a range or a symbol
keeps its meaning. Reading a name that resolves to nothing gives the `Dangling`
cause.
-/
namespace GoTree

/-- A name that resolves to nothing. -/
inductive Dangling where
  | node (kind : Kind) (raw : Nat)
  | list (r : ListRef)
  | symbol (y : Symbol)
  deriving DecidableEq, Repr

/-- Nodes, lists and texts. Mirrors `AstArena`. -/
structure Store where
  nodes : ByKind Pool := .ofFn fun _ => .empty
  lists : ByKind fun k => Array (Handle k) := .ofFn fun _ => #[]
  entries : Array Entry := #[]
  interner : Interner textHash := .empty

namespace Store

/-- The store that holds nothing. -/
def empty : Store := {}

/-! ## Reading -/

/-- The content of a node that resolves. Mirrors `SpannedArena.try_get`. -/
def content? (s : Store) {k : Kind} (h : Handle k) : Option (Content k) :=
  (s.nodes.get k).contents[h.raw]?

/-- The span of a node that resolves. Mirrors `AstArena.try_span`. -/
def span? (s : Store) (n : Node) : Option Span := (s.nodes.get n.kind).spans[n.raw]?

/-- The content of a node. Mirrors `SpannedArena.get`. -/
def contentAt (s : Store) {k : Kind} (h : Handle k) : Except Dangling (Content k) :=
  match s.content? h with
  | some c => .ok c
  | none => .error (.node k h.raw)

/-- The span of a node. Mirrors `AstArena.span`. -/
def spanAt (s : Store) (n : Node) : Except Dangling Span :=
  match s.span? n with
  | some span => .ok span
  | none => .error (.node n.kind n.raw)

/-- The tag of a node. The tag of a kind that has only one is known without
reading the node. Mirrors `AstArena.tag`. -/
def tagAt (s : Store) (n : Node) : Except Dangling Tag :=
  match Tag.only? n.kind with
  | some t => .ok t
  | none => (s.contentAt n.handle).map (·.tag)

/-- The tag of a node that resolves. Mirrors `AstArena.try_tag`. -/
def tag? (s : Store) (n : Node) : Option Tag := (s.content? n.handle).map (·.tag)

/-- The items of a list of nodes of kind `k`. An empty range resolves too only
if it starts inside the buffer or at its end. Mirrors `ListStore.try_list`. -/
def listAt (s : Store) (k : Kind) (r : ListRef) : Except Dangling (List (Handle k)) :=
  let buffer := s.lists.get k
  if r.stop ≤ buffer.size then .ok (buffer.extract r.start r.stop).toList else .error (.list r)

/-- The entries in a range of package entries. Mirrors `ListStore.try_list`. -/
def entriesAt (s : Store) (r : ListRef) : Except Dangling (List Entry) :=
  if r.stop ≤ s.entries.size then .ok (s.entries.extract r.start r.stop).toList
  else .error (.list r)

/-- The text of a symbol that resolves. Mirrors `Interner.try_resolve`. -/
def text? (s : Store) (y : Symbol) : Option String := s.interner.text? y

/-- The text of a symbol. Mirrors `AstArena.name`. -/
def textAt (s : Store) (y : Symbol) : Except Dangling String :=
  match s.text? y with
  | some t => .ok t
  | none => .error (.symbol y)

/-- The symbol of an identifier. -/
def identSymbol? {k : Kind} : Content k → Option Symbol
  | ⟨.ident, .cons y .nil, _⟩ => some y
  | _ => none

/-- The name of a node that is an identifier. Mirrors `AstArena.ident_name`. -/
def identName? (s : Store) (n : Node) : Option String := do
  let c ← s.content? n.handle
  let y ← identSymbol? c
  s.text? y

/-- The nodes that a reference names, in order. -/
def targets (s : Store) : Link → Except Dangling (List Node)
  | .node n => .ok [n]
  | .list k r => (s.listAt k r).map fun hs => hs.map Handle.node
  | .entries r => (s.entriesAt r).map fun es => es.map fun e => e.file.node

/-- Number of nodes of all kinds. -/
def nodeCount (s : Store) : Nat := Kind.all.foldl (fun n k => n + (s.nodes.get k).size) 0

/-! ## Writing -/

/-- Adds a node. Mirrors `AstArena.alloc`. -/
def alloc (s : Store) {k : Kind} (c : Content k) (span : Span) : Handle k × Store :=
  (⟨(s.nodes.get k).size⟩, { s with nodes := s.nodes.modify k (·.push c span) })

/-- Adds a list of nodes of kind `k`. Mirrors `AstArena.push_list`. -/
def allocList (s : Store) (k : Kind) (items : List (Handle k)) : ListRef × Store :=
  (⟨(s.lists.get k).size, items.length⟩,
    { s with lists := s.lists.modify k (· ++ items.toArray) })

/-- Adds package entries. Mirrors `AstArena.list_package_files`. -/
def allocEntries (s : Store) (items : List Entry) : ListRef × Store :=
  (⟨s.entries.size, items.length⟩, { s with entries := s.entries ++ items.toArray })

/-- The symbol of a text. Mirrors `AstArena.intern`. -/
def intern (s : Store) (text : String) : Symbol × Store :=
  let r := s.interner.intern text
  (r.1, { s with interner := r.2 })

/-- Overwrites the content of a node and keeps its span. Mirrors an assignment
through `SpannedArena.get_mut`. -/
def setContent (s : Store) {k : Kind} (h : Handle k) (c : Content k) : Except Dangling Store :=
  if h.raw < (s.nodes.get k).contents.size then
    .ok { s with nodes := s.nodes.modify k (·.setContent h.raw c) }
  else .error (.node k h.raw)

/-- Overwrites the span of a node. Mirrors `SpannedArena.set_span`. -/
def setSpan (s : Store) (n : Node) (span : Span) : Except Dangling Store :=
  if n.raw < (s.nodes.get n.kind).spans.size then
    .ok { s with nodes := s.nodes.modify n.kind (·.setSpan n.raw span) }
  else .error (.node n.kind n.raw)

/-- Adds an identifier. Mirrors `AstArena.ident`. -/
def addIdent (s : Store) (name : String) (span : Span) : Handle .expr × Store :=
  let r := s.intern name
  r.2.alloc (.of .ident (.cons r.1 .nil)) span

end Store
end GoTree
