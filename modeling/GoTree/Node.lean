import GoTree.Grammar.Field
import GoTree.Span
/-!
# Nodes

A node is named by its kind and its index in the pool of that kind. Lists of
nodes are named by a range of the kind's list buffer and texts by their index
among the interned texts. These names are plain numbers: whether they resolve
is a question to a store.

A store in use hands its names out as 32-bit words, and cuts the index of a node, the
start and the length of a range and the index of a text to that width. Here the names
have no width, which makes no difference below 2^32. `Proofs.Store.Words` has the words
and the bound.

`Content k` is what a node of kind `k` holds: a tag of that kind and a value
for each field the grammar gives the tag.
-/
namespace GoTree

/-- The index of a node in the pool of its kind. Mirrors `Id`. -/
structure Handle (kind : Kind) where
  raw : Nat
  deriving DecidableEq, Repr

/-- A node of any kind. Mirrors `Node`. -/
structure Node where
  kind : Kind
  raw : Nat
  deriving DecidableEq, Repr

/-- The node that a handle names. Mirrors `Node.from`. -/
def Handle.node {k : Kind} (h : Handle k) : Node := ⟨k, h.raw⟩

/-- The handle of a node. -/
def Node.handle (n : Node) : Handle n.kind := ⟨n.raw⟩

/-- A range of a list buffer. Mirrors `ListRef`. -/
structure ListRef where
  start : Nat
  len : Nat
  deriving DecidableEq, Repr

/-- The range at the start of a buffer that holds nothing. Mirrors `ListRef.EMPTY`. -/
def ListRef.empty : ListRef := ⟨0, 0⟩

/-- One past the last index of the range. Mirrors `ListRef.end`. -/
def ListRef.stop (r : ListRef) : Nat := r.start + r.len

/-- The index of an interned text. Mirrors `Symbol`. -/
structure Symbol where
  raw : Nat
  deriving DecidableEq, Repr

/-- A file of a package under its file name. Mirrors `PackageFile`. -/
structure Entry where
  name : Symbol
  file : Handle .file
  deriving DecidableEq, Repr

/-- The values of a field type. -/
def FieldType.Value : FieldType → Type
  | .node slot => Handle slot.kind
  | .optNode slot => Option (Handle slot.kind)
  | .list _ => Option ListRef
  | .entries => ListRef
  | .text => Symbol
  | .scalar t => t.Value
  | .optScalar t => Option t.Value

instance : (t : FieldType) → DecidableEq t.Value
  | .node slot => inferInstanceAs (DecidableEq (Handle slot.kind))
  | .optNode slot => inferInstanceAs (DecidableEq (Option (Handle slot.kind)))
  | .list _ => inferInstanceAs (DecidableEq (Option ListRef))
  | .entries => inferInstanceAs (DecidableEq ListRef)
  | .text => inferInstanceAs (DecidableEq Symbol)
  | .scalar t => inferInstanceAs (DecidableEq t.Value)
  | .optScalar t => inferInstanceAs (DecidableEq (Option t.Value))

/-- One value for each field of a list. -/
inductive Values : List Field → Type where
  | nil : Values []
  | cons {f : Field} {fs : List Field} (value : f.type.Value) (rest : Values fs) :
      Values (f :: fs)

namespace Values

/-- Whether two rows of values are equal, field by field. -/
def decEq : {fs : List Field} → (vs ws : Values fs) → Decidable (vs = ws)
  | _, .nil, .nil => isTrue rfl
  | _, .cons v vs, .cons w ws =>
    if h : v = w then
      match decEq vs ws with
      | isTrue h' => isTrue (by rw [h, h'])
      | isFalse h' => isFalse fun e => h' (by cases e; rfl)
    else isFalse fun e => h (by cases e; rfl)

instance {fs : List Field} : DecidableEq (Values fs) := decEq

/-- Replaces every value, from the first field to the last. -/
def mapM {m : Type → Type} [Monad m]
    (f : (t : FieldType) → t.Value → m t.Value) : {fs : List Field} → Values fs → m (Values fs)
  | _, .nil => pure .nil
  | g :: _, .cons v vs => do
    let w ← f g.type v
    let ws ← mapM f vs
    return .cons w ws

/-- The values beside their fields, in order. -/
def toList : {fs : List Field} → Values fs → List ((f : Field) × f.type.Value)
  | _, .nil => []
  | f :: _, .cons v vs => ⟨f, v⟩ :: toList vs

end Values

/-- What a node of kind `k` holds. Mirrors `Expr`, `Stmt`, `Decl`, `Spec` and the other
node types. -/
structure Content (k : Kind) where
  tag : Tag
  values : Values tag.fields
  kind_eq : tag.kind = k
  deriving DecidableEq

/-- A content whose tag is known. -/
abbrev Content.of (tag : Tag) (values : Values tag.fields) : Content tag.kind :=
  ⟨tag, values, rfl⟩

/-- A reference out of a node: to one node, to a list of nodes, or to the
entries of a package. -/
inductive Link where
  | node (n : Node)
  | list (kind : Kind) (r : ListRef)
  | entries (r : ListRef)
  deriving DecidableEq, Repr

/-- The reference in a field, if there is one. -/
def FieldType.link? : (t : FieldType) → t.Value → Option Link
  | .node _, h => some (.node h.node)
  | .optNode _, h? => h?.map fun h => .node h.node
  | .list slot, r? => r?.map (.list slot.kind)
  | .entries, r => some (.entries r)
  | .text, _ => none
  | .scalar _, _ => none
  | .optScalar _, _ => none

/-- The references of a content, in declared order. -/
def Content.links {k : Kind} (c : Content k) : List Link :=
  c.values.toList.filterMap fun p => p.1.type.link? p.2

/-- The references that a walk follows. Mirrors the derived `Walk.walk` of the node
types. -/
def Content.walkedLinks {k : Kind} (c : Content k) : List Link :=
  (c.values.toList.filter fun p => p.1.walked).filterMap fun p => p.1.type.link? p.2

end GoTree
