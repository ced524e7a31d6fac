import GoTree.Store.Fault
/-!
# Content trees

A content tree is what a node stands for once its handles, ranges and symbols
are followed: constructs with their fields, lists, texts and words. It has no
handles and no spans, so it compares nodes of different stores.

`Store.unfold` reads the tree under a node. A node that several others refer to
is unfolded once for each of them.
-/
namespace GoTree

inductive Tree where
  /-- A construct with the values of its fields in declared order. -/
  | node (tag : Tag) (fields : List Tree)
  /-- A reference, list or scalar that is not there. -/
  | absent
  | list (items : List Tree)
  | text (s : String)
  /-- A scalar by its name. -/
  | word (name : String)
  /-- A file of a package under its name. -/
  | entry (name : String) (file : Tree)

namespace Store

/-- The tree of an entry. -/
def unfoldEntry (s : Store) (child : Node → Except Fault Tree) (e : Entry) :
    Except Fault Tree := do
  let name ← orFault (s.textAt e.name)
  let file ← child e.file.node
  return .entry name file

/-- The tree of a field, given how to unfold a node. -/
def unfoldValue (s : Store) (child : Node → Except Fault Tree) :
    (t : FieldType) → t.Value → Except Fault Tree
  | .node _, h => child h.node
  | .optNode _, none => .ok .absent
  | .optNode _, some h => child h.node
  | .list _, none => .ok .absent
  | .list slot, some r => do
    let hs ← orFault (s.listAt slot.kind r)
    let items ← hs.mapM fun h => child h.node
    return .list items
  | .entries, r => do
    let es ← orFault (s.entriesAt r)
    let items ← es.mapM (s.unfoldEntry child)
    return .list items
  | .text, y => (orFault (s.textAt y)).map .text
  | .scalar t, v => .ok (.word (t.name v))
  | .optScalar _, none => .ok .absent
  | .optScalar t, some v => .ok (.word (t.name v))

/-- The tree under a node that nests at most `depth` nodes. -/
def unfoldWithin (s : Store) : (depth : Nat) → Node → Except Fault Tree
  | 0, _ => .error .cycle
  | depth + 1, n => do
    let c ← orFault (s.contentAt n.handle)
    let fields ← c.values.toList.mapM fun p =>
      s.unfoldValue (s.unfoldWithin depth) p.1.type p.2
    return .node c.tag fields

/-- The tree under a node. -/
def unfold (s : Store) (n : Node) : Except Fault Tree := s.unfoldWithin s.depth n

end Store
end GoTree
