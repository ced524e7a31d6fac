import GoTree.Copy.Error
import GoTree.Copy.Event
import GoTree.Store.Package
/-!
# Deep copies

A copier reads nodes from one store and appends copies to another, or to the
same store when it copies in place. Across stores the texts are interned anew;
in place they are shared. The fields of a node are copied in declared order, and
the node itself is added after them, without a position. A node that several
others refer to is copied once for each of them.

A failed copy leaves what it had added so far: the state of the copier goes on
after an error.

In place the store grows while it is read. Every list is read as a whole before
its items are copied.
-/
namespace GoTree

/-- Mirrors `Copier`. -/
structure Copier where
  /-- The store that is read; none when copying in place. -/
  source? : Option Store := none
  /-- The store that copies are added to. -/
  dest : Store
  /-- Number of nodes added. -/
  copied : Nat := 0
  /-- What was reported so far. -/
  log : Array CopyEvent := #[]

namespace Copier

/-- A copier from one store to another. Mirrors `Copier.new`. -/
def across (source dest : Store) : Copier := { source? := some source, dest := dest }

/-- A copier inside one store. Mirrors `Copier.in_place`. -/
def inPlace (store : Store) : Copier := { dest := store }

/-- The store that is read. Mirrors `Copier.source`. -/
def source (c : Copier) : Store := c.source?.getD c.dest

/-- Mirrors `Copier.is_in_place`. -/
def isInPlace (c : Copier) : Bool := c.source?.isNone

end Copier

/-- Copying as a step of a copier, which may fail and keeps its state then. -/
abbrev CopyM := EStateM CopyError Copier

namespace Copy

/-- Copies a node of a given kind. -/
abbrev NodeCopy := (k : Kind) → Handle k → CopyM (Handle k)

/-- Reads from the source. Mirrors `Copier.read`. -/
def read {α : Type} (f : Store → Except Dangling α) : CopyM α := fun c =>
  match f c.source with
  | .ok a => .ok a c
  | .error d => .error (.fault (.dangling d)) c

/-- Adds a node without a position and counts it. Mirrors `Copier.alloc`. -/
def add {k : Kind} (content : Content k) : CopyM (Handle k) := fun c =>
  let r := c.dest.alloc content Span.none
  .ok r.1 { c with dest := r.2, copied := c.copied + 1 }

def addList (k : Kind) (items : List (Handle k)) : CopyM ListRef := fun c =>
  let r := c.dest.allocList k items
  .ok r.1 { c with dest := r.2 }

def addEntries (items : List Entry) : CopyM ListRef := fun c =>
  let r := c.dest.allocEntries items
  .ok r.1 { c with dest := r.2 }

def report (e : CopyEvent) : CopyM Unit := fun c => .ok () { c with log := c.log.push e }

/-- The symbol of a text in the destination. In place it is the same symbol, which has
to resolve all the same. Mirrors `Copier.symbol`. -/
def symbol (y : Symbol) : CopyM Symbol := do
  let text ← read (·.textAt y)
  fun c =>
    if c.isInPlace then .ok y c
    else
      let r := c.dest.intern text
      .ok r.1 { c with dest := r.2 }

/-- Copies the node in a slot, which has to admit it. Mirrors `Copier.expr_slot`,
`Copier.block_id` and `Copier.import_spec_id`. -/
def slot (copy : NodeCopy) (sl : Slot) (h : Handle sl.kind) : CopyM (Handle sl.kind) := do
  let c ← read (·.contentAt h)
  if sl.admits c.tag then copy sl.kind h else throw (.unsupported c.tag sl)

/-- Copies a list item by item. Mirrors `Copier.list`. -/
def list (copy : NodeCopy) (sl : Slot) (r : ListRef) : CopyM ListRef := do
  let items ← read (·.listAt sl.kind r)
  let copies ← items.mapM (slot copy sl)
  addList sl.kind copies

/-- Copies an entry of a package. In place the copy refers to the same file. Mirrors the
two closures of `Copier.package_id`. -/
def entry (copy : NodeCopy) (e : Entry) : CopyM Entry := do
  if (← get).isInPlace then
    let _ ← read (·.contentAt e.file)
    let name ← symbol e.name
    return ⟨name, e.file⟩
  else
    let name ← symbol e.name
    let file ← copy .file e.file
    return ⟨name, file⟩

/-- Copies the entries of a package one by one. Mirrors `Copier.list` in
`Copier.package_id`. -/
def entries (copy : NodeCopy) (r : ListRef) : CopyM ListRef := do
  let items ← read (·.entriesAt r)
  let copies ← items.mapM (entry copy)
  addEntries copies

/-- Copies the value of a field. What is absent stays absent. Mirrors `Copier.opt` and
`Copier.list`. -/
def value (copy : NodeCopy) : (t : FieldType) → t.Value → CopyM t.Value
  | .node sl, h => slot copy sl h
  | .optNode _, none => pure none
  | .optNode sl, some h => do return some (← slot copy sl h)
  | .list _, none => pure none
  | .list sl, some r => do return some (← list copy sl r)
  | .entries, r => entries copy r
  | .text, y => symbol y
  | .scalar _, v => pure v
  | .optScalar _, v => pure v

/-- Reports a copied file or package. Mirrors the ends of `Copier.file_id` and
`Copier.package_id`. -/
def reportCopy (before : Nat) : {k : Kind} → (h copy : Handle k) → Content k → CopyM Unit
  | .file, h, copy, _ => do report (.file h copy ((← get).copied - before))
  | .package, h, copy, content => do
    report (.package h copy (Store.packageEntries content).len (← get).isInPlace)
  | _, _, _, _ => pure ()

/-- Copies a node that nests at most `depth` nodes. Mirrors `Copier.expr_id`,
`Copier.stmt_id` and their like for the other kinds, whose arms differ only in the
fields they copy. -/
def within : (depth : Nat) → NodeCopy
  | 0, _, _ => throw (.fault .cycle)
  | depth + 1, _, h => do
    let before := (← get).copied
    let c ← read (·.contentAt h)
    let values ← c.values.mapM (value (within depth))
    let content := { c with values := values }
    let copy ← add content
    reportCopy before h copy content
    return copy

/-- How deep a copy may nest: as deep as the store that is read when it
starts. -/
def depth : CopyM Nat := do return (← get).source.depth

end Copy
end GoTree
