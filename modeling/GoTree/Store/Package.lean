import GoTree.Store.Basic
/-!
# Packages

A package lists its files by name. When it is made from unordered pairs its
entries are sorted by the bytes of the names, and pairs of equal name keep their
order, so that a look-up by name gives the pair that came first.
-/
namespace GoTree.Store

/-- Whether the bytes of `a` come before those of `b` or are the same. -/
def bytesLE (a b : List UInt8) : Bool :=
  match a, b with
  | [], _ => true
  | _ :: _, [] => false
  | x :: xs, y :: ys => if x = y then bytesLE xs ys else x < y

/-- Whether one file name comes before another or is the same. Mirrors the comparison in
`AstArena.package`. -/
def nameLE (a b : String) : Bool := bytesLE a.toUTF8.data.toList b.toUTF8.data.toList

/-- Interns the file names in order. -/
def internEntries : Store → List (String × Handle .file) → List Entry × Store
  | s, [] => ([], s)
  | s, (name, file) :: rest =>
    let r := s.intern name
    let q := internEntries r.2 rest
    (⟨r.1, file⟩ :: q.1, q.2)

/-- Adds a package of named files. Mirrors `AstArena.package`. -/
def addPackage (s : Store) (name : String) (files : List (String × Handle .file)) (span : Span) :
    Handle .package × Store :=
  let sorted := files.mergeSort fun a b => nameLE a.1 b.1
  let r := s.intern name
  let q := r.2.internEntries sorted
  let p := q.2.allocEntries q.1
  p.2.alloc (.of .package (.cons r.1 (.cons p.1 .nil))) span

/-- The entry range of a package. -/
def packageEntries : Content .package → ListRef
  | ⟨.package, .cons _ (.cons r .nil), _⟩ => r

/-- The first file of a package with a given name. Mirrors `AstArena.package_file`. -/
def packageFile (s : Store) (p : Handle .package) (name : String) :
    Except Dangling (Option (Handle .file)) := do
  let c ← s.contentAt p
  let entries ← s.entriesAt (packageEntries c)
  return (entries.find? fun e => s.text? e.name == some name).map (·.file)

end GoTree.Store
