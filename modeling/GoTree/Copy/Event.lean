import GoTree.Log
import GoTree.Node
import GoTree.Text.Numeral
/-!
# Copy events

What a copier reports while it copies.
-/
namespace GoTree

/-- Mirrors the events of `Copier.node_id`, `Copier.file_id` and `Copier.package_id`. -/
inductive CopyEvent where
  /-- A node of any kind is about to be copied. -/
  | node (n : Node)
  /-- A file was copied, with the number of nodes that this added. -/
  | file (source copy : Handle .file) (nodes : Nat)
  /-- A package was copied, with its number of files and whether the copy refers
  to the same files. -/
  | package (source copy : Handle .package) (files : Nat) (shared : Bool)
  deriving DecidableEq, Repr

def CopyEvent.line : CopyEvent → Log.Line
  | node n => ⟨.trace, "copy node", [("kind", n.kind.noun), ("raw", Text.numeral n.raw)]⟩
  | file source copy nodes =>
    ⟨.debug, "copied file",
      [("source", Text.numeral source.raw), ("copy", Text.numeral copy.raw),
        ("nodes", Text.numeral nodes)]⟩
  | package source copy files shared =>
    ⟨.debug, "copied package",
      [("source", Text.numeral source.raw), ("copy", Text.numeral copy.raw),
        ("files", Text.numeral files), ("shared_files", Log.bool shared)]⟩

end GoTree
