import GoTree.Store.Fault
import GoTree.Text.Numeral
/-!
# Failed copies

Why a copy fails: a slot holds a construct it does not admit, or the nodes to be
copied cannot be read.
-/
namespace GoTree

/-- Mirrors `CopyError`. -/
inductive CopyError where
  | unsupported (tag : Tag) (slot : Slot)
  | fault (f : Fault)
  deriving DecidableEq, Repr

/-- What does not resolve. -/
def Dangling.subject : Dangling → String
  | .node kind raw => kind.noun ++ " handle " ++ Text.numeral raw
  | .list r => "list " ++ Text.numeral r.start ++ "+" ++ Text.numeral r.len
  | .symbol y => "symbol " ++ Text.numeral y.raw

/-- The sentence shown for an error. Mirrors the messages of `CopyError`. -/
def CopyError.message : CopyError → String
  | unsupported tag slot => "unsupported " ++ tag.name ++ " in " ++ slot.noun ++ " slot"
  | fault (.dangling d) => d.subject ++ " does not resolve in the source arena"
  | fault .cycle => "a node of the source arena lies below itself"

end GoTree
