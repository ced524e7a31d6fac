import GoTree.Copy.Request
import GoTree.Locate
import GoTree.Tree.Printer
/-!
# Method sets

Finds the type declaration at a position and, if it declares an interface,
copies the methods of the interface into a store of their own: first the names
and the signature of each method, then the interface as a whole.
-/
namespace GoTree.MethodSet

/-- What is found at a position. -/
inductive Report where
  /-- No type is declared there. -/
  | missing
  /-- The declared type is something else than an interface. -/
  | other (name : String) (tag : Tag)
  /-- An interface, with the number of nodes copied, the names and printed
  signature of each method, and the printed copy. -/
  | interface (name : String) (copied : Nat) (methods : List (List String × String))
      (text : String)
  deriving DecidableEq, Repr

/-- The name and the type in a type declaration. -/
def declaredType? {k : Kind} : Content k → Option (Handle .expr × Handle .expr)
  | ⟨.typeSpec, .cons _ (.cons name (.cons _ (.cons type (.cons _ .nil)))), _⟩ => some (name, type)
  | _ => none

/-- The methods of an interface type. -/
def methods? {k : Kind} : Content k → Option (Handle .fieldList)
  | ⟨.interfaceType, .cons methods (.cons _ .nil), _⟩ => some methods
  | _ => none

/-- The list in a field list. -/
def fieldRange : Content .fieldList → ListRef
  | ⟨.fieldList, .cons r? .nil, _⟩ => r?.getD ListRef.empty

/-- The names and the type of a field. -/
def fieldParts : Content .field → Option ListRef × Handle .expr
  | ⟨.field, .cons _ (.cons names (.cons type (.cons _ (.cons _ .nil)))), _⟩ => (names, type)

/-- Copies the names and the signature of a method. -/
def copyMethod (m : Handle .field) : CopyM (Option ListRef × Option (Handle .expr)) := do
  let (names, type) := fieldParts (← Copy.read (·.contentAt m))
  let names ← Copy.listOpt .ident names
  let signature ← Copy.slotOpt .funcType (some type)
  return (names, signature)

/-- Copies the methods of an interface one by one, then the interface. -/
def copyAll (methods : Handle .fieldList) (type : Handle .expr) :
    CopyM (List (Option ListRef × Option (Handle .expr)) × Option (Handle .expr)) := do
  let range := fieldRange (← Copy.read (·.contentAt methods))
  let fields ← Copy.read (·.listAt .field range)
  let signatures ← fields.mapM copyMethod
  let copy ← Copy.slotOpt (.any .expr) (some type)
  return (signatures, copy)

/-- The names and the printed signature of a copied method. -/
def printMethod (s : Store) (m : Option ListRef × Option (Handle .expr)) :
    Except Fault (List String × String) := do
  let names ← orFault (s.listAt .expr (m.1.getD ListRef.empty))
  let text ← s.dumpOpt (m.2.map Handle.node)
  return (names.filterMap fun h => s.identName? h.node, text)

/-- A failure to read as a failure to copy. -/
def faulty {α : Type} : Except Fault α → Except CopyError α
  | .ok a => .ok a
  | .error f => .error (.fault f)

/-- Reports on the type declared at a position of the file under `root`. Mirrors the
part of `main` between reading its argument and printing. -/
def report (s : Store) (resolve : UInt32 → Position) (root : Node) (wanted : Position) :
    Except CopyError Report := do
  let found ← faulty (s.find resolve root wanted fun n => s.tag? n == some .typeSpec)
  let some spec := found | return .missing
  let content ← faulty (orFault (s.contentAt spec.handle))
  let some (name, type) := declaredType? content | return .missing
  let name := (s.identName? name.node).getD "?"
  let content ← faulty (orFault (s.contentAt type))
  let some methods := methods? content | return .other name content.tag
  match copyAll methods type (.across s .empty) with
  | .error e _ => throw e
  | .ok (signatures, copy) c =>
    let printed ← faulty (signatures.mapM (printMethod c.dest))
    let text ← faulty (c.dest.dumpOpt (copy.map Handle.node))
    return .interface name c.copied printed text

end GoTree.MethodSet
