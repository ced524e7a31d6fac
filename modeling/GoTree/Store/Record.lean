import GoTree.Store.Basic
import GoTree.Text.Numeral
/-!
# Records

The one-line listing of what a node holds: the name of the construct and its
fields in declared order, with handles, ranges and symbols as numbers.
-/
namespace GoTree

/-- The short name of a construct, which drops the name of its kind. -/
def Tag.shortName : Tag → String
  | .badExpr | .badStmt | .badDecl => "Bad"
  | .parenExpr => "Paren"
  | .selectorExpr => "Selector"
  | .indexExpr => "Index"
  | .sliceExpr => "Slice"
  | .typeAssertExpr => "TypeAssert"
  | .callExpr => "Call"
  | .starExpr => "Star"
  | .unaryExpr => "Unary"
  | .binaryExpr => "Binary"
  | .keyValueExpr => "KeyValue"
  | .declStmt => "Decl"
  | .emptyStmt => "Empty"
  | .labeledStmt => "Labeled"
  | .exprStmt => "Expr"
  | .sendStmt => "Send"
  | .incDecStmt => "IncDec"
  | .assignStmt => "Assign"
  | .goStmt => "Go"
  | .deferStmt => "Defer"
  | .returnStmt => "Return"
  | .branchStmt => "Branch"
  | .blockStmt => "Block"
  | .ifStmt => "If"
  | .switchStmt => "Switch"
  | .typeSwitchStmt => "TypeSwitch"
  | .selectStmt => "Select"
  | .forStmt => "For"
  | .rangeStmt => "Range"
  | .genDecl => "Gen"
  | .funcDecl => "Func"
  | .importSpec => "Import"
  | .valueSpec => "Value"
  | .typeSpec => "Type"
  | t => t.name

/-- Whether the fields of a construct are listed as a record inside the name of
the construct. -/
def Tag.isNested : Tag → Bool
  | .ident | .basicLit | .genDecl | .funcDecl | .importSpec | .valueSpec | .typeSpec => true
  | _ => false

namespace Record

/-- A name around a value. -/
def wrap (name body : String) : String := name ++ "(" ++ body ++ ")"

/-- A value that may be absent. -/
def option {α : Type} (f : α → String) : Option α → String
  | none => "None"
  | some a => wrap "Some" (f a)

/-- Mirrors `Id.fmt`. -/
def handle {k : Kind} (h : Handle k) : String := wrap "Id" (Text.numeral h.raw)

def symbol (y : Symbol) : String := wrap "Symbol" (Text.numeral y.raw)

/-- Mirrors `ListRef.fmt`. -/
def list (r : ListRef) : String :=
  wrap "ListRef" (Text.numeral r.start ++ "+" ++ Text.numeral r.len)

/-- A named row of fields. -/
def row (name : String) (fields : List (String × String)) : String :=
  if fields.isEmpty then name
  else
    name ++ " \x7b " ++ ", ".intercalate (fields.map fun f => f.1 ++ ": " ++ f.2) ++ " \x7d"

def value : (t : FieldType) → t.Value → String
  | .node _, h => handle h
  | .optNode _, h? => option handle h?
  | .list _, r? => option list r?
  | .entries, r => list r
  | .text, y => symbol y
  | .scalar t, v => t.name v
  | .optScalar t, v? => option t.name v?

/-- The record of a content. -/
def content {k : Kind} (c : Content k) : String :=
  let fields := c.values.toList.map fun p => (p.1.name, value p.1.type p.2)
  if c.tag.isNested then wrap c.tag.shortName (row c.tag.name fields)
  else row c.tag.shortName fields

def entry (e : Entry) : String :=
  row "PackageFile" [("name", symbol e.name), ("file", handle e.file)]

def node (n : Node) : String := wrap n.kind.name (handle n.handle)

end Record
end GoTree
