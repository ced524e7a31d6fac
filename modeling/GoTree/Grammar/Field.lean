import GoTree.Grammar.Scalar
import GoTree.Grammar.Tag
/-!
# The grammar

For each tag, the fields of a node in their declared order, as the constructs of
the grammar declare them. Copying, unfolding, walking and writing records go
through this table. The printer has a table of its own.
-/
namespace GoTree

/-- What a reference to a node may point at: any node of a kind, or only the nodes of
one tag. Mirrors `Slot`. -/
inductive Slot where
  | any (kind : Kind)
  | ident
  | basicLit
  | call
  | funcType
  | block
  | importSpec
  deriving DecidableEq, Repr

namespace Slot

def kind : Slot → Kind
  | any k => k
  | ident | basicLit | call | funcType => .expr
  | block => .stmt
  | importSpec => .spec

/-- The one tag that a restricted slot takes. -/
def tag? : Slot → Option Tag
  | any _ => none
  | ident => some .ident
  | basicLit => some .basicLit
  | call => some .callExpr
  | funcType => some .funcType
  | block => some .blockStmt
  | importSpec => some .importSpec

/-- Whether a node with tag `t`, of the slot's kind, may stand in the slot. Mirrors the
test given to `Copier.expr_slot`. -/
def admits (s : Slot) (t : Tag) : Bool :=
  match s.tag? with
  | none => true
  | some u => t == u

/-- The words for a slot in messages. Mirrors `Slot.as_str`. -/
def noun : Slot → String
  | any _ => "node"
  | ident => "identifier"
  | basicLit => "basic literal"
  | call => "call expression"
  | funcType => "function type"
  | block => "block statement"
  | importSpec => "import spec"

end Slot

/-- The type of a field. -/
inductive FieldType where
  /-- A reference to a node. -/
  | node (slot : Slot)
  /-- A reference that may be absent. -/
  | optNode (slot : Slot)
  /-- A list of references that may be absent. -/
  | list (slot : Slot)
  /-- The entries of a package. -/
  | entries
  /-- An interned text. -/
  | text
  | scalar (type : ScalarType)
  /-- A scalar that may be absent. -/
  | optScalar (type : ScalarType)
  deriving DecidableEq, Repr

/-- A field of a construct. -/
structure Field where
  name : String
  type : FieldType
  /-- Whether a walk goes into the field. A file's indices refer to nodes that
  are met elsewhere, so they are left out. -/
  walked : Bool := true
  deriving DecidableEq, Repr

namespace Field

def node (name : String) (slot : Slot) : Field := ⟨name, .node slot, true⟩

def opt (name : String) (slot : Slot) : Field := ⟨name, .optNode slot, true⟩

def list (name : String) (slot : Slot) : Field := ⟨name, .list slot, true⟩

def text (name : String) : Field := ⟨name, .text, true⟩

def scalar (name : String) (type : ScalarType) : Field := ⟨name, .scalar type, true⟩

def flag (name : String) : Field := scalar name .flag

/-- The field left out of walks. Mirrors the attribute `walk(skip)`. -/
def index (f : Field) : Field := { f with walked := false }

end Field

open GoTree.Field in
/-- The fields of each construct, in declared order. Mirrors the declarations of `Expr`,
`Stmt`, `Decl`, `Spec`, `Field`, `FieldList`, `Comment`, `CommentGroup`, `File` and
`Package`. -/
def Tag.fields : Tag → List Field
  | .badExpr | .badStmt | .badDecl => []
  | .ident => [text "name"]
  | .ellipsis => [opt "elt" (.any .expr)]
  | .basicLit => [scalar "kind" .literalForm, text "value"]
  | .funcLit => [node "typ" .funcType, node "body" .block]
  | .compositeLit => [opt "typ" (.any .expr), list "elts" (.any .expr), flag "incomplete"]
  | .parenExpr => [node "x" (.any .expr)]
  | .selectorExpr => [node "x" (.any .expr), node "sel" .ident]
  | .indexExpr => [node "x" (.any .expr), node "index" (.any .expr)]
  | .sliceExpr =>
    [node "x" (.any .expr), opt "low" (.any .expr), opt "high" (.any .expr),
      opt "max" (.any .expr), flag "slice3"]
  | .typeAssertExpr => [node "x" (.any .expr), opt "typ" (.any .expr)]
  | .callExpr => [node "fun" (.any .expr), list "args" (.any .expr), flag "has_ellipsis"]
  | .starExpr => [node "x" (.any .expr)]
  | .unaryExpr => [scalar "op" .unaryOp, node "x" (.any .expr)]
  | .binaryExpr => [node "x" (.any .expr), scalar "op" .binaryOp, node "y" (.any .expr)]
  | .keyValueExpr => [node "key" (.any .expr), node "value" (.any .expr)]
  | .arrayType => [opt "len" (.any .expr), node "elt" (.any .expr)]
  | .structType => [node "fields" (.any .fieldList), flag "incomplete"]
  | .funcType => [node "params" (.any .fieldList), opt "results" (.any .fieldList)]
  | .interfaceType => [node "methods" (.any .fieldList), flag "incomplete"]
  | .mapType => [node "key" (.any .expr), node "value" (.any .expr)]
  | .chanType => [scalar "dir" .chanDir, node "value" (.any .expr)]
  | .declStmt => [node "decl" (.any .decl)]
  | .emptyStmt => [flag "implicit"]
  | .labeledStmt => [node "label" .ident, node "stmt" (.any .stmt)]
  | .exprStmt => [node "x" (.any .expr)]
  | .sendStmt => [node "chan" (.any .expr), node "value" (.any .expr)]
  | .incDecStmt => [node "x" (.any .expr), scalar "op" .stepOp]
  | .assignStmt => [list "lhs" (.any .expr), scalar "op" .assignOp, list "rhs" (.any .expr)]
  | .goStmt => [node "call" .call]
  | .deferStmt => [node "call" .call]
  | .returnStmt => [list "results" (.any .expr)]
  | .branchStmt => [scalar "kind" .branchKeyword, opt "label" .ident]
  | .blockStmt => [list "list" (.any .stmt)]
  | .ifStmt =>
    [opt "init" (.any .stmt), node "cond" (.any .expr), node "body" .block,
      opt "else_branch" (.any .stmt)]
  | .caseClause => [list "list" (.any .expr), list "body" (.any .stmt)]
  | .switchStmt => [opt "init" (.any .stmt), opt "tag" (.any .expr), node "body" .block]
  | .typeSwitchStmt => [opt "init" (.any .stmt), node "assign" (.any .stmt), node "body" .block]
  | .commClause => [opt "comm" (.any .stmt), list "body" (.any .stmt)]
  | .selectStmt => [node "body" .block]
  | .forStmt =>
    [opt "init" (.any .stmt), opt "cond" (.any .expr), opt "post" (.any .stmt),
      node "body" .block]
  | .rangeStmt =>
    [opt "key" (.any .expr), opt "value" (.any .expr), ⟨"op", .optScalar .assignOp, true⟩,
      node "x" (.any .expr), node "body" .block]
  | .genDecl =>
    [opt "doc" (.any .commentGroup), scalar "kind" .declKeyword, flag "parenthesized",
      list "specs" (.any .spec)]
  | .funcDecl =>
    [opt "doc" (.any .commentGroup), opt "recv" (.any .fieldList), node "name" .ident,
      node "typ" .funcType, opt "body" .block]
  | .importSpec =>
    [opt "doc" (.any .commentGroup), opt "name" .ident, node "path" .basicLit,
      opt "comment" (.any .commentGroup)]
  | .valueSpec =>
    [opt "doc" (.any .commentGroup), list "names" .ident, opt "typ" (.any .expr),
      list "values" (.any .expr), opt "comment" (.any .commentGroup)]
  | .typeSpec =>
    [opt "doc" (.any .commentGroup), node "name" .ident, flag "alias", node "typ" (.any .expr),
      opt "comment" (.any .commentGroup)]
  | .field =>
    [opt "doc" (.any .commentGroup), list "names" .ident, node "typ" (.any .expr),
      opt "tag" .basicLit, opt "comment" (.any .commentGroup)]
  | .fieldList => [list "list" (.any .field)]
  | .comment => [text "text"]
  | .commentGroup => [list "list" (.any .comment)]
  | .file =>
    [opt "doc" (.any .commentGroup), node "name" .ident, list "decls" (.any .decl),
      (list "imports" .importSpec).index, (list "unresolved" .ident).index,
      (list "comments" (.any .commentGroup)).index]
  | .package => [text "name", ⟨"files", .entries, true⟩]

end GoTree
