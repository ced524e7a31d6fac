import GoTree.Grammar.Kind
/-!
# Tags

The tag of a node says which construct it stands for. A kind such as
expressions has many tags; a kind with a single form, such as fields, has one.
-/
namespace GoTree

/-- Mirrors `NodeTag`. -/
inductive Tag where
  | badExpr | ident | ellipsis | basicLit | funcLit | compositeLit | parenExpr | selectorExpr
  | indexExpr | sliceExpr | typeAssertExpr | callExpr | starExpr | unaryExpr | binaryExpr
  | keyValueExpr | arrayType | structType | funcType | interfaceType | mapType | chanType
  | badStmt | declStmt | emptyStmt | labeledStmt | exprStmt | sendStmt | incDecStmt | assignStmt
  | goStmt | deferStmt | returnStmt | branchStmt | blockStmt | ifStmt | caseClause | switchStmt
  | typeSwitchStmt | commClause | selectStmt | forStmt | rangeStmt
  | badDecl | genDecl | funcDecl
  | importSpec | valueSpec | typeSpec
  | field | fieldList | comment | commentGroup | file | package
  deriving DecidableEq, Repr

namespace Tag

/-- All tags, kind by kind. -/
def all : List Tag :=
  [badExpr, ident, ellipsis, basicLit, funcLit, compositeLit, parenExpr, selectorExpr, indexExpr,
    sliceExpr, typeAssertExpr, callExpr, starExpr, unaryExpr, binaryExpr, keyValueExpr, arrayType,
    structType, funcType, interfaceType, mapType, chanType,
    badStmt, declStmt, emptyStmt, labeledStmt, exprStmt, sendStmt, incDecStmt, assignStmt, goStmt,
    deferStmt, returnStmt, branchStmt, blockStmt, ifStmt, caseClause, switchStmt, typeSwitchStmt,
    commClause, selectStmt, forStmt, rangeStmt,
    badDecl, genDecl, funcDecl, importSpec, valueSpec, typeSpec,
    field, fieldList, comment, commentGroup, file, package]

theorem mem_all (t : Tag) : t ∈ all := by cases t <;> decide

/-- Mirrors the types that `Expr.tag`, `Stmt.tag`, `Decl.tag` and `Spec.tag` are defined
on. -/
def kind : Tag → Kind
  | badExpr | ident | ellipsis | basicLit | funcLit | compositeLit | parenExpr | selectorExpr
  | indexExpr | sliceExpr | typeAssertExpr | callExpr | starExpr | unaryExpr | binaryExpr
  | keyValueExpr | arrayType | structType | funcType | interfaceType | mapType | chanType => .expr
  | badStmt | declStmt | emptyStmt | labeledStmt | exprStmt | sendStmt | incDecStmt | assignStmt
  | goStmt | deferStmt | returnStmt | branchStmt | blockStmt | ifStmt | caseClause | switchStmt
  | typeSwitchStmt | commClause | selectStmt | forStmt | rangeStmt => .stmt
  | badDecl | genDecl | funcDecl => .decl
  | importSpec | valueSpec | typeSpec => .spec
  | field => .field
  | fieldList => .fieldList
  | comment => .comment
  | commentGroup => .commentGroup
  | file => .file
  | package => .package

/-- Mirrors `NodeTag.as_str`. -/
def name : Tag → String
  | badExpr => "BadExpr"
  | ident => "Ident"
  | ellipsis => "Ellipsis"
  | basicLit => "BasicLit"
  | funcLit => "FuncLit"
  | compositeLit => "CompositeLit"
  | parenExpr => "ParenExpr"
  | selectorExpr => "SelectorExpr"
  | indexExpr => "IndexExpr"
  | sliceExpr => "SliceExpr"
  | typeAssertExpr => "TypeAssertExpr"
  | callExpr => "CallExpr"
  | starExpr => "StarExpr"
  | unaryExpr => "UnaryExpr"
  | binaryExpr => "BinaryExpr"
  | keyValueExpr => "KeyValueExpr"
  | arrayType => "ArrayType"
  | structType => "StructType"
  | funcType => "FuncType"
  | interfaceType => "InterfaceType"
  | mapType => "MapType"
  | chanType => "ChanType"
  | badStmt => "BadStmt"
  | declStmt => "DeclStmt"
  | emptyStmt => "EmptyStmt"
  | labeledStmt => "LabeledStmt"
  | exprStmt => "ExprStmt"
  | sendStmt => "SendStmt"
  | incDecStmt => "IncDecStmt"
  | assignStmt => "AssignStmt"
  | goStmt => "GoStmt"
  | deferStmt => "DeferStmt"
  | returnStmt => "ReturnStmt"
  | branchStmt => "BranchStmt"
  | blockStmt => "BlockStmt"
  | ifStmt => "IfStmt"
  | caseClause => "CaseClause"
  | switchStmt => "SwitchStmt"
  | typeSwitchStmt => "TypeSwitchStmt"
  | commClause => "CommClause"
  | selectStmt => "SelectStmt"
  | forStmt => "ForStmt"
  | rangeStmt => "RangeStmt"
  | badDecl => "BadDecl"
  | genDecl => "GenDecl"
  | funcDecl => "FuncDecl"
  | importSpec => "ImportSpec"
  | valueSpec => "ValueSpec"
  | typeSpec => "TypeSpec"
  | field => "Field"
  | fieldList => "FieldList"
  | comment => "Comment"
  | commentGroup => "CommentGroup"
  | file => "File"
  | package => "Package"

/-- The tag with a given name. -/
def ofName? (s : String) : Option Tag := all.find? fun t => t.name == s

/-- The tag of a kind that has only one. -/
def only? : Kind → Option Tag
  | .expr | .stmt | .decl | .spec => none
  | .field => some field
  | .fieldList => some fieldList
  | .comment => some comment
  | .commentGroup => some commentGroup
  | .file => some file
  | .package => some package

end Tag
end GoTree
