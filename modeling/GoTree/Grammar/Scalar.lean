/-!
# Scalars

The fields of a node that are neither references nor texts: flags, operators
and the keywords that choose between forms of one construct. A scalar is
written by its name, and within its type the name determines it.
-/
namespace GoTree

/-- Form of a basic literal. Mirrors `BasicLitKind`. -/
inductive LiteralForm where
  | int | float | imag | char | string
  deriving DecidableEq, Repr

/-- Keyword of a general declaration. Mirrors `GenDeclKind`. -/
inductive DeclKeyword where
  | importKw | constKw | typeKw | varKw
  deriving DecidableEq, Repr

/-- Operator of a unary expression. Mirrors `UnaryOp`. -/
inductive UnaryOp where
  | add | sub | not | xor | addr | recv | tilde
  deriving DecidableEq, Repr

/-- Operator of a binary expression. Mirrors `BinaryOp`. -/
inductive BinaryOp where
  | add | sub | mul | div | mod | and | or | xor | shl | shr | andNot | landOp | lorOp
  | eq | ne | lt | le | gt | ge
  deriving DecidableEq, Repr

/-- Operator of an assignment. Mirrors `AssignOp`. -/
inductive AssignOp where
  | assign | define | add | sub | mul | div | mod | and | or | xor | shl | shr | andNot
  deriving DecidableEq, Repr

/-- Increment or decrement. Mirrors `IncDecOp`. -/
inductive StepOp where
  | inc | dec
  deriving DecidableEq, Repr

/-- Keyword of a branch statement. Mirrors `BranchKind`. -/
inductive BranchKeyword where
  | breakKw | continueKw | gotoKw | fallthroughKw
  deriving DecidableEq, Repr

/-- Direction of a channel. Mirrors `ChanDir`. -/
inductive ChanDir where
  | both | send | recv
  deriving DecidableEq, Repr

/-- The types of scalars. -/
inductive ScalarType where
  | flag | literalForm | declKeyword | unaryOp | binaryOp | assignOp | stepOp | branchKeyword
  | chanDir
  deriving DecidableEq, Repr

namespace ScalarType

/-- The values of a scalar type. -/
def Value : ScalarType → Type
  | flag => Bool
  | literalForm => LiteralForm
  | declKeyword => DeclKeyword
  | unaryOp => UnaryOp
  | binaryOp => BinaryOp
  | assignOp => AssignOp
  | stepOp => StepOp
  | branchKeyword => BranchKeyword
  | chanDir => ChanDir

instance : (t : ScalarType) → DecidableEq t.Value
  | flag => inferInstanceAs (DecidableEq Bool)
  | literalForm => inferInstanceAs (DecidableEq LiteralForm)
  | declKeyword => inferInstanceAs (DecidableEq DeclKeyword)
  | unaryOp => inferInstanceAs (DecidableEq UnaryOp)
  | binaryOp => inferInstanceAs (DecidableEq BinaryOp)
  | assignOp => inferInstanceAs (DecidableEq AssignOp)
  | stepOp => inferInstanceAs (DecidableEq StepOp)
  | branchKeyword => inferInstanceAs (DecidableEq BranchKeyword)
  | chanDir => inferInstanceAs (DecidableEq ChanDir)

/-- The name by which a scalar is written. Mirrors `Dumper.scalar`. -/
def name : (t : ScalarType) → t.Value → String
  | flag, true => "true"
  | flag, false => "false"
  | literalForm, .int => "Int"
  | literalForm, .float => "Float"
  | literalForm, .imag => "Imag"
  | literalForm, .char => "Char"
  | literalForm, .string => "String"
  | declKeyword, .importKw => "Import"
  | declKeyword, .constKw => "Const"
  | declKeyword, .typeKw => "Type"
  | declKeyword, .varKw => "Var"
  | unaryOp, .add => "Add"
  | unaryOp, .sub => "Sub"
  | unaryOp, .not => "Not"
  | unaryOp, .xor => "Xor"
  | unaryOp, .addr => "Addr"
  | unaryOp, .recv => "Recv"
  | unaryOp, .tilde => "Tilde"
  | binaryOp, .add => "Add"
  | binaryOp, .sub => "Sub"
  | binaryOp, .mul => "Mul"
  | binaryOp, .div => "Div"
  | binaryOp, .mod => "Mod"
  | binaryOp, .and => "And"
  | binaryOp, .or => "Or"
  | binaryOp, .xor => "Xor"
  | binaryOp, .shl => "Shl"
  | binaryOp, .shr => "Shr"
  | binaryOp, .andNot => "AndNot"
  | binaryOp, .landOp => "LAnd"
  | binaryOp, .lorOp => "LOr"
  | binaryOp, .eq => "Eq"
  | binaryOp, .ne => "Ne"
  | binaryOp, .lt => "Lt"
  | binaryOp, .le => "Le"
  | binaryOp, .gt => "Gt"
  | binaryOp, .ge => "Ge"
  | assignOp, .assign => "Assign"
  | assignOp, .define => "Define"
  | assignOp, .add => "AddAssign"
  | assignOp, .sub => "SubAssign"
  | assignOp, .mul => "MulAssign"
  | assignOp, .div => "DivAssign"
  | assignOp, .mod => "ModAssign"
  | assignOp, .and => "AndAssign"
  | assignOp, .or => "OrAssign"
  | assignOp, .xor => "XorAssign"
  | assignOp, .shl => "ShlAssign"
  | assignOp, .shr => "ShrAssign"
  | assignOp, .andNot => "AndNotAssign"
  | stepOp, .inc => "Inc"
  | stepOp, .dec => "Dec"
  | branchKeyword, .breakKw => "Break"
  | branchKeyword, .continueKw => "Continue"
  | branchKeyword, .gotoKw => "Goto"
  | branchKeyword, .fallthroughKw => "Fallthrough"
  | chanDir, .both => "Both"
  | chanDir, .send => "Send"
  | chanDir, .recv => "Recv"

/-- All values of a scalar type. -/
def values : (t : ScalarType) → List t.Value
  | flag => [false, true]
  | literalForm => [.int, .float, .imag, .char, .string]
  | declKeyword => [.importKw, .constKw, .typeKw, .varKw]
  | unaryOp => [.add, .sub, .not, .xor, .addr, .recv, .tilde]
  | binaryOp =>
    [.add, .sub, .mul, .div, .mod, .and, .or, .xor, .shl, .shr, .andNot, .landOp, .lorOp,
      .eq, .ne, .lt, .le, .gt, .ge]
  | assignOp =>
    [.assign, .define, .add, .sub, .mul, .div, .mod, .and, .or, .xor, .shl, .shr, .andNot]
  | stepOp => [.inc, .dec]
  | branchKeyword => [.breakKw, .continueKw, .gotoKw, .fallthroughKw]
  | chanDir => [.both, .send, .recv]

/-- The scalar with a given name. -/
def ofName? (t : ScalarType) (s : String) : Option t.Value :=
  t.values.find? fun v => t.name v == s

end ScalarType
end GoTree
