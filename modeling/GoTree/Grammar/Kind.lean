/-!
# Kinds of nodes

A syntax tree has ten kinds of nodes. Each kind has a pool of its own, so a
handle is only meaningful together with its kind, and everything kept per kind
is a `ByKind` family.

The library follows an implementation of such trees definition by definition. Where a
docstring says that a definition mirrors `AstArena.alloc`, that is the function of the
implementation it stands for.
-/
namespace GoTree

/-- Mirrors `NodeKind`. -/
inductive Kind where
  | expr | stmt | decl | spec | field | fieldList | comment | commentGroup | file | package
  deriving DecidableEq, Repr

namespace Kind

/-- All kinds, in the order in which they are reported. -/
def all : List Kind :=
  [expr, stmt, decl, spec, field, fieldList, comment, commentGroup, file, package]

theorem mem_all (k : Kind) : k ∈ all := by cases k <;> simp [all]

/-- The word for a kind in messages. Mirrors `NodeKind.as_str`. -/
def noun : Kind → String
  | expr => "expression"
  | stmt => "statement"
  | decl => "declaration"
  | spec => "specification"
  | field => "field"
  | fieldList => "field list"
  | comment => "comment"
  | commentGroup => "comment group"
  | file => "file"
  | package => "package"

/-- The name of a kind in records. -/
def name : Kind → String
  | expr => "Expr"
  | stmt => "Stmt"
  | decl => "Decl"
  | spec => "Spec"
  | field => "Field"
  | fieldList => "FieldList"
  | comment => "Comment"
  | commentGroup => "CommentGroup"
  | file => "File"
  | package => "Package"

end Kind

/-- One value for each kind. -/
structure ByKind (F : Kind → Type) where
  expr : F .expr
  stmt : F .stmt
  decl : F .decl
  spec : F .spec
  field : F .field
  fieldList : F .fieldList
  comment : F .comment
  commentGroup : F .commentGroup
  file : F .file
  package : F .package

namespace ByKind

variable {F : Kind → Type}

/-- The family that a function lists. -/
def ofFn (f : (k : Kind) → F k) : ByKind F :=
  ⟨f .expr, f .stmt, f .decl, f .spec, f .field, f .fieldList, f .comment, f .commentGroup,
    f .file, f .package⟩

def get (b : ByKind F) : (k : Kind) → F k
  | .expr => b.expr
  | .stmt => b.stmt
  | .decl => b.decl
  | .spec => b.spec
  | .field => b.field
  | .fieldList => b.fieldList
  | .comment => b.comment
  | .commentGroup => b.commentGroup
  | .file => b.file
  | .package => b.package

/-- Changes the value of one kind. -/
def modify (b : ByKind F) : (k : Kind) → (F k → F k) → ByKind F
  | .expr, f => { b with expr := f b.expr }
  | .stmt, f => { b with stmt := f b.stmt }
  | .decl, f => { b with decl := f b.decl }
  | .spec, f => { b with spec := f b.spec }
  | .field, f => { b with field := f b.field }
  | .fieldList, f => { b with fieldList := f b.fieldList }
  | .comment, f => { b with comment := f b.comment }
  | .commentGroup, f => { b with commentGroup := f b.commentGroup }
  | .file, f => { b with file := f b.file }
  | .package, f => { b with package := f b.package }

@[simp] theorem get_ofFn (f : (k : Kind) → F k) (k : Kind) : (ofFn f).get k = f k := by
  cases k <;> rfl

@[simp] theorem get_modify_self (b : ByKind F) (k : Kind) (f : F k → F k) :
    (b.modify k f).get k = f (b.get k) := by
  cases k <;> rfl

theorem get_modify_of_ne (b : ByKind F) {k l : Kind} (f : F k → F k) (h : l ≠ k) :
    (b.modify k f).get l = b.get l := by
  cases k <;> cases l <;> first | rfl | exact absurd rfl h

/-- If the changed value is related to the old one, then every value is to its old one. -/
theorem rel_modify {R : (k : Kind) → F k → F k → Prop} (hrefl : ∀ k a, R k a a) (b : ByKind F)
    {k : Kind} {f : F k → F k} (hf : R k (b.get k) (f (b.get k))) (l : Kind) :
    R l (b.get l) ((b.modify k f).get l) := by
  by_cases hl : l = k
  · subst hl
    rw [get_modify_self]
    exact hf
  · rw [get_modify_of_ne b f hl]
    exact hrefl l _

theorem ext_get {a b : ByKind F} (h : ∀ k, a.get k = b.get k) : a = b := by
  cases a
  cases b
  simp only [mk.injEq]
  exact ⟨h .expr, h .stmt, h .decl, h .spec, h .field, h .fieldList, h .comment, h .commentGroup,
    h .file, h .package⟩

end ByKind
end GoTree
