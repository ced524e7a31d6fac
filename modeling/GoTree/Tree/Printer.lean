import GoTree.Tree.Basic
import GoTree.Text.Quoted
/-!
# Printed trees

A tree is printed on one line: a construct in parentheses with its tag and its
labelled fields, a list in brackets, texts in quotes.

Which fields of a construct are printed, in which order and under which labels is
a table of the printer, `Tag.shown`. It names the fields; their values are looked
up among those that the grammar declares.

`Tree.print` says what is printed. `Tree.printOnto` appends it to a text that is
there already, so that a deep tree is printed in one pass.

* `printOnto_eq`: what is appended is what `print` gives.
-/
namespace GoTree

/-- A field of a construct as it is printed. -/
structure Shown where
  /-- The label before the value; some values stand bare. -/
  label : Option String
  /-- The field of the construct that is printed. -/
  field : String
  deriving DecidableEq, Repr

namespace Shown

/-- A field under a label of its own. -/
def labelled (label field : String) : Shown := ⟨some label, field⟩

/-- A field under its name. -/
def named (field : String) : Shown := labelled field field

/-- A field without a label. -/
def bare (field : String) : Shown := ⟨none, field⟩

/-- What stands before the value. Mirrors `Dumper.field`. -/
def lead (f : Shown) : String :=
  match f.label with
  | some l => " " ++ l ++ ":"
  | none => " "

end Shown

open GoTree.Shown in
/-- What is printed of each construct, from left to right. Mirrors the arms of
`Dump.dump`, which list the fields one by one and not as they are declared. -/
def Tag.shown : Tag → List Shown
  | .badExpr | .badStmt | .badDecl => []
  -- expressions
  | .ident => [bare "name"]
  | .basicLit => [bare "kind", bare "value"]
  | .ellipsis => [named "elt"]
  | .funcLit => [labelled "type" "typ", named "body"]
  | .compositeLit => [labelled "type" "typ", named "elts", named "incomplete"]
  | .parenExpr | .starExpr => [named "x"]
  | .selectorExpr => [named "x", named "sel"]
  | .indexExpr => [named "x", named "index"]
  | .sliceExpr => [named "x", named "low", named "high", named "max", named "slice3"]
  | .typeAssertExpr => [named "x", labelled "type" "typ"]
  | .callExpr => [named "fun", named "args", named "has_ellipsis"]
  | .unaryExpr => [named "op", named "x"]
  | .binaryExpr => [named "x", named "op", named "y"]
  | .keyValueExpr | .mapType => [named "key", named "value"]
  | .arrayType => [named "len", named "elt"]
  | .structType => [named "fields", named "incomplete"]
  | .funcType => [named "params", named "results"]
  | .interfaceType => [named "methods", named "incomplete"]
  | .chanType => [named "dir", named "value"]
  -- statements
  | .declStmt => [named "decl"]
  | .emptyStmt => [named "implicit"]
  | .labeledStmt => [named "label", named "stmt"]
  | .exprStmt => [named "x"]
  | .sendStmt => [named "chan", named "value"]
  | .incDecStmt => [named "x", named "op"]
  | .assignStmt => [named "lhs", named "op", named "rhs"]
  | .goStmt | .deferStmt => [named "call"]
  | .returnStmt => [named "results"]
  | .branchStmt => [named "kind", named "label"]
  | .blockStmt => [named "list"]
  | .ifStmt => [named "init", named "cond", named "body", labelled "else" "else_branch"]
  | .caseClause => [named "list", named "body"]
  | .switchStmt => [named "init", named "tag", named "body"]
  | .typeSwitchStmt => [named "init", named "assign", named "body"]
  | .commClause => [named "comm", named "body"]
  | .selectStmt => [named "body"]
  | .forStmt => [named "init", named "cond", named "post", named "body"]
  | .rangeStmt => [named "key", named "value", labelled "tok" "op", named "x", named "body"]
  -- declarations and specifications
  | .genDecl => [named "doc", named "kind", named "parenthesized", named "specs"]
  | .funcDecl => [named "doc", named "recv", named "name", labelled "type" "typ", named "body"]
  | .importSpec => [named "doc", named "name", named "path", named "comment"]
  | .valueSpec =>
    [named "doc", named "names", labelled "type" "typ", named "values", named "comment"]
  | .typeSpec => [named "doc", named "name", named "alias", labelled "type" "typ", named "comment"]
  -- the kinds of one construct
  | .field => [named "doc", named "names", labelled "type" "typ", named "tag", named "comment"]
  | .fieldList => [named "list"]
  | .comment => [bare "text"]
  | .commentGroup => [named "list"]
  | .file =>
    [named "doc", named "name", named "decls", named "imports", named "unresolved",
      named "comments"]
  | .package => [named "name", named "files"]

/-- What belongs to the fields of a construct, brought from the declared order into
the printed one. -/
def Tag.arrange {α : Type} (tag : Tag) (values : List α) : List (Shown × α) :=
  let declared := (tag.fields.map (·.name)).zip values
  tag.shown.filterMap fun f => (declared.lookup f.field).map (f, ·)

/-- The texts of fields, each after its label. -/
def Shown.join : List (Shown × String) → String
  | [] => ""
  | (f, text) :: rest => f.lead ++ text ++ join rest

namespace Tree

mutual

/-- The text of a tree. Mirrors `Dump.dump` of nodes, lists and leaves. -/
def print : Tree → String
  | .node tag fields => "(" ++ tag.name ++ Shown.join (tag.arrange (printAll fields)) ++ ")"
  | .absent => "nil"
  | .list items => "[" ++ printItems items ++ "]"
  | .text s => Text.quote s
  | .word name => name
  | .entry name file => Text.quote name ++ ": " ++ print file

def printAll : List Tree → List String
  | [] => []
  | t :: ts => print t :: printAll ts

/-- The items of a list, with spaces between them. -/
def printItems : List Tree → String
  | [] => ""
  | [t] => print t
  | t :: ts => print t ++ " " ++ printItems ts

end

mutual

/-- Appends the text of a tree. -/
def printOnto : Tree → String → String
  | .node tag fields, out =>
    (tag.arrange (printers fields)).foldl (fun out p => p.2 (out ++ p.1.lead))
      (out ++ "(" ++ tag.name) ++ ")"
  | .absent, out => out ++ "nil"
  | .list items, out => printItemsOnto items (out ++ "[") ++ "]"
  | .text s, out => out ++ Text.quote s
  | .word name, out => out ++ name
  | .entry name file, out => printOnto file (out ++ Text.quote name ++ ": ")

/-- What appends the text of each tree. -/
def printers : List Tree → List (String → String)
  | [] => []
  | t :: ts => (fun out => printOnto t out) :: printers ts

/-- Appends the items of a list. -/
def printItemsOnto : List Tree → String → String
  | [], out => out
  | [t], out => printOnto t out
  | t :: ts, out => printItemsOnto ts (printOnto t out ++ " ")

end

end Tree

/-! ## Printing in one pass -/

theorem lookup_zip_map {α β : Type} (g : α → β) (name : String) :
    ∀ (names : List String) (values : List α),
      (names.zip (values.map g)).lookup name = ((names.zip values).lookup name).map g
  | [], _ | _ :: _, [] => by simp
  | n :: names, v :: values => by
    have ih := lookup_zip_map g name names values
    cases h : name == n <;> simp [List.lookup_cons, h, ih]

/-- Only the places of the values are arranged. -/
theorem Tag.arrange_map {α β : Type} (tag : Tag) (g : α → β) (values : List α) :
    tag.arrange (values.map g) = (tag.arrange values).map fun p => (p.1, g p.2) := by
  simp only [arrange, lookup_zip_map, List.map_filterMap, Option.map_map, Function.comp_def]

theorem Shown.foldl_join : ∀ (texts : List (Shown × String)) (out : String),
    texts.foldl (fun out p => out ++ p.1.lead ++ p.2) out = out ++ join texts
  | [], out => by simp [join]
  | (f, text) :: rest, out => by
    rw [List.foldl_cons, foldl_join rest]
    simp [join, String.append_assoc]

namespace Tree

mutual

theorem printOnto_eq : ∀ (t : Tree) (out : String), printOnto t out = out ++ print t
  | .node tag fields, out => by
    rw [printOnto, printers_eq, Tag.arrange_map, List.foldl_map, Shown.foldl_join]
    simp [print, String.append_assoc]
  | .absent, _ => rfl
  | .list items, out => by
    simp [printOnto, print, printItemsOnto_eq items, String.append_assoc]
  | .text _, _ => rfl
  | .word _, _ => rfl
  | .entry name file, out => by
    simp [printOnto, print, printOnto_eq file, String.append_assoc]

theorem printers_eq : ∀ ts : List Tree,
    printers ts = (printAll ts).map fun text out => out ++ text
  | [] => rfl
  | t :: ts => by
    rw [printers, printAll, List.map_cons, printers_eq ts, funext (printOnto_eq t)]

theorem printItemsOnto_eq : ∀ (ts : List Tree) (out : String),
    printItemsOnto ts out = out ++ printItems ts
  | [], out => by simp [printItemsOnto, printItems]
  | [t], out => by simp [printItemsOnto, printItems, printOnto_eq t]
  | t :: u :: ts, out => by
    simp [printItemsOnto, printItems, printOnto_eq t, printItemsOnto_eq (u :: ts),
      String.append_assoc]

end

end Tree

namespace Store

/-- The printed tree under a node. Mirrors `dump`. -/
def dump (s : Store) (n : Node) : Except Fault String := (s.unfold n).map (·.printOnto "")

/-- The dump of a node is the printed form of what it unfolds to. -/
theorem dump_eq_print (s : Store) (n : Node) : s.dump n = (s.unfold n).map Tree.print := by
  simp [dump, Tree.printOnto_eq]

/-- The printed tree under a node that may be absent. Mirrors `dump_opt`. -/
def dumpOpt (s : Store) : Option Node → Except Fault String
  | none => .ok Tree.absent.print
  | some n => s.dump n

end Store
end GoTree
