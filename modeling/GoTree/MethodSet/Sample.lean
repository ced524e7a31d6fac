import GoTree.Store.Basic
/-!
# The sample file

A small source text with an interface and a struct, and its syntax tree. Spans
are found by searching the text, which is ASCII: characters are bytes.
-/
namespace GoTree.MethodSet.Sample

def source : String :=
  "package geo\n\n" ++
  "type Shape interface \x7b\n    Area() float64\n    Perimeter() float64\n\x7d\n\n" ++
  "type Point struct \x7b\n    X, Y float64\n\x7d\n"

/-- The offset of the occurrence of `needle` that has `nth` others before it, in
a text whose first character has the offset `i`. -/
def occurrence (needle : List Char) : (nth i : Nat) → List Char → Nat
  | _, i, [] => i
  | nth, i, c :: cs =>
    if needle.isPrefixOf (c :: cs) then
      match nth with
      | 0 => i
      | nth + 1 => occurrence needle nth (i + 1) cs
    else occurrence needle nth (i + 1) cs

def span (start stop : Nat) : Span := ⟨UInt32.ofNat start, UInt32.ofNat stop⟩

/-- The span of an occurrence of a text. Mirrors `at`. -/
def spanOf (needle : String) (nth : Nat := 0) : Span :=
  let start := occurrence needle.toList nth 0 source.toList
  span start (start + needle.length)

/-- Building a tree by adding to a store. -/
abbrev Build := StateM Store

def add {k : Kind} (content : Content k) (span : Span) : Build (Handle k) :=
  fun s => s.alloc content span

def addList {k : Kind} (items : List (Handle k)) : Build ListRef := fun s => s.allocList k items

def addIdent (name : String) (span : Span) : Build (Handle .expr) := fun s => s.addIdent name span

def addField (names : Option ListRef) (type : Handle .expr) (span : Span) :
    Build (Handle .field) :=
  add (.of .field (.cons none (.cons names (.cons type (.cons none (.cons none .nil)))))) span

def addFieldList (list : Option ListRef) (span : Span) : Build (Handle .fieldList) :=
  add (.of .fieldList (.cons list .nil)) span

/-- A method without parameters whose result is the `nth` mention of `float64`. Mirrors
`method`. -/
def addMethod (name : String) (nth : Nat) : Build (Handle .field) := do
  let whole := spanOf (name ++ "() float64")
  let nameSpan := span whole.start.toNat (whole.start.toNat + name.length)
  let parens := span nameSpan.stop.toNat (nameSpan.stop.toNat + 2)
  let resultSpan := spanOf "float64" nth
  let resultType ← addIdent "float64" resultSpan
  let result ← addField none resultType resultSpan
  let results ← addFieldList (some (← addList [result])) resultSpan
  let params ← addFieldList none parens
  let type ← add (.of .funcType (.cons params (.cons (some results) .nil))) (parens.through whole)
  let ident ← addIdent name nameSpan
  let names ← addList [ident]
  addField (some names) type whole

/-- The declaration of a type. Mirrors `type_decl`. -/
def addTypeDecl (name : String) (type : Handle .expr) (typeSpan : Span) :
    Build (Handle .decl) := do
  let keyword := spanOf ("type " ++ name)
  let nameSpan := span (keyword.start.toNat + 5) keyword.stop.toNat
  let ident ← addIdent name nameSpan
  let spec ← add
    (.of .typeSpec (.cons none (.cons ident (.cons false (.cons type (.cons none .nil))))))
    (nameSpan.through typeSpan)
  let specs ← addList [spec]
  add (.of .genDecl (.cons none (.cons DeclKeyword.typeKw (.cons false (.cons (some specs) .nil)))))
    (keyword.through typeSpan)

/-- The tree of the sample. Mirrors `build`. -/
def build : Build (Handle .file) := do
  let package ← addIdent "geo" (spanOf "geo")
  let area ← addMethod "Area" 0
  let perimeter ← addMethod "Perimeter" 1
  let methods ← addFieldList (some (← addList [area, perimeter]))
    ((spanOf "\x7b").through (spanOf "\x7d"))
  let interfaceSpan := (spanOf "interface").through (spanOf "\x7d")
  let interface ← add (.of .interfaceType (.cons methods (.cons false .nil))) interfaceSpan
  let shape ← addTypeDecl "Shape" interface interfaceSpan
  let x ← addIdent "X" (spanOf "X")
  let y ← addIdent "Y" (spanOf "Y")
  let names ← addList [x, y]
  let coordinateSpan := spanOf "float64" 2
  let coordinate ← addIdent "float64" coordinateSpan
  let field ← addField (some names) coordinate ((spanOf "X").through coordinateSpan)
  let fields ← addFieldList (some (← addList [field]))
    ((spanOf "\x7b" 1).through (spanOf "\x7d" 1))
  let structSpan := (spanOf "struct").through (spanOf "\x7d" 1)
  let struct ← add (.of .structType (.cons fields (.cons false .nil))) structSpan
  let point ← addTypeDecl "Point" struct structSpan
  let decls ← addList [shape, point]
  add (.of .file (.cons none (.cons package (.cons (some decls)
    (.cons none (.cons none (.cons none .nil))))))) (span 0 source.length)

end GoTree.MethodSet.Sample
