import GoTree.Proofs.Tree.Openings
import GoTree.Proofs.Walk.Occurrences
/-!
# Walks meet what is printed

A walk follows the fields that the grammar marks as walked, in declared order. A dump
prints what the printer's own table lists. The two tables agree on the order of all
fields, and the fields that a walk leaves out are the indices of a file: its imports,
unresolved names and comments. So a walk meets, in order, the constructs that the
dump opens outside of these.

* `Tree.unindexed_openings`: the constructs of a tree outside of indices are those in
  walked fields.
* `Unfolds.shows`: a walk meets the constructs of a tree that are in walked fields.
* `inspect_eq_openings`: what a walk meets can be read off the printed text.
-/
namespace GoTree

/-! ## Indices -/

/-- Whether a field, given by its tag and label, is an index of a file. -/
def isIndex (field : String × String) : Bool :=
  field.1 == "File" && ["imports", "unresolved", "comments"].contains field.2

/-- Whether a construct was opened inside an index of a file. -/
def Opening.indexed (o : Opening) : Bool := o.inside.any isIndex

/-- The tags of the constructs that were opened outside of indices. -/
def unindexed (os : List Opening) : List String :=
  (os.filter fun o => !o.indexed).map (·.tag)

theorem unindexed_append (os ps : List Opening) :
    unindexed (os ++ ps) = unindexed os ++ unindexed ps := by
  simp [unindexed]

theorem unindexed_singleton (tag : String) (inside : List (String × String)) :
    unindexed [⟨tag, inside⟩] = if inside.any isIndex then [] else [tag] := by
  cases h : inside.any isIndex <;> simp [unindexed, Opening.indexed, h]

/-- What is printed under the label of an index is a field that walks leave out, and
nothing else is one. -/
def Indexes (tag : String) (f : Shown) (g : Field) : Prop :=
  ∀ label, isIndex (tag, f.label.getD label) = !g.walked

/-- The fields that walks leave out are the indices of a file. -/
theorem Tag.forall₂_indexes (t : Tag) : List.Forall₂ (Indexes t.name) t.shown t.fields := by
  have key : ∀ t ∈ Tag.all, ∀ p ∈ t.shown.zip t.fields,
      (p.1.label = none → t.name ≠ "File" ∧ p.2.walked = true) ∧
        ∀ l ∈ p.1.label, isIndex (t.name, l) = !p.2.walked := by decide +kernel
  refine List.forall₂_iff_zip.mpr ⟨t.length_shown, fun {f g} hfg label => ?_⟩
  obtain ⟨hbare, hlabel⟩ := key t t.mem_all (f, g) hfg
  dsimp only at hbare hlabel
  cases hl : f.label with
  | none =>
    obtain ⟨hne, hwalked⟩ := hbare hl
    simp [isIndex, hne, hwalked]
  | some l => exact hlabel l hl

namespace Tree

mutual

/-- The tags of the constructs that are not in a field left out of walks. -/
def tags : Tree → List Tag
  | .node tag fields => tag :: tagsFields tag.fields fields
  | .list items => tagsItems items
  | .entry _ file => tags file
  | .absent | .text _ | .word _ => []

def tagsFields : List Field → List Tree → List Tag
  | f :: fs, t :: ts => (if f.walked then tags t else []) ++ tagsFields fs ts
  | _, _ => []

def tagsItems : List Tree → List Tag
  | [] => []
  | t :: ts => tags t ++ tagsItems ts

end

mutual

theorem unindexed_openings : ∀ (t : Tree) (inside : List (String × String)),
    unindexed (t.openings inside) =
      if inside.any isIndex then [] else t.tags.map Tag.name
  | .node tag ts, inside => by
    rw [openings, tags, ← List.singleton_append, unindexed_append, unindexed_singleton,
      unindexed_openingsFields tag.forall₂_indexes ts inside ""]
    cases inside.any isIndex <;> simp
  | .list ts, inside => by
    rw [openings, tags]
    exact unindexed_openingsItems ts inside
  | .entry _ file, inside => by
    rw [openings, tags]
    exact unindexed_openings file inside
  | .absent, _ | .text _, _ | .word _, _ => by simp [openings, tags, unindexed]

theorem unindexed_openingsFields {tag : String} : ∀ {shown : List Shown} {fs : List Field},
    List.Forall₂ (Indexes tag) shown fs →
    ∀ (ts : List Tree) (inside : List (String × String)) (label : String),
      unindexed (openingsFields inside tag label shown ts) =
        if inside.any isIndex then [] else (tagsFields fs ts).map Tag.name
  | _, _, .nil, _, _, _ => by simp [openingsFields, tagsFields, unindexed]
  | _, _, .cons _ _, [], _, _ => by simp [openingsFields, tagsFields, unindexed]
  | f :: _, g :: _, .cons hfg hrest, t :: ts, inside, label => by
    have hlater := unindexed_openingsFields hrest ts inside (f.label.getD label)
    have hvalue := unindexed_openings t ((tag, f.label.getD label) :: inside)
    rw [List.any_cons, hfg] at hvalue
    rw [openingsFields, tagsFields, unindexed_append, hvalue, hlater]
    cases g.walked <;> cases inside.any isIndex <;> simp

theorem unindexed_openingsItems : ∀ (ts : List Tree) (inside : List (String × String)),
    unindexed (openingsItems inside ts) =
      if inside.any isIndex then [] else (tagsItems ts).map Tag.name
  | [], _ => by simp [openingsItems, tagsItems, unindexed]
  | t :: ts, inside => by
    rw [openingsItems, tagsItems, unindexed_append, unindexed_openings t inside,
      unindexed_openingsItems ts inside]
    cases inside.any isIndex <;> simp

end

end Tree
/-! ## What a walk meets -/

namespace Part

/-- The references of a part that a walk follows. -/
def walkedLinks : (p : Part) → p.Value → List Link
  | .values _, vs => ((Values.toList vs).filter fun p => p.1.walked).filterMap fun p =>
      p.1.type.link? p.2
  | p, v => p.links v

/-- The tags of the constructs that a walk meets in a part. -/
def tags : (p : Part) → p.Shape → List Tag
  | .node _, t | .value _, t => Tree.tags t
  | .values fs, ts => Tree.tagsFields fs ts
  | .items _, ts | .entries, ts => Tree.tagsItems ts

theorem walkedLinks_values_cons {f : Field} {fs : List Field} (v : f.type.Value)
    (vs : Values fs) : (Part.values (f :: fs)).walkedLinks (.cons v vs) =
      (if f.walked then (Part.value f.type).links v else []) ++
        (Part.values fs).walkedLinks vs := by
  simp only [walkedLinks, links, Values.toList]
  cases hf : f.walked
  · simp [hf]
  · cases hl : f.type.link? v <;> simp [hf, hl]

end Part

namespace Store

variable {s : Store}

theorem mapM_append_eq_ok {ε α β : Type} {f : α → Except ε β} {as as' : List α} {bs bs' : List β}
    (h : as.mapM f = .ok bs) (h' : as'.mapM f = .ok bs') :
    (as ++ as').mapM f = .ok (bs ++ bs') := by
  rw [List.mapM_append, h, h']
  rfl

/-- A walk that follows the references meets nodes with these tags. -/
def Shows (s : Store) (ls : List Link) (tags : List Tag) : Prop :=
  ∃ mss, ls.mapM s.targets = .ok mss ∧
    ∀ above, ∃ os, s.Visits above mss.flatten os ∧ os.map (s.tag? ·.node) = tags.map some

theorem shows_nil : s.Shows [] [] := ⟨[], rfl, fun _ => ⟨[], .nil, rfl⟩⟩

theorem Shows.append {ls ms : List Link} {ts us : List Tag} (h : s.Shows ls ts)
    (h' : s.Shows ms us) : s.Shows (ls ++ ms) (ts ++ us) := by
  obtain ⟨mss, hmss, hvisits⟩ := h
  obtain ⟨nss, hnss, hvisits'⟩ := h'
  refine ⟨mss ++ nss, mapM_append_eq_ok hmss hnss, fun above => ?_⟩
  obtain ⟨os, hos, htags⟩ := hvisits above
  obtain ⟨ps, hps, htags'⟩ := hvisits' above
  refine ⟨os ++ ps, ?_, ?_⟩
  · rw [List.flatten_append]
    exact hos.append hps
  · rw [List.map_append, List.map_append, htags, htags']

theorem mapM_targets_node (s : Store) : ∀ ns : List Node,
    (ns.map Link.node).mapM s.targets = .ok (ns.map fun n => [n])
  | [] => rfl
  | _ :: ns => mapM_cons_eq_ok.mpr ⟨_, _, rfl, mapM_targets_node s ns, rfl⟩

/-- A reference to many nodes shows what references to each of them show. -/
theorem Shows.gather {l : Link} {ns : List Node} {ts : List Tag} (hl : s.targets l = .ok ns)
    (h : s.Shows (ns.map .node) ts) : s.Shows [l] ts := by
  obtain ⟨mss, hmss, hvisits⟩ := h
  rw [mapM_targets_node, Except.ok.injEq] at hmss
  have hflat : mss.flatten = ns := by
    rw [← hmss, ← List.flatMap_def, List.flatMap_singleton']
  refine ⟨[ns], mapM_cons_eq_ok.mpr ⟨ns, [], hl, rfl, rfl⟩, fun above => ?_⟩
  simpa [hflat] using hvisits above

theorem shows_node {k : Kind} {h : Handle k} {c : Content k} {ts : List Tag}
    (hc : s.contentAt h = .ok c) (hv : s.Shows c.walkedLinks ts) :
    s.Shows [.node h.node] (c.tag :: ts) := by
  obtain ⟨mss, hmss, hvisits⟩ := hv
  have hms : s.children h.node = .ok mss.flatten := children_eq_ok.mpr ⟨c, mss, hc, hmss, rfl⟩
  refine ⟨[[h.node]], rfl, fun above => ?_⟩
  obtain ⟨os, hos, htags⟩ := hvisits (h.node :: above)
  refine ⟨_, .cons hms hos .nil, ?_⟩
  rw [List.append_nil, List.map_cons, htags, tag?_eq hc, List.map_cons]

/-- **What a walk meets.** A walk through a part meets the constructs of its trees
that are in walked fields. -/
theorem Unfolds.shows {p : Part} {v : p.Value} {x : p.Shape} (h : s.Unfolds p v x) :
    s.Shows (p.walkedLinks v) (p.tags x) := by
  induction h with
  | node hc _ ih => exact shows_node hc ih
  | slot _ ih => exact ih
  | optSome _ ih => exact ih
  | @listSome sl r hs ts hr _ ih =>
    have htargets : s.targets (.list sl.kind r) = .ok (hs.map Handle.node) := by
      simp [targets, hr, Except.map]
    refine Shows.gather htargets ?_
    rw [List.map_map]
    exact ih
  | @package r es ts hr _ ih =>
    have htargets : s.targets (.entries r) = .ok (es.map fun e => e.file.node) := by
      simp [targets, hr, Except.map]
    refine Shows.gather htargets ?_
    rw [List.map_map]
    exact ih
  | @valuesCons f fs v vs t ts _ _ ih ihs =>
    change s.Shows _ (Tree.tagsFields (f :: fs) (t :: ts))
    rw [Part.walkedLinks_values_cons, Tree.tagsFields]
    refine Shows.append ?_ ihs
    cases f.walked
    · exact shows_nil
    · exact ih
  | itemsCons _ _ ih ihs => exact Shows.append ih ihs
  | entriesCons _ _ _ ih ihs => exact Shows.append ih ihs
  | optNone | listNone | text | scalar | optScalarNone | optScalarSome | valuesNil | itemsNil
  | entriesNil => exact shows_nil

/-! ## Noting tags -/

/-- Notes the tag of each node, and goes into every one. -/
def noteTag (s : Store) (n : Node) (seen : List Tag) : Except Dangling (Bool × List Tag) := do
  let tag ← s.tagAt n
  return (true, seen ++ [tag])

theorem neverSkips_noteTag (s : Store) : NeverSkips (inspector s.noteTag) := by
  intro n seen seen' h
  cases htag : s.tagAt n <;>
    simp [inspector, noteTag, htag, bind, Except.bind, pure, Except.pure] at h

theorem untilStop_noteTag : ∀ {ns : List Node} {ts : List Tag}, ns.map s.tag? = ts.map some →
    ∀ seen, untilStop (visitOne (inspector s.noteTag)) ns seen = .ok (none, seen ++ ts)
  | [], [], _, seen => by simp [untilStop]
  | n :: ns, t :: ts, h, seen => by
    obtain ⟨htag, hrest⟩ := List.cons.inj h
    have hvisit : visitOne (inspector s.noteTag) n seen = .ok (none, seen ++ [t]) := by
      simp only [visitOne, inspector, noteTag, tagAt_eq htag]
      rfl
    have ih := untilStop_noteTag hrest (seen ++ [t])
    rw [List.append_assoc, List.singleton_append] at ih
    rw [untilStop, hvisit]
    exact ih

/-- **Walks meet what is printed.** A node that can be dumped can be walked. The
tags that a full walk meets are, in order and as often, those that the text opens
outside of the indices of files. The walk through the children meets the same
without the first. -/
theorem inspect_eq_openings {root : Node} {text : String} (h : s.dump root = .ok text) :
    ∃ first rest, unindexed (openings text) = (first :: rest).map Tag.name ∧
      s.inspect s.noteTag root [] = .ok (first :: rest) ∧
      s.walkChildren (inspector s.noteTag) root [] = .ok (none, rest) := by
  obtain ⟨t, ht, rfl⟩ := (dump_eq_ok (h := root.handle)).mp h
  have hprinted : unindexed (openings t.print) = t.tags.map Tag.name := by
    rw [ht.openings_print, Tree.unindexed_openings]
    rfl
  obtain ⟨mss, hmss, hvisits⟩ := ht.shows
  cases hmss
  obtain ⟨os, hos, htags⟩ := hvisits []
  change s.Visits [] [root] os at hos
  change _ = t.tags.map some at htags
  have hP := hos.preorder_eq (hos.walkable root List.mem_cons_self)
  cases hos with
  | @cons _ _ _ _ below _ _ _ hlater =>
    cases hlater
    rw [List.append_nil, List.map_cons] at hP htags
    cases htree : t.tags with
    | nil => simp [htree] at htags
    | cons first rest =>
      rw [htree] at hprinted
      rw [htree, List.map_cons] at htags
      have hall : (root :: below.map (·.node)).map s.tag? = (first :: rest).map some := by
        rw [List.map_cons, List.map_map]
        exact htags
      refine ⟨first, rest, hprinted, ?_, ?_⟩
      · rw [inspect, walk_eq_untilStop s.neverSkips_noteTag hP, untilStop_noteTag hall]
        rfl
      · rw [walkChildren_eq_untilStop s.neverSkips_noteTag hP,
          untilStop_noteTag (List.cons.inj hall).2]
        rfl

/-- Adds a file that imports a path, and lists the import, a comment and a name in its
indices. -/
def addIndexedFile (s : Store) : Handle .file × Store :=
  let name := s.addIdent "p" Span.none
  let text := name.2.intern "\"a\""
  let path := text.2.alloc (.of .basicLit (.cons LiteralForm.string (.cons text.1 .nil)))
    Span.none
  let spec := path.2.alloc (.of .importSpec (.cons none (.cons none (.cons path.1 (.cons none
    .nil))))) Span.none
  let specs := spec.2.allocList .spec [spec.1]
  let decl := specs.2.alloc (.of .genDecl (.cons none (.cons DeclKeyword.importKw (.cons false
    (.cons (some specs.1) .nil))))) Span.none
  let decls := decl.2.allocList .decl [decl.1]
  let note := decls.2.intern "// (x"
  let comment := note.2.alloc (.of .comment (.cons note.1 .nil)) Span.none
  let comments := comment.2.allocList .comment [comment.1]
  let group := comments.2.alloc (.of .commentGroup (.cons (some comments.1) .nil)) Span.none
  let groups := group.2.allocList .commentGroup [group.1]
  let names := groups.2.allocList .expr [name.1]
  names.2.alloc (.of .file (.cons none (.cons name.1 (.cons (some decls.1) (.cons (some specs.1)
    (.cons (some names.1) (.cons (some groups.1) .nil))))))) Span.none

/-- The indices of the file are printed, and not walked. -/
theorem printed_indexedFile :
    let src := empty.addIndexedFile
    let spec := "(ImportSpec doc:nil name:nil path:(BasicLit String \"\\\"a\\\"\") comment:nil)"
    let text := "(File doc:nil name:(Ident \"p\") " ++
      "decls:[(GenDecl doc:nil kind:Import parenthesized:false specs:[" ++ spec ++ "])] " ++
      "imports:[" ++ spec ++ "] unresolved:[(Ident \"p\")] " ++
      "comments:[(CommentGroup list:[(Comment \"// (x\")])])"
    src.2.dump src.1.node = .ok text ∧
      unindexed (openings text) = ["File", "Ident", "GenDecl", "ImportSpec", "BasicLit"] ∧
      src.2.inspect src.2.noteTag src.1.node [] =
        .ok [.file, .ident, .genDecl, .importSpec, .basicLit] ∧
      src.2.walkChildren (inspector src.2.noteTag) src.1.node [] =
        .ok (none, [.ident, .genDecl, .importSpec, .basicLit]) := by
  intro src spec text
  have hdump : src.2.dump src.1.node = .ok text := by decide +kernel
  have hwalk : src.2.inspect src.2.noteTag src.1.node [] =
      .ok [.file, .ident, .genDecl, .importSpec, .basicLit] := by decide +kernel
  obtain ⟨first, rest, hopened, hinspect, hchildren⟩ := inspect_eq_openings hdump
  cases hwalk.symm.trans hinspect
  exact ⟨hdump, hopened, hwalk, hchildren⟩

end Store
end GoTree
