import GoTree.Proofs.Copy.Success
import GoTree.Proofs.Store.References
/-!
# Copies share nothing

Each deep copy is made of new nodes and new lists only, whatever its source
shares: a node that is referred to twice is copied twice, and every copied list
gets a range of its own. The copy of a package in place is the exception: one new
node and one new range, whose entries refer to the files that were there.

* `Copies.fresh`: what a deep copy adds hangs off the copy alone.
* `perform_isolated`: the same for every request for a single node.
-/
namespace GoTree

/-! ## Deep copies -/

namespace Store

theorem Fresh.allocList {s t : Store} {sl : Slot} {hs : List (Handle sl.kind)}
    (h : Fresh s t ((Part.items sl).links hs)) :
    Fresh s (t.allocList sl.kind hs).2 [.list sl.kind (t.allocList sl.kind hs).1] := by
  refine h.gather (t.grows_allocList _ _) rfl ?_ (t.appended_allocList _ _)
  rw [follow_list (t.listAt_allocList _ _), List.map_eq_flatMap]
  simp [Part.links, List.flatMap_map]

theorem Fresh.allocEntries {s t : Store} {es : List Entry} (h : Fresh s t (Part.entries.links es)) :
    Fresh s (t.allocEntries es).2 [.entries (t.allocEntries es).1] := by
  refine h.gather (t.grows_allocEntries _) rfl ?_ (t.appended_allocEntries _)
  rw [follow_entries (t.entriesAt_allocEntries _), List.map_eq_flatMap]
  simp [Part.links, List.flatMap_map]

theorem Fresh.refl (s : Store) : Fresh s s [] := .of_nodes_eq (.refl s) rfl

end Store

open Store (Fresh)

theorem fresh_symbol {c c' : Copier} {y y' : Symbol} (hy : Copy.symbol y c = .ok y' c') :
    Fresh c.dest c'.dest [] := by
  obtain ⟨text, -, ⟨-, -, rfl⟩ | ⟨-, -, hdest⟩⟩ := Copy.symbol_ok hy
  · exact .refl _
  · rw [hdest]
    exact .of_nodes_eq (c.dest.grows_intern text) rfl

/-- What a deep copy adds hangs off the copy alone. -/
theorem Copies.fresh {c c' : Copier} {p : Part} {v w : p.Value} (h : Copies c p v w c') :
    Fresh c.dest c'.dest (p.links w) := by
  induction h with
  | node _ _ ha hr ih =>
    obtain ⟨rfl, hdest⟩ := Copy.add_ok ha
    rw [Copy.reportCopy_ok hr, hdest]
    exact Fresh.alloc ih Span.none
  | slot _ _ _ ih => exact ih
  | optSome _ ih => exact ih
  | listSome _ _ ha ih =>
    obtain ⟨rfl, hdest⟩ := Copy.addList_ok ha
    rw [hdest]
    exact ih.allocList
  | package _ _ ha ih =>
    obtain ⟨rfl, hdest⟩ := Copy.addEntries_ok ha
    rw [hdest]
    exact ih.allocEntries
  | text hy => exact fresh_symbol hy
  | valuesCons _ _ ih ihs =>
    rw [Part.links_values_cons]
    exact ih.append ihs
  | itemsCons _ _ ih ihs => exact ih.append ihs
  | entriesCons hn _ _ ih ihs => exact (fresh_symbol hn).append (ih.append ihs)
  | optNone | listNone | scalar | optScalar | valuesNil | itemsNil | entriesNil => exact .refl _

/-! ## Packages in place -/

/-- The package `m` was added to `s` to get `t`, as a copy of the package `n`
that shares its files: one node, with a new range of the same entries. -/
structure SharedCopy (s t : Store) (n m : Node) : Prop where
  added : s.added t = [m]
  entries : ∃ (h h' : Handle .package) (name : Symbol) (r r' : ListRef) (es : List Entry),
    n = h.node ∧ m = h'.node ∧ s.contentAt h = .ok (packageContent name r) ∧
      t.contentAt h' = .ok (packageContent name r') ∧ s.Appended t (.entries r') ∧
      s.entriesAt r = .ok es ∧ t.entriesAt r' = .ok es

theorem sharedCopy_within {d : Nat} {c c' : Copier} {h h' : Handle .package}
    (hin : c.isInPlace = true) (hw : Copy.within d .package h c = .ok h' c') :
    SharedCopy c.dest c'.dest h.node h'.node := by
  obtain ⟨name, r, es, hc, hr, rfl, hdest⟩ := within_package_inPlace hin hw
  have g₁ := c.dest.grows_allocEntries es
  have hr' := c.dest.entriesAt_allocEntries es
  have happ := c.dest.appended_allocEntries es
  have hnone : c.dest.added (c.dest.allocEntries es).2 = [] := c.dest.added_self
  rw [hdest]
  generalize (c.dest.allocEntries es).1 = r' at *
  generalize (c.dest.allocEntries es).2 = t at *
  have g₂ := t.grows_alloc (packageContent name r') Span.none
  have hadded := Store.added_trans g₁ g₂
  rw [hnone, List.nil_append] at hadded
  exact ⟨List.perm_singleton.mp (hadded.trans (t.added_alloc _ _)), h, _, name, r, r', es, rfl,
    rfl, hc, t.contentAt_alloc _ _, happ.later g₂, hr, g₂.entriesAt hr'⟩

/-! ## Requests for a single node -/

/-- The node that a request for a single node asks for. -/
def CopyRequest.node? : CopyRequest → Option Node
  | .node n? => n?
  | .slot _ h? => h?.map Handle.node
  | .nodes _ | .list _ _ => none

namespace Copier

/-- A request for one node that succeeds copies that node, up to what it reports. -/
theorem perform_node_ok {c c' : Copier} {n : Node} : ∀ {r : CopyRequest} {a : CopyResult},
    r.node? = some n → Copy.perform r c = .ok a c' →
      ∃ d log h', Copy.within d n.kind n.handle { c with log := log } = .ok h' c' ∧
        a = .node (some h'.node)
  | .node (some _), _, hn, h => by
    cases hn
    obtain ⟨m, hm, rfl⟩ := Copy.map_ok.mp h
    obtain ⟨d, h', hw, rfl⟩ := Copy.node_ok hm
    exact ⟨d, _, h', hw, rfl⟩
  | .slot sl (some x), _, hn, h => by
    cases hn
    obtain ⟨y, hy, rfl⟩ := Copy.map_ok.mp h
    obtain ⟨d, c₁, hdepth, hd⟩ := Copy.bind_ok.mp hy
    obtain ⟨x', hx, rfl⟩ := Copy.map_ok.mp hd
    obtain ⟨-, -, -, hw⟩ := Copy.slot_ok hx
    cases hdepth
    exact ⟨_, c.log, x', hw, rfl⟩

/-- What the copy of a node adds to the destination. -/
def Adds (c c' : Copier) (n m : Node) : Prop :=
  if c.isInPlace = true ∧ n.kind = .package then SharedCopy c.dest c'.dest n m
  else Store.Isolated c.dest c'.dest m

theorem adds_within {d : Nat} {c c' : Copier} {k : Kind} {h h' : Handle k}
    (hw : Copy.within d k h c = .ok h' c') : c.Adds c' h.node h'.node := by
  unfold Adds
  split
  · rename_i hp
    obtain ⟨hin, hk⟩ := hp
    subst hk
    exact sharedCopy_within hin hw
  · rename_i hp
    have hdeep : Copies c (.node k) h h' c' := copies_within hw fun hin hk => hp ⟨hin, hk⟩
    exact hdeep.fresh.isolated

theorem adds_perform {c c' : Copier} {n : Node} {r : CopyRequest} {a : CopyResult}
    (hn : r.node? = some n) (h : Copy.perform r c = .ok a c') :
    ∃ m, a = .node (some m) ∧ c.Adds c' n m := by
  obtain ⟨d, log, h', hw, rfl⟩ := perform_node_ok hn h
  exact ⟨h'.node, rfl, adds_within hw⟩

/-- **Isolation.** A request for a single node that succeeds gives a node that
consists of what the request added, unless it copies a package in place: then it
adds the package alone, which shares the files. -/
theorem perform_isolated {c c' : Copier} {r : CopyRequest} {n : Node} {a : CopyResult}
    (hn : r.node? = some n) (h : c.perform r = (.ok a, c')) :
    ∃ m, a = .node (some m) ∧ c.Adds c' n m := by
  unfold perform at h
  split at h
  · rename_i hr
    cases h
    exact adds_perform hn hr
  · cases h

end Copier

/-- Adds the sum `x + x`, whose operands are one node. -/
def Store.addDouble (s : Store) : Handle .expr × Store :=
  let x := s.addIdent "x" Span.none
  x.2.alloc (.of .binaryExpr (.cons x.1 (.cons BinaryOp.add (.cons x.1 .nil)))) Span.none

/-- Adds the package `p` of the file `a.go`. -/
def Store.addLonePackage (s : Store) : Handle .package × Store :=
  let x := s.addIdent "p" Span.none
  let file := x.2.alloc (.of .file (.cons none (.cons x.1 (.cons none (.cons none (.cons none
    (.cons none .nil))))))) Span.none
  let fileName := file.2.intern "a.go"
  let files := fileName.2.allocEntries [⟨fileName.1, file.1⟩]
  let name := files.2.intern "p"
  name.2.alloc (packageContent name.1 files.1) Span.none

/-- The copy of a sum in place with a shared operand, and of a package. -/
theorem isolated_double_and_package :
    let sum := Store.empty.addDouble
    let pkg := Store.empty.addLonePackage
    let copied := (Copier.inPlace sum.2).perform (.node (some sum.1.node))
    let shared := (Copier.inPlace pkg.2).perform (.slot (.any .package) (some pkg.1))
    copied.1 = .ok (.node (some ⟨.expr, 4⟩)) ∧ Store.Isolated sum.2 copied.2.dest ⟨.expr, 4⟩ ∧
      shared.1 = .ok (.node (some ⟨.package, 1⟩)) ∧
      SharedCopy pkg.2 shared.2.dest pkg.1.node ⟨.package, 1⟩ := by
  intro sum pkg copied shared
  have hcopied : copied.1 = .ok (.node (some ⟨.expr, 4⟩)) := by decide +kernel
  have hshared : shared.1 = .ok (.node (some ⟨.package, 1⟩)) := by decide +kernel
  have hsum : (CopyRequest.node (some sum.1.node)).node? = some sum.1.node := rfl
  have hpkg : (CopyRequest.slot (.any .package) (some pkg.1)).node? = some pkg.1.node := rfl
  have hcopy : (Copier.inPlace sum.2).perform (.node (some sum.1.node)) =
      (.ok (.node (some ⟨.expr, 4⟩)), copied.2) := by rw [← hcopied]
  have hshare : (Copier.inPlace pkg.2).perform (.slot (.any .package) (some pkg.1)) =
      (.ok (.node (some ⟨.package, 1⟩)), shared.2) := by rw [← hshared]
  refine ⟨hcopied, ?_, hshared, ?_⟩
  · obtain ⟨m, hm, hadds⟩ := Copier.perform_isolated hsum hcopy
    cases hm
    exact (if_neg (by decide +kernel)).mp hadds
  · obtain ⟨m, hm, hadds⟩ := Copier.perform_isolated hpkg hshare
    cases hm
    exact (if_pos (by decide +kernel)).mp hadds

end GoTree
