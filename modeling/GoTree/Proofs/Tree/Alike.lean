import GoTree.Proofs.Tree.Decoding
/-!
# Stores that hold the same content

`Alike A B` relates a part of the store `A` to a part of the store `B` that
holds the same: constructs of one tag whose fields are alike in declared order,
equal scalars, symbols of one text, lists of equal length whose items are alike,
and nothing where there is nothing. Handles, ranges, symbols and spans play no
part in it, and neither does the way in which trees are printed.

* `Alike.grows`: what is alike stays alike while both stores grow.
* `Alike.exists_unfolds`, `Store.Unfolds.alike`: parts are alike exactly when they
  unfold to one tree.
* `dumpOpt_eq_iff_sameContent`: printed trees are equal exactly when the content
  is the same.
-/
namespace GoTree

/-- The part `v` of `A` and the part `w` of `B` hold the same content. -/
inductive Alike (A B : Store) : (p : Part) → p.Value → p.Value → Prop where
  | node {k : Kind} {h h' : Handle k} {tag : Tag} {hk : tag.kind = k} {vs ws : Values tag.fields}
      (hc : A.contentAt h = .ok ⟨tag, vs, hk⟩) (hc' : B.contentAt h' = .ok ⟨tag, ws, hk⟩)
      (hv : Alike A B (.values tag.fields) vs ws) : Alike A B (.node k) h h'
  | slot {sl : Slot} {h h' : Handle sl.kind} (hn : Alike A B (.node sl.kind) h h') :
      Alike A B (.value (.node sl)) h h'
  | optNone {sl : Slot} : Alike A B (.value (.optNode sl)) none none
  | optSome {sl : Slot} {h h' : Handle sl.kind} (hn : Alike A B (.node sl.kind) h h') :
      Alike A B (.value (.optNode sl)) (some h) (some h')
  | listNone {sl : Slot} : Alike A B (.value (.list sl)) none none
  | listSome {sl : Slot} {r r' : ListRef} {hs hs' : List (Handle sl.kind)}
      (hr : A.listAt sl.kind r = .ok hs) (hr' : B.listAt sl.kind r' = .ok hs')
      (hi : Alike A B (.items sl) hs hs') : Alike A B (.value (.list sl)) (some r) (some r')
  | package {r r' : ListRef} {es es' : List Entry} (hr : A.entriesAt r = .ok es)
      (hr' : B.entriesAt r' = .ok es') (he : Alike A B .entries es es') :
      Alike A B (.value .entries) r r'
  | text {y y' : Symbol} {text : String} (hy : A.textAt y = .ok text)
      (hy' : B.textAt y' = .ok text) : Alike A B (.value .text) y y'
  | scalar {t : ScalarType} (v : t.Value) : Alike A B (.value (.scalar t)) v v
  | optScalar {t : ScalarType} (v : Option t.Value) : Alike A B (.value (.optScalar t)) v v
  | valuesNil : Alike A B (.values []) .nil .nil
  | valuesCons {f : Field} {fs : List Field} {v w : f.type.Value} {vs ws : Values fs}
      (hv : Alike A B (.value f.type) v w) (hvs : Alike A B (.values fs) vs ws) :
      Alike A B (.values (f :: fs)) (.cons v vs) (.cons w ws)
  | itemsNil {sl : Slot} : Alike A B (.items sl) [] []
  | itemsCons {sl : Slot} {h h' : Handle sl.kind} {hs hs' : List (Handle sl.kind)}
      (hn : Alike A B (.node sl.kind) h h') (hi : Alike A B (.items sl) hs hs') :
      Alike A B (.items sl) (h :: hs) (h' :: hs')
  | entriesNil : Alike A B .entries [] []
  | entriesCons {e e' : Entry} {es es' : List Entry} {name : String}
      (hn : A.textAt e.name = .ok name) (hn' : B.textAt e'.name = .ok name)
      (hf : Alike A B (.node .file) e.file e'.file) (he : Alike A B .entries es es') :
      Alike A B .entries (e :: es) (e' :: es')

theorem Alike.grows {A A' B B' : Store} (g : A.Grows A') (g' : B.Grows B') {p : Part}
    {v w : p.Value} (h : Alike A B p v w) : Alike A' B' p v w := by
  induction h with
  | node hc hc' _ ih => exact .node (g.contentAt hc) (g'.contentAt hc') ih
  | slot _ ih => exact .slot ih
  | optNone => exact .optNone
  | optSome _ ih => exact .optSome ih
  | listNone => exact .listNone
  | listSome hr hr' _ ih => exact .listSome (g.listAt hr) (g'.listAt hr') ih
  | package hr hr' _ ih => exact .package (g.entriesAt hr) (g'.entriesAt hr') ih
  | text hy hy' => exact .text (g.textAt hy) (g'.textAt hy')
  | scalar v => exact .scalar v
  | optScalar v => exact .optScalar v
  | valuesNil => exact .valuesNil
  | valuesCons _ _ ih ihs => exact .valuesCons ih ihs
  | itemsNil => exact .itemsNil
  | itemsCons _ _ ih ihs => exact .itemsCons ih ihs
  | entriesNil => exact .entriesNil
  | entriesCons hn hn' _ _ ih ihs => exact .entriesCons (g.textAt hn) (g'.textAt hn') ih ihs

/-- Parts that are alike unfold to one tree. -/
theorem Alike.exists_unfolds {A B : Store} {p : Part} {v w : p.Value} (h : Alike A B p v w) :
    ∃ t, A.Unfolds p v t ∧ B.Unfolds p w t := by
  induction h with
  | @node _ _ _ tag _ _ _ hc hc' _ ih =>
    obtain ⟨ts, hv, hw⟩ := ih
    exact ⟨Tree.node tag ts, .node hc hv, .node hc' hw⟩
  | slot _ ih =>
    obtain ⟨t, hv, hw⟩ := ih
    exact ⟨t, .slot hv, .slot hw⟩
  | optNone => exact ⟨_, .optNone, .optNone⟩
  | optSome _ ih =>
    obtain ⟨t, hv, hw⟩ := ih
    exact ⟨t, .optSome hv, .optSome hw⟩
  | listNone => exact ⟨_, .listNone, .listNone⟩
  | listSome hr hr' _ ih =>
    obtain ⟨ts, hv, hw⟩ := ih
    exact ⟨_, .listSome hr hv, .listSome hr' hw⟩
  | package hr hr' _ ih =>
    obtain ⟨ts, hv, hw⟩ := ih
    exact ⟨_, .package hr hv, .package hr' hw⟩
  | text hy hy' => exact ⟨_, .text hy, .text hy'⟩
  | scalar v => exact ⟨_, .scalar v, .scalar v⟩
  | optScalar v =>
    cases v with
    | none => exact ⟨_, .optScalarNone, .optScalarNone⟩
    | some v => exact ⟨_, .optScalarSome v, .optScalarSome v⟩
  | valuesNil => exact ⟨_, .valuesNil, .valuesNil⟩
  | valuesCons _ _ ih ihs =>
    obtain ⟨t, hv, hw⟩ := ih
    obtain ⟨ts, hvs, hws⟩ := ihs
    exact ⟨_, .valuesCons hv hvs, .valuesCons hw hws⟩
  | itemsNil => exact ⟨_, .itemsNil, .itemsNil⟩
  | itemsCons _ _ ih ihs =>
    obtain ⟨t, hv, hw⟩ := ih
    obtain ⟨ts, hvs, hws⟩ := ihs
    exact ⟨_, .itemsCons hv hvs, .itemsCons hw hws⟩
  | entriesNil => exact ⟨_, .entriesNil, .entriesNil⟩
  | entriesCons hn hn' _ _ ih ihs =>
    obtain ⟨t, hv, hw⟩ := ih
    obtain ⟨ts, hvs, hws⟩ := ihs
    exact ⟨_, .entriesCons hn hv hvs, .entriesCons hn' hw hws⟩

/-- Parts that unfold to one tree are alike. -/
theorem Store.Unfolds.alike {A B : Store} {p : Part} {v w : p.Value} {t u : p.Shape}
    (hv : A.Unfolds p v t) (hw : B.Unfolds p w u) (htu : t = u) : Alike A B p v w := by
  induction hv with
  | @node k h c ts hc _ ih =>
    obtain ⟨tag, vs, hk⟩ := c
    cases hw with
    | @node _ _ c' us hc' hw =>
      obtain ⟨tag', ws, hk'⟩ := c'
      cases htu
      exact .node hc hc' (ih hw rfl)
  | slot _ ih =>
    cases hw with
    | slot hw => exact .slot (ih hw htu)
  | optNone =>
    cases hw with
    | optNone => exact .optNone
    | optSome hw =>
      cases hw with
      | node => cases htu
  | optSome ht ih =>
    cases hw with
    | optNone =>
      cases ht with
      | node => cases htu
    | optSome hw => exact .optSome (ih hw htu)
  | listNone =>
    cases hw with
    | listNone => exact .listNone
    | listSome => cases htu
  | listSome hr _ ih =>
    cases hw with
    | listNone => cases htu
    | listSome hr' hw =>
      cases htu
      exact .listSome hr hr' (ih hw rfl)
  | package hr _ ih =>
    cases hw with
    | package hr' hw =>
      cases htu
      exact .package hr hr' (ih hw rfl)
  | text hy =>
    cases hw with
    | text hy' =>
      cases htu
      exact .text hy hy'
  | @scalar ty v =>
    cases hw with
    | scalar =>
      obtain rfl := ScalarType.name_injective (Tree.word.inj htu)
      exact .scalar v
  | optScalarNone =>
    cases hw with
    | optScalarNone => exact .optScalar none
    | optScalarSome => cases htu
  | @optScalarSome ty v =>
    cases hw with
    | optScalarNone => cases htu
    | optScalarSome w =>
      obtain rfl := ScalarType.name_injective (Tree.word.inj htu)
      exact .optScalar (some v)
  | valuesNil =>
    cases hw with
    | valuesNil => exact .valuesNil
  | valuesCons _ _ ih ihs =>
    cases hw with
    | valuesCons hw hws =>
      cases htu
      exact .valuesCons (ih hw rfl) (ihs hws rfl)
  | itemsNil =>
    cases hw with
    | itemsNil => exact .itemsNil
    | itemsCons => cases htu
  | itemsCons _ _ ih ihs =>
    cases hw with
    | itemsNil => cases htu
    | itemsCons hw hws =>
      cases htu
      exact .itemsCons (ih hw rfl) (ihs hws rfl)
  | entriesNil =>
    cases hw with
    | entriesNil => exact .entriesNil
    | entriesCons => cases htu
  | entriesCons hn _ _ ih ihs =>
    cases hw with
    | entriesNil => cases htu
    | entriesCons hn' hw hws =>
      cases htu
      exact .entriesCons hn hn' (ih hw rfl) (ihs hws rfl)

/-! ## Printed trees as content -/

/-- Two nodes, each of its own store and each possibly absent, hold the same
content. -/
inductive SameContent (A B : Store) : Option Node → Option Node → Prop where
  | absent : SameContent A B none none
  | node {k : Kind} {h h' : Handle k} (ha : Alike A B (.node k) h h') :
      SameContent A B (some h.node) (some h'.node)

namespace Store

/-- The tree under a node that may be absent. -/
def unfoldOpt (s : Store) : Option Node → Except Fault Tree
  | none => .ok .absent
  | some n => s.unfold n

theorem dumpOpt_eq_ok {s : Store} {x : Option Node} {text : String} :
    s.dumpOpt x = .ok text ↔ ∃ t : Tree, s.unfoldOpt x = .ok t ∧ t.print = text := by
  cases x with
  | none => simp [dumpOpt, unfoldOpt]
  | some n => simp only [dumpOpt, unfoldOpt, dump_eq_print, map_eq_ok]

/-- The printed tree of a node tells its kind and the tree. -/
theorem Unfolds.print_inj {A B : Store} {k l : Kind} {h : Handle k} {h' : Handle l} {t u : Tree}
    (ht : A.Unfolds (.node k) h t) (hu : B.Unfolds (.node l) h' u) (htu : t.print = u.print) :
    k = l ∧ t = u := by
  have hchars : t.print.toList ++ [] = u.print.toList ++ [] := by rw [htu]
  have hkl : k = l := by
    cases ht with
    | @node _ _ c _ _ _ =>
      cases hu with
      | @node _ _ c' _ _ _ =>
        have htag : c.tag = c'.tag := (print_node_append_inj hchars).1
        rw [← c.kind_eq, ← c'.kind_eq, htag]
  subst hkl
  have hend : (Part.node k).Ends [] := by simp [Part.Ends, Text.Cut]
  exact ⟨rfl, (ht.append_inj hu [] trivial hend hend hchars).1⟩

theorem Unfolds.print_ne_absent {s : Store} {k : Kind} {h : Handle k} {t : Tree}
    (ht : s.Unfolds (.node k) h t) : t.print ≠ Tree.absent.print := by
  intro hnil
  obtain ⟨l, hl⟩ := ht.print_head
  rw [hnil] at hl
  simp [Tree.print] at hl

/-- Trees that are printed alike are the trees of the same content. -/
theorem sameContent_of_print_eq {A B : Store} {x y : Option Node} {t u : Tree}
    (hx : A.unfoldOpt x = .ok t) (hy : B.unfoldOpt y = .ok u) (h : t.print = u.print) :
    SameContent A B x y := by
  match x, y with
  | none, none => exact .absent
  | none, some m =>
    cases hx
    exact absurd h.symm (Unfolds.print_ne_absent (h := m.handle) (unfold_eq_ok.mp hy))
  | some n, none =>
    cases hy
    exact absurd h (Unfolds.print_ne_absent (h := n.handle) (unfold_eq_ok.mp hx))
  | some ⟨k, i⟩, some ⟨l, j⟩ =>
    have ht : A.Unfolds (.node k) ⟨i⟩ t := unfold_eq_ok.mp hx
    have hu : B.Unfolds (.node l) ⟨j⟩ u := unfold_eq_ok.mp hy
    obtain ⟨rfl, htu⟩ := ht.print_inj hu h
    exact .node (ht.alike hu htu)

end Store

theorem SameContent.unfoldOpt_eq {A B : Store} {x y : Option Node}
    (h : SameContent A B x y) : A.unfoldOpt x = B.unfoldOpt y := by
  cases h with
  | absent => rfl
  | node ha =>
    obtain ⟨t, ht, hu⟩ := ha.exists_unfolds
    exact (Store.unfold_eq_ok.mpr ht).trans (Store.unfold_eq_ok.mpr hu).symm

/-- **Content.** The dumps of two nodes, where both are defined, are equal
exactly when the nodes hold the same content, which is when they unfold to the
same tree. -/
theorem dumpOpt_eq_iff_sameContent {A B : Store} {x y : Option Node} {u v : String}
    (hx : A.dumpOpt x = .ok u) (hy : B.dumpOpt y = .ok v) :
    (u = v ↔ SameContent A B x y) ∧ (u = v ↔ A.unfoldOpt x = B.unfoldOpt y) := by
  obtain ⟨t, ht, rfl⟩ := Store.dumpOpt_eq_ok.mp hx
  obtain ⟨t', ht', rfl⟩ := Store.dumpOpt_eq_ok.mp hy
  have hprint : A.unfoldOpt x = B.unfoldOpt y → t.print = t'.print := by
    rw [ht, ht']
    intro h
    rw [Except.ok.inj h]
  refine ⟨⟨Store.sameContent_of_print_eq ht ht', fun h => hprint h.unfoldOpt_eq⟩, ⟨?_, hprint⟩⟩
  intro h
  exact (Store.sameContent_of_print_eq ht ht' h).unfoldOpt_eq

/-- Adds the call `f(x)`. -/
def Store.addCall (s : Store) (span : Span) : Handle .expr × Store :=
  let f := s.addIdent "f" span
  let x := f.2.addIdent "x" span
  let args := x.2.allocList .expr [x.1]
  args.2.alloc (.of .callExpr (.cons f.1 (.cons (some args.1) (.cons false .nil)))) span

/-- The same call in two stores, under other handles, symbols and spans. -/
theorem sameContent_addCall :
    let a := Store.empty.addCall ⟨0, 4⟩
    let b := ((Store.empty.intern "y").2.addCall ⟨0, 4⟩).2.addCall ⟨9, 13⟩
    let text := "(CallExpr fun:(Ident \"f\") args:[(Ident \"x\")] has_ellipsis:false)"
    a.1 ≠ b.1 ∧ a.2.dumpOpt (some a.1.node) = .ok text ∧ b.2.dumpOpt (some b.1.node) = .ok text ∧
      SameContent a.2 b.2 (some a.1.node) (some b.1.node) := by
  intro a b text
  have ha : a.2.dumpOpt (some a.1.node) = .ok text := by decide +kernel
  have hb : b.2.dumpOpt (some b.1.node) = .ok text := by decide +kernel
  exact ⟨by decide +kernel, ha, hb, (dumpOpt_eq_iff_sameContent ha hb).1.mp rfl⟩

end GoTree
