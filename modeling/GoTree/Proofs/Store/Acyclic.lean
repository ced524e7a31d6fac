import GoTree.Proofs.Store.Paths
import GoTree.Proofs.Store.References
import GoTree.Proofs.Tree.Unfolding
/-!
# Nodes that do not lie below themselves

A traversal of the nodes under a root ends if no node that is met from the root
lies below itself. `Store.shallow d n` bounds it: no path of references from `n`
has more than `d` nodes. Both are the notions of `Paths`, along references.

* `Acyclic.shallow_depth`: without a cycle, no path is longer than the depth that
  traversals allow, since all nodes on it but the last are in the store.
* `acyclic_of_shallow`: a bound on the paths rules out cycles.
* `shallow_of_unfoldWithin`: what unfolds within a depth is as shallow.
* `shallowBelow_values`, `shallowBelow_list`, `shallowBelow_entries`: from a part to
  the parts below it.
* `shallowBelow_congr`: parts that refer to the same nodes are equally deep.
-/
namespace GoTree.Store

/-- No node that is met from `n` lies below itself. -/
def Acyclic (s : Store) (n : Node) : Prop := Paths.Acyclic s.references n

/-- Whether no path of references from a node has more than `d` nodes. -/
def shallow (s : Store) (d : Nat) (n : Node) : Bool := Paths.bounded s.references d n

theorem shallow_succ {s : Store} {d : Nat} {n : Node} :
    s.shallow (d + 1) n = true ↔ ∀ m ∈ s.references n, s.shallow d m = true :=
  Paths.bounded_succ

theorem shallow_mono {s : Store} {d e : Nat} {n : Node} (hde : d ≤ e)
    (h : s.shallow d n = true) : s.shallow e n = true :=
  Paths.bounded_mono hde h

/-- A node that refers to something is in the store. -/
theorem mem_added_of_references {s : Store} {n m : Node} (h : m ∈ s.references n) :
    n ∈ empty.added s := by
  obtain ⟨l, hl, -⟩ := List.mem_flatMap.mp h
  cases hc : s.contentAt n.handle with
  | ok c => exact mem_added_of_contentAt hc
  | error d => simp [linksOf, hc] at hl

/-- Without a cycle, no path is longer than the depth that traversals allow. -/
theorem Acyclic.shallow_depth {s : Store} {n : Node} (ha : s.Acyclic n) :
    s.shallow s.depth n = true := by
  rw [shallow, depth, ← length_added_empty]
  exact Paths.bounded_of_acyclic (fun _ _ => mem_added_of_references) ha

theorem acyclic_of_shallow {s : Store} {d : Nat} {n : Node} (h : s.shallow d n = true) :
    s.Acyclic n :=
  Paths.acyclic_of_bounded h

/-! ## Parts -/

/-- The paths that start at the references of a part have at most `d` nodes. -/
def ShallowBelow (s : Store) (d : Nat) (p : Part) (v : p.Value) : Prop :=
  ∀ l ∈ p.links v, ∀ m ∈ s.follow l, s.shallow d m = true

section
variable {s : Store} {d : Nat}

theorem shallowBelow_values {k : Kind} {h : Handle k} {c : Content k}
    (hc : s.contentAt h = .ok c) (hs : s.shallow (d + 1) h.node = true) :
    s.ShallowBelow d (.values c.tag.fields) c.values := by
  intro l hl m hm
  refine shallow_succ.mp hs m (List.mem_flatMap.mpr ⟨l, ?_, hm⟩)
  rw [linksOf_eq hc]
  exact hl

theorem shallowBelow_values_cons {f : Field} {fs : List Field} {v : f.type.Value}
    {vs : Values fs} (hs : s.ShallowBelow d (.values (f :: fs)) (.cons v vs)) :
    s.ShallowBelow d (.value f.type) v ∧ s.ShallowBelow d (.values fs) vs := by
  unfold ShallowBelow at hs
  rw [Part.links_values_cons] at hs
  exact ⟨fun l hl => hs l (List.mem_append_left _ hl),
    fun l hl => hs l (List.mem_append_right _ hl)⟩

theorem shallow_of_slot {sl : Slot} {h : Handle sl.kind}
    (hs : s.ShallowBelow d (.value (.node sl)) h) : s.shallow d h.node = true :=
  hs (.node h.node) (by simp [Part.links, FieldType.link?]) h.node (by simp)

theorem shallow_of_optSlot {sl : Slot} {h : Handle sl.kind}
    (hs : s.ShallowBelow d (.value (.optNode sl)) (some h)) : s.shallow d h.node = true :=
  hs (.node h.node) (by simp [Part.links, FieldType.link?]) h.node (by simp)

theorem shallowBelow_list {sl : Slot} {r : ListRef} {hs : List (Handle sl.kind)}
    (hr : s.listAt sl.kind r = .ok hs) (h : s.ShallowBelow d (.value (.list sl)) (some r)) :
    ∀ x ∈ hs, s.shallow d x.node = true := by
  intro x hx
  refine h (.list sl.kind r) (by simp [Part.links, FieldType.link?]) x.node ?_
  rw [follow_list hr]
  exact List.mem_map_of_mem hx

theorem shallowBelow_entries {r : ListRef} {es : List Entry} (hr : s.entriesAt r = .ok es)
    (h : s.ShallowBelow d (.value .entries) r) : ∀ e ∈ es, s.shallow d e.file.node = true := by
  intro e he
  refine h (.entries r) (by simp [Part.links, FieldType.link?]) e.file.node ?_
  rw [follow_entries hr]
  exact List.mem_map_of_mem (f := fun e : Entry => e.file.node) he

/-- Parts that refer to the same nodes are equally deep. -/
theorem shallowBelow_congr {p q : Part} {v : p.Value} {w : q.Value}
    (h : (p.links v).flatMap s.follow = (q.links w).flatMap s.follow) :
    s.ShallowBelow d p v ↔ s.ShallowBelow d q w := by
  have hflat : ∀ (p : Part) (v : p.Value),
      s.ShallowBelow d p v ↔ ∀ m ∈ (p.links v).flatMap s.follow, s.shallow d m = true := by
    intro p v
    simp only [ShallowBelow, List.mem_flatMap]
    exact ⟨fun h m ⟨l, hl, hm⟩ => h l hl m hm, fun h l hl m hm => h m ⟨l, hl, hm⟩⟩
  rw [hflat, hflat, h]

theorem shallowBelow_items {sl : Slot} {r : ListRef} {hs : List (Handle sl.kind)}
    (hr : s.listAt sl.kind r = .ok hs) :
    s.ShallowBelow d (.value (.list sl)) (some r) ↔ s.ShallowBelow d (.items sl) hs := by
  refine shallowBelow_congr ?_
  have hitems : ((Part.items sl).links hs).flatMap s.follow = hs.map Handle.node := by
    rw [List.map_eq_flatMap]
    simp [Part.links, List.flatMap_map]
  rw [hitems]
  simp [Part.links, FieldType.link?, follow_list hr]

theorem shallowBelow_files {r : ListRef} {es : List Entry} (hr : s.entriesAt r = .ok es) :
    s.ShallowBelow d (.value .entries) r ↔ s.ShallowBelow d .entries es := by
  refine shallowBelow_congr ?_
  have hfiles : (Part.entries.links es).flatMap s.follow = es.map fun e => e.file.node := by
    rw [List.map_eq_flatMap]
    simp [Part.links, List.flatMap_map]
  rw [hfiles]
  simp [Part.links, FieldType.link?, follow_entries hr]

theorem shallowBelow_node {k : Kind} {h : Handle k} :
    s.ShallowBelow d (.node k) h ↔ s.shallow d h.node = true := by
  simp [ShallowBelow, Part.links]

theorem shallow_of_values {k : Kind} {h : Handle k} {c : Content k}
    (hc : s.contentAt h = .ok c) (hs : s.ShallowBelow d (.values c.tag.fields) c.values) :
    s.shallow (d + 1) h.node = true := by
  refine shallow_succ.mpr fun m hm => ?_
  obtain ⟨l, hl, hm⟩ := List.mem_flatMap.mp hm
  rw [linksOf_eq hc] at hl
  exact hs l hl m hm

/-- One part after another is as deep as both. -/
theorem shallowBelow_append {p q r : Part} {u : p.Value} {v : q.Value} {w : r.Value}
    (h : r.links w = p.links u ++ q.links v) :
    s.ShallowBelow d r w ↔ s.ShallowBelow d p u ∧ s.ShallowBelow d q v := by
  unfold ShallowBelow
  rw [h]
  simp only [List.forall_mem_append]

end

/-! ## What unfolds is shallow -/

theorem exists_of_mapM {ε α β : Type} {f : α → Except ε β} : ∀ {as : List α} {bs : List β},
    as.mapM f = .ok bs → ∀ a ∈ as, ∃ b, f a = .ok b
  | [], _, _, _, ha => by cases ha
  | _ :: _, _, h, a, ha => by
    obtain ⟨b, bs', hb, hbs, rfl⟩ := mapM_cons_eq_ok.mp h
    rcases List.mem_cons.mp ha with rfl | ha
    · exact ⟨b, hb⟩
    · exact exists_of_mapM hbs a ha

/-- A value that is read has only references to nodes that are read. -/
theorem exists_of_unfoldValue {s : Store} {child : Node → Except Fault Tree} :
    ∀ {ft : FieldType} {v : ft.Value} {t : Tree}, s.unfoldValue child ft v = .ok t →
      ∀ l ∈ (Part.value ft).links v, ∀ m ∈ s.follow l, ∃ u, child m = .ok u
  | .node _, h, t, ht, l, hl, m, hm => by
    simp only [Part.links, FieldType.link?, Option.toList_some, List.mem_singleton] at hl
    subst hl
    rw [follow_node, List.mem_singleton] at hm
    exact ⟨t, hm ▸ ht⟩
  | .optNode _, some h, t, ht, l, hl, m, hm => by
    simp only [Part.links, FieldType.link?, Option.map_some, Option.toList_some,
      List.mem_singleton] at hl
    subst hl
    rw [follow_node, List.mem_singleton] at hm
    exact ⟨t, hm ▸ ht⟩
  | .list _, some r, t, ht, l, hl, m, hm => by
    obtain ⟨hs, ts, hr, hts, rfl⟩ := unfoldValue_list_eq_ok.mp ht
    simp only [Part.links, FieldType.link?, Option.map_some, Option.toList_some,
      List.mem_singleton] at hl
    subst hl
    rw [follow_list hr] at hm
    obtain ⟨x, hx, rfl⟩ := List.mem_map.mp hm
    exact exists_of_mapM hts x hx
  | .entries, r, t, ht, l, hl, m, hm => by
    obtain ⟨es, ts, hr, hts, rfl⟩ := unfoldValue_entries_eq_ok.mp ht
    simp only [Part.links, FieldType.link?, Option.toList_some, List.mem_singleton] at hl
    subst hl
    rw [follow_entries hr] at hm
    obtain ⟨e, he, rfl⟩ := List.mem_map.mp hm
    obtain ⟨u, hu⟩ := exists_of_mapM hts e he
    obtain ⟨-, file, -, hf, -⟩ := unfoldEntry_eq_ok.mp hu
    exact ⟨file, hf⟩
  | .optNode _, none, _, _, _, hl, _, _ | .list _, none, _, _, _, hl, _, _
  | .text, _, _, _, _, hl, _, _ | .scalar _, _, _, _, _, hl, _, _
  | .optScalar _, _, _, _, _, hl, _, _ => by simp [Part.links, FieldType.link?] at hl

/-- What unfolds within a depth has no longer paths. -/
theorem shallow_of_unfoldWithin {s : Store} : ∀ {d : Nat} {n : Node} {t : Tree},
    s.unfoldWithin d n = .ok t → s.shallow d n = true
  | 0, _, _, h => by cases h
  | d + 1, n, _, h => by
    obtain ⟨c, ts, hc, hts, rfl⟩ := unfoldWithin_succ_eq_ok.mp h
    refine shallow_succ.mpr fun m hm => ?_
    obtain ⟨l, hl, hm⟩ := List.mem_flatMap.mp hm
    have hlinks : s.linksOf n = c.links := linksOf_eq hc
    rw [hlinks] at hl
    obtain ⟨⟨f, v⟩, hfv, hlink⟩ := List.mem_filterMap.mp hl
    obtain ⟨u, hu⟩ := exists_of_mapM hts _ hfv
    have hmem : l ∈ (Part.value f.type).links v := by simp [Part.links, hlink]
    obtain ⟨t, ht⟩ := exists_of_unfoldValue hu l hmem m hm
    exact shallow_of_unfoldWithin ht

theorem shallow_of_unfold {s : Store} {n : Node} {t : Tree} (h : s.unfold n = .ok t) :
    s.shallow s.depth n = true :=
  shallow_of_unfoldWithin h

end GoTree.Store
