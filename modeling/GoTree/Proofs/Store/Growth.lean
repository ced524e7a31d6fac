import GoTree.Store.Basic
/-!
# Stores that only grow

`Store.Grows s t` says that `t` is `s` with something appended: the contents and
the spans of every pool, every list buffer, the entries and the texts of `s` are a
prefix of those of `t`.

* `grows_alloc`, `grows_allocList`, `grows_allocEntries`, `grows_intern`: what
  is added to a store makes it grow.
* `contentAt_alloc`, `listAt_allocList`, `entriesAt_allocEntries`, `textAt_intern`:
  what was added is read back.
* `Grows.contentAt`, `Grows.listAt`, `Grows.entriesAt`, `Grows.textAt`: a name
  that resolves in a store resolves to the same in every store grown from it.
-/
namespace GoTree.Store

/-- Everything in `s` is still in `t`, at the same place. -/
structure Grows (s t : Store) : Prop where
  contents : ∀ k, (s.nodes.get k).contents.toList <+: (t.nodes.get k).contents.toList
  spans : ∀ k, (s.nodes.get k).spans.toList <+: (t.nodes.get k).spans.toList
  lists : ∀ k, (s.lists.get k).toList <+: (t.lists.get k).toList
  entries : s.entries.toList <+: t.entries.toList
  strings : s.interner.strings.toList <+: t.interner.strings.toList

theorem Grows.refl (s : Store) : s.Grows s :=
  ⟨fun _ => List.prefix_rfl, fun _ => List.prefix_rfl, fun _ => List.prefix_rfl,
    List.prefix_rfl, List.prefix_rfl⟩

theorem Grows.trans {s t u : Store} (h : s.Grows t) (h' : t.Grows u) : s.Grows u :=
  ⟨fun k => (h.contents k).trans (h'.contents k), fun k => (h.spans k).trans (h'.spans k),
    fun k => (h.lists k).trans (h'.lists k), h.entries.trans h'.entries,
    h.strings.trans h'.strings⟩

/-- Every store is grown from nothing. -/
theorem grows_empty (s : Store) : empty.Grows s where
  contents k := by simp [empty, Pool.empty]
  spans k := by simp [empty, Pool.empty]
  lists k := by simp [empty]
  entries := by simp [empty]
  strings := List.nil_prefix

/-! ## Sizes -/

theorem Grows.size_nodes {s t : Store} (h : s.Grows t) (k : Kind) :
    (s.nodes.get k).size ≤ (t.nodes.get k).size := by
  simpa [Pool.size] using (h.contents k).length_le

theorem Grows.size_lists {s t : Store} (h : s.Grows t) (k : Kind) :
    (s.lists.get k).size ≤ (t.lists.get k).size := by
  simpa using (h.lists k).length_le

theorem Grows.size_entries {s t : Store} (h : s.Grows t) : s.entries.size ≤ t.entries.size := by
  simpa using h.entries.length_le

/-! ## The nodes added between two stores -/

/-- The nodes of `t` that are not in `s`, kind by kind, from the oldest to the
newest of each kind. -/
def added (s t : Store) : List Node :=
  Kind.all.flatMap fun k =>
    (List.range' (s.nodes.get k).size ((t.nodes.get k).size - (s.nodes.get k).size)).map (⟨k, ·⟩)

theorem mem_added {s t : Store} {n : Node} :
    n ∈ s.added t ↔
      (s.nodes.get n.kind).size ≤ n.raw ∧ n.raw < (t.nodes.get n.kind).size := by
  obtain ⟨k, i⟩ := n
  simp only [added, List.mem_flatMap, List.mem_map, List.mem_range'_1, Node.mk.injEq]
  constructor
  · rintro ⟨l, _, j, ⟨h1, h2⟩, rfl, rfl⟩
    omega
  · rintro ⟨h1, h2⟩
    exact ⟨k, Kind.mem_all k, i, by omega, rfl, rfl⟩

theorem length_added_empty (s : Store) : (empty.added s).length = s.nodeCount := by
  simp [added, nodeCount, Kind.all, empty, Nat.add_assoc]

/-! ## Adding to a store -/

theorem grows_alloc (s : Store) {k : Kind} (c : Content k) (span : Span) :
    s.Grows (s.alloc c span).2 where
  contents := ByKind.rel_modify (R := fun _ p q => p.contents.toList <+: q.contents.toList)
    (fun _ _ => List.prefix_rfl) s.nodes (by simp [Pool.push])
  spans := ByKind.rel_modify (R := fun _ p q => p.spans.toList <+: q.spans.toList)
    (fun _ _ => List.prefix_rfl) s.nodes (by simp [Pool.push])
  lists _ := List.prefix_rfl
  entries := List.prefix_rfl
  strings := List.prefix_rfl

theorem grows_allocList (s : Store) (k : Kind) (items : List (Handle k)) :
    s.Grows (s.allocList k items).2 where
  contents _ := List.prefix_rfl
  spans _ := List.prefix_rfl
  lists := ByKind.rel_modify (R := fun _ a b => a.toList <+: b.toList)
    (fun _ _ => List.prefix_rfl) s.lists (by simp)
  entries := List.prefix_rfl
  strings := List.prefix_rfl

theorem grows_allocEntries (s : Store) (items : List Entry) :
    s.Grows (s.allocEntries items).2 where
  contents _ := List.prefix_rfl
  spans _ := List.prefix_rfl
  lists _ := List.prefix_rfl
  entries := by simp [allocEntries]
  strings := List.prefix_rfl

theorem grows_intern (s : Store) (text : String) : s.Grows (s.intern text).2 where
  contents _ := List.prefix_rfl
  spans _ := List.prefix_rfl
  lists _ := List.prefix_rfl
  entries := List.prefix_rfl
  strings := by
    simp only [intern, Interner.intern_strings]
    split <;> simp

/-! ## When a name resolves -/

theorem contentAt_eq_ok {s : Store} {k : Kind} {h : Handle k} {c : Content k} :
    s.contentAt h = .ok c ↔ s.content? h = some c := by
  unfold contentAt
  split <;> simp_all

theorem spanAt_eq_ok {s : Store} {n : Node} {span : Span} :
    s.spanAt n = .ok span ↔ s.span? n = some span := by
  unfold spanAt
  split <;> simp_all

/-- The nodes that have a content are those of the pool. -/
theorem content?_isSome {s : Store} {k : Kind} {h : Handle k} :
    (s.content? h).isSome ↔ h.raw < (s.nodes.get k).size := by
  simp [content?, Pool.size]

/-- So are those that have a span, since the arrays of a pool have one size. -/
theorem span?_isSome {s : Store} {n : Node} :
    (s.span? n).isSome ↔ n.raw < (s.nodes.get n.kind).size := by
  simp [span?, Pool.lt_spans_iff]

theorem lt_of_content? {s : Store} {k : Kind} {h : Handle k} {c : Content k}
    (hc : s.content? h = some c) : h.raw < (s.nodes.get k).size :=
  content?_isSome.mp (by simp [hc])

theorem tag?_eq {s : Store} {k : Kind} {h : Handle k} {c : Content k}
    (hc : s.contentAt h = .ok c) : s.tag? h.node = some c.tag := by
  have hc' : s.content? h.node.handle = some c := contentAt_eq_ok.mp hc
  rw [tag?, hc']
  rfl

theorem tagAt_eq {s : Store} {n : Node} {t : Tag} (h : s.tag? n = some t) : s.tagAt n = .ok t := by
  obtain ⟨c, hc, rfl⟩ := Option.map_eq_some_iff.mp h
  have key : ∀ t ∈ Tag.all, ∀ u ∈ Tag.only? t.kind, u = t := by decide
  have honly := key c.tag c.tag.mem_all
  rw [c.kind_eq] at honly
  unfold tagAt
  cases hu : Tag.only? n.kind with
  | none => simp [contentAt, hc, Except.map]
  | some u => exact congrArg _ (honly u hu)

/-- A node that resolves is in the store. -/
theorem mem_added_of_contentAt {s : Store} {n : Node} {c : Content n.kind}
    (hc : s.contentAt n.handle = .ok c) : n ∈ empty.added s :=
  mem_added.mpr ⟨by simp [empty], lt_of_content? (contentAt_eq_ok.mp hc)⟩

theorem textAt_eq_ok {s : Store} {y : Symbol} {text : String} :
    s.textAt y = .ok text ↔ s.text? y = some text := by
  unfold textAt
  split <;> simp_all

theorem listAt_eq_ok {s : Store} {k : Kind} {r : ListRef} {hs : List (Handle k)} :
    s.listAt k r = .ok hs ↔
      r.stop ≤ (s.lists.get k).size ∧ ((s.lists.get k).toList.drop r.start).take r.len = hs := by
  simp only [listAt, Array.toList_extract, List.extract_eq_take_drop, ListRef.stop,
    Nat.add_sub_cancel_left]
  split
  · rename_i hle
    simp [hle]
  · rename_i hlt
    simp [hlt]

theorem entriesAt_eq_ok {s : Store} {r : ListRef} {es : List Entry} :
    s.entriesAt r = .ok es ↔
      r.stop ≤ s.entries.size ∧ (s.entries.toList.drop r.start).take r.len = es := by
  simp only [entriesAt, Array.toList_extract, List.extract_eq_take_drop, ListRef.stop,
    Nat.add_sub_cancel_left]
  split
  · rename_i hle
    simp [hle]
  · rename_i hlt
    simp [hlt]

/-! ## What was added is read back -/

theorem contentAt_alloc (s : Store) {k : Kind} (c : Content k) (span : Span) :
    (s.alloc c span).2.contentAt (s.alloc c span).1 = .ok c :=
  contentAt_eq_ok.mpr (by simp [alloc, content?, Pool.push, Pool.size])

theorem listAt_allocList (s : Store) (k : Kind) (hs : List (Handle k)) :
    (s.allocList k hs).2.listAt k (s.allocList k hs).1 = .ok hs :=
  listAt_eq_ok.mpr ⟨by simp [allocList, ListRef.stop], by simp [allocList]⟩

theorem entriesAt_allocEntries (s : Store) (es : List Entry) :
    (s.allocEntries es).2.entriesAt (s.allocEntries es).1 = .ok es :=
  entriesAt_eq_ok.mpr ⟨by simp [allocEntries, ListRef.stop], by simp [allocEntries]⟩

theorem textAt_intern (s : Store) (text : String) :
    (s.intern text).2.textAt (s.intern text).1 = .ok text :=
  textAt_eq_ok.mpr (s.interner.text?_intern text)

/-! ## What resolves keeps its meaning -/

theorem getElem?_of_prefix {α : Type} {l m : List α} (h : l <+: m) {i : Nat} {a : α}
    (hi : l[i]? = some a) : m[i]? = some a := by
  obtain ⟨t, rfl⟩ := h
  rw [List.getElem?_append_left (List.getElem?_eq_some_iff.mp hi).1, hi]

/-- A range inside a list is the same range of every longer list. -/
theorem range_of_prefix {α : Type} {l m : List α} (h : l <+: m) {r : ListRef}
    (hr : r.stop ≤ l.length) : (m.drop r.start).take r.len = (l.drop r.start).take r.len := by
  obtain ⟨t, rfl⟩ := h
  unfold ListRef.stop at hr
  rw [List.drop_append_of_le_length (by omega), List.take_append_of_le_length (by simp; omega)]

namespace Grows

variable {s t : Store} (h : s.Grows t)
include h

theorem content? {k : Kind} {x : Handle k} {c : Content k} (hx : s.content? x = some c) :
    t.content? x = some c := by
  rw [Store.content?, ← Array.getElem?_toList] at hx ⊢
  exact getElem?_of_prefix (h.contents k) hx

theorem span? {n : Node} {span : Span} (hn : s.span? n = some span) : t.span? n = some span := by
  rw [Store.span?, ← Array.getElem?_toList] at hn ⊢
  exact getElem?_of_prefix (h.spans n.kind) hn

theorem contentAt {k : Kind} {x : Handle k} {c : Content k} (hx : s.contentAt x = .ok c) :
    t.contentAt x = .ok c :=
  contentAt_eq_ok.mpr (h.content? (contentAt_eq_ok.mp hx))

theorem textAt {y : Symbol} {text : String} (hy : s.textAt y = .ok text) :
    t.textAt y = .ok text := by
  rw [textAt_eq_ok, text?, Interner.text?, ← Array.getElem?_toList] at hy ⊢
  exact getElem?_of_prefix h.strings hy

theorem listAt {k : Kind} {r : ListRef} {hs : List (Handle k)} (hr : s.listAt k r = .ok hs) :
    t.listAt k r = .ok hs := by
  obtain ⟨hle, hr⟩ := listAt_eq_ok.mp hr
  refine listAt_eq_ok.mpr ⟨Nat.le_trans hle (h.size_lists k), ?_⟩
  rw [← hr]
  exact range_of_prefix (h.lists k) (by simpa using hle)

theorem entriesAt {r : ListRef} {es : List Entry} (hr : s.entriesAt r = .ok es) :
    t.entriesAt r = .ok es := by
  obtain ⟨hle, hr⟩ := entriesAt_eq_ok.mp hr
  refine entriesAt_eq_ok.mpr ⟨Nat.le_trans hle h.size_entries, ?_⟩
  rw [← hr]
  exact range_of_prefix h.entries (by simpa using hle)

end Grows

end GoTree.Store
