import Mathlib.Data.List.Nodup
import Mathlib.Logic.Relation
import GoTree.Proofs.Store.Growth
/-!
# References and what is new

A node refers to other nodes through its fields, one by one or through a range
of a list buffer. `Fresh s t ls` says that what was added to `s` to get `t` hangs
off the references `ls`, and only off them: each added node is at the end of one
reference, counting `ls` and the references of the added nodes, and the ranges
among these references lie apart in what was appended.

* `Fresh.append`, `Fresh.alloc`, `Fresh.gather`: how it is kept while a store grows.
* `Fresh.isolated`: what it says about a single node.
-/
namespace GoTree

open scoped List

/-! ## Ranges -/

/-- What ranges are taken from: the list items of a kind, or package entries. -/
inductive Buffer where
  | items (k : Kind)
  | entries
  deriving DecidableEq, Repr

/-- The range that a reference goes through, with its buffer. -/
def Link.range? : Link → Option (Buffer × ListRef)
  | .node _ => none
  | .list k r => some (.items k, r)
  | .entries r => some (.entries, r)

/-- References that go through no common place of a buffer. -/
def Link.Apart (a b : Link) : Prop :=
  ∀ x r q, a.range? = some (x, r) → b.range? = some (x, q) → r.stop ≤ q.start ∨ q.stop ≤ r.start

theorem Link.Apart.symm {a b : Link} (h : a.Apart b) : b.Apart a := by
  intro x r q hr hq
  have := h x q r hq hr
  omega

theorem Link.apart_node (n : Node) (l : Link) : (Link.node n).Apart l := by
  intro x r q hr
  cases hr

namespace Store

/-- Number of places in a buffer. -/
def bufferSize (s : Store) : Buffer → Nat
  | .items k => (s.lists.get k).size
  | .entries => s.entries.size

theorem Grows.bufferSize_le {s t : Store} (g : s.Grows t) : ∀ x, s.bufferSize x ≤ t.bufferSize x
  | .items k => g.size_lists k
  | .entries => g.size_entries

/-- A reference whose range, if it has one, was appended to `s` to get `t`. -/
def Appended (s t : Store) (l : Link) : Prop :=
  ∀ x r, l.range? = some (x, r) → s.bufferSize x ≤ r.start ∧ r.stop ≤ t.bufferSize x

theorem Appended.later {s t u : Store} (g : t.Grows u) {l : Link} (h : s.Appended t l) :
    s.Appended u l := by
  intro x r hr
  have := h x r hr
  have := g.bufferSize_le x
  omega

theorem Appended.earlier {s t u : Store} (g : s.Grows t) {l : Link} (h : t.Appended u l) :
    s.Appended u l := by
  intro x r hr
  have := h x r hr
  have := g.bufferSize_le x
  omega

/-- What is appended later lies apart from what was appended before. -/
theorem Appended.apart {s t u : Store} {a b : Link} (ha : s.Appended t a) (hb : t.Appended u b) :
    a.Apart b := by
  intro x r q hr hq
  have := ha x r hr
  have := hb x q hq
  omega

theorem appended_node (s t : Store) (n : Node) : s.Appended t (.node n) := by
  intro x r hr
  cases hr

theorem appended_allocList (s : Store) (k : Kind) (hs : List (Handle k)) :
    s.Appended (s.allocList k hs).2 (.list k (s.allocList k hs).1) := by
  intro x r hr
  cases hr
  simp [bufferSize, allocList, ListRef.stop]

theorem appended_allocEntries (s : Store) (es : List Entry) :
    s.Appended (s.allocEntries es).2 (.entries (s.allocEntries es).1) := by
  intro x r hr
  cases hr
  simp [bufferSize, allocEntries, ListRef.stop]

/-! ## References -/

/-- The references in the fields of a node. -/
def linksOf (s : Store) (n : Node) : List Link :=
  match s.contentAt n.handle with
  | .ok c => c.links
  | .error _ => []

/-- The nodes at the end of a reference. -/
def follow (s : Store) (l : Link) : List Node :=
  match s.targets l with
  | .ok ns => ns
  | .error _ => []

/-- The nodes that a node refers to, as often as it does. -/
def references (s : Store) (n : Node) : List Node := (s.linksOf n).flatMap s.follow

/-- The nodes that are met from a node, itself included. -/
def Reaches (s : Store) : Node → Node → Prop :=
  Relation.ReflTransGen fun n m => m ∈ s.references n

theorem linksOf_eq {s : Store} {k : Kind} {h : Handle k} {c : Content k}
    (hc : s.contentAt h = .ok c) : s.linksOf h.node = c.links := by
  have hc' : s.contentAt h.node.handle = .ok c := hc
  unfold linksOf
  rw [hc']
  rfl

theorem Grows.linksOf {s t : Store} (g : s.Grows t) {n : Node}
    (hn : n.raw < (s.nodes.get n.kind).size) : t.linksOf n = s.linksOf n := by
  have hsome : (s.content? n.handle).isSome := content?_isSome.mpr hn
  obtain ⟨c, hc⟩ := Option.isSome_iff_exists.mp hsome
  have hs : s.contentAt n.handle = .ok c := contentAt_eq_ok.mpr hc
  exact (linksOf_eq (g.contentAt hs)).trans (linksOf_eq hs).symm

@[simp] theorem follow_node (s : Store) (n : Node) : s.follow (.node n) = [n] := rfl

theorem follow_list {s : Store} {k : Kind} {r : ListRef} {hs : List (Handle k)}
    (hr : s.listAt k r = .ok hs) : s.follow (.list k r) = hs.map Handle.node := by
  simp [follow, targets, hr, Except.map]

theorem follow_entries {s : Store} {r : ListRef} {es : List Entry}
    (hr : s.entriesAt r = .ok es) : s.follow (.entries r) = es.map fun e => e.file.node := by
  simp [follow, targets, hr, Except.map]

/-- A reference whose range lies in a store leads to the same nodes later. -/
theorem Grows.follow {s t u : Store} (g : t.Grows u) {l : Link} (h : s.Appended t l) :
    u.follow l = t.follow l := by
  cases l with
  | node n => rfl
  | list k r =>
    have hr := listAt_eq_ok.mpr ⟨(h (.items k) r rfl).2, rfl⟩
    rw [follow_list hr, follow_list (g.listAt hr)]
  | entries r =>
    have hr := entriesAt_eq_ok.mpr ⟨(h .entries r rfl).2, rfl⟩
    rw [follow_entries hr, follow_entries (g.entriesAt hr)]

theorem Grows.mem_linksOf {s t : Store} (g : s.Grows t) {n : Node} {l : Link}
    (h : l ∈ s.linksOf n) : l ∈ t.linksOf n := by
  cases hc : s.contentAt n.handle with
  | ok c =>
    have hs : s.linksOf n = c.links := linksOf_eq hc
    have ht : t.linksOf n = c.links := linksOf_eq (g.contentAt hc)
    rwa [ht, ← hs]
  | error d => simp [Store.linksOf, hc] at h

theorem Grows.mem_follow {s t : Store} (g : s.Grows t) {l : Link} {m : Node}
    (h : m ∈ s.follow l) : m ∈ t.follow l := by
  cases l with
  | node n => exact h
  | list k r =>
    cases hr : s.listAt k r with
    | ok hs => rwa [follow_list (g.listAt hr), ← follow_list hr]
    | error d => simp [Store.follow, targets, hr, Except.map] at h
  | entries r =>
    cases hr : s.entriesAt r with
    | ok es => rwa [follow_entries (g.entriesAt hr), ← follow_entries hr]
    | error d => simp [Store.follow, targets, hr, Except.map] at h

theorem Reaches.grows {s t : Store} (g : s.Grows t) {n m : Node} (h : s.Reaches n m) :
    t.Reaches n m := by
  refine Relation.ReflTransGen.mono (fun a b hab => ?_) _ _ h
  obtain ⟨l, hl, hb⟩ := List.mem_flatMap.mp hab
  exact List.mem_flatMap.mpr ⟨l, g.mem_linksOf hl, g.mem_follow hb⟩

/-! ## Added nodes -/

theorem nodup_added (s t : Store) : (s.added t).Nodup := by
  have hall : Kind.all.Nodup := by decide
  refine List.nodup_flatMap.mpr ⟨fun k _ => ?_, ?_⟩
  · exact List.Nodup.map (fun i j h => (Node.mk.inj h).2) List.nodup_range'
  · refine hall.imp fun {k l} hkl n hn hn' => hkl ?_
    obtain ⟨i, -, rfl⟩ := List.mem_map.mp hn
    obtain ⟨j, -, h⟩ := List.mem_map.mp hn'
    exact (Node.mk.inj h).1.symm

theorem added_trans {s t u : Store} (g : s.Grows t) (g' : t.Grows u) :
    (s.added u).Perm (s.added t ++ t.added u) := by
  have hnodup : (s.added t ++ t.added u).Nodup := by
    refine (nodup_added s t).append (nodup_added t u) fun n hn hn' => ?_
    have := mem_added.mp hn
    have := mem_added.mp hn'
    omega
  refine (List.perm_ext_iff_of_nodup (nodup_added s u) hnodup).mpr fun n => ?_
  have := g.size_nodes n.kind
  have := g'.size_nodes n.kind
  simp only [List.mem_append, mem_added]
  omega

theorem added_of_nodes_eq {s t u : Store} (h : u.nodes = t.nodes) : s.added u = s.added t := by
  simp only [added, h]

theorem added_self (s : Store) : s.added s = [] := by
  simp [added]

theorem added_alloc (s : Store) {k : Kind} (c : Content k) (span : Span) :
    (s.added (s.alloc c span).2).Perm [(s.alloc c span).1.node] := by
  refine (List.perm_ext_iff_of_nodup (nodup_added _ _) (List.nodup_singleton _)).mpr fun n => ?_
  obtain ⟨l, i⟩ := n
  simp only [mem_added, List.mem_singleton, alloc, Handle.node, Node.mk.injEq]
  by_cases h : l = k
  · subst h
    simp only [ByKind.get_modify_self, Pool.size_push, true_and]
    omega
  · simp only [ByKind.get_modify_of_ne _ _ h, h, false_and, iff_false]
    omega

/-! ## What is new -/

/-- The references `ls` and those of the nodes added to `s` to get `t`. -/
def newLinks (s t : Store) (ls : List Link) : List Link := ls ++ (s.added t).flatMap t.linksOf

/-- What was added to `s` to get `t` hangs off the references `ls`. -/
structure Fresh (s t : Store) (ls : List Link) : Prop where
  grows : s.Grows t
  targets : ((newLinks s t ls).flatMap t.follow).Perm (s.added t)
  reached : ∀ n ∈ s.added t, ∃ m ∈ ls.flatMap t.follow, t.Reaches m n
  appended : ∀ l ∈ newLinks s t ls, s.Appended t l
  apart : (newLinks s t ls).Pairwise Link.Apart

/-- The nodes added before refer to the same later. -/
theorem Grows.flatMap_linksOf {t u : Store} (g : t.Grows u) (s : Store) :
    (s.added t).flatMap u.linksOf = (s.added t).flatMap t.linksOf :=
  List.flatMap_congr fun _ hn => g.linksOf (mem_added.mp hn).2

theorem newLinks_append {s t u : Store} (g : s.Grows t) (g' : t.Grows u) (ls ms : List Link) :
    (newLinks s u (ls ++ ms)).Perm (newLinks s t ls ++ newLinks t u ms) := by
  have hadded : ((s.added u).flatMap u.linksOf).Perm
      ((s.added t).flatMap t.linksOf ++ (t.added u).flatMap u.linksOf) := by
    rw [← g'.flatMap_linksOf, ← List.flatMap_append]
    exact (added_trans g g').flatMap_right _
  calc ls ++ ms ++ (s.added u).flatMap u.linksOf
      _ ~ ls ++ ms ++ ((s.added t).flatMap t.linksOf ++ (t.added u).flatMap u.linksOf) :=
        hadded.append_left _
      _ = ls ++ ((ms ++ (s.added t).flatMap t.linksOf) ++ (t.added u).flatMap u.linksOf) := by
        simp only [List.append_assoc]
      _ ~ ls ++ (((s.added t).flatMap t.linksOf ++ ms) ++ (t.added u).flatMap u.linksOf) :=
        (List.perm_append_comm.append_right _).append_left _
      _ = newLinks s t ls ++ newLinks t u ms := by simp only [newLinks, List.append_assoc]

namespace Fresh

/-- Nothing hangs off no reference. -/
theorem of_nodes_eq {s t : Store} (g : s.Grows t) (h : t.nodes = s.nodes) : Fresh s t [] := by
  have hadded : s.added t = [] := by rw [added_of_nodes_eq h, added_self]
  have hlinks : newLinks s t [] = [] := by simp [newLinks, hadded]
  refine ⟨g, ?_, ?_, ?_, ?_⟩
  · rw [hlinks, hadded]
    exact .nil
  · simp [hadded]
  · simp [hlinks]
  · simp [hlinks]

/-- The new references lead to the same nodes later. -/
theorem flatMap_follow {s t u : Store} {ls : List Link} (h : Fresh s t ls) (g : t.Grows u) :
    (newLinks s t ls).flatMap u.follow = (newLinks s t ls).flatMap t.follow :=
  List.flatMap_congr fun l hl => g.follow (h.appended l hl)

/-- What is added in two goes hangs off the references of both. -/
theorem append {s t u : Store} {ls ms : List Link} (h : Fresh s t ls) (h' : Fresh t u ms) :
    Fresh s u (ls ++ ms) := by
  have hlinks := newLinks_append h.grows h'.grows ls ms
  have hadded := added_trans h.grows h'.grows
  refine ⟨h.grows.trans h'.grows, ?_, ?_, ?_, ?_⟩
  · calc (newLinks s u (ls ++ ms)).flatMap u.follow
      _ ~ (newLinks s t ls ++ newLinks t u ms).flatMap u.follow := hlinks.flatMap_right _
      _ = (newLinks s t ls).flatMap t.follow ++ (newLinks t u ms).flatMap u.follow := by
        rw [List.flatMap_append, h.flatMap_follow h'.grows]
      _ ~ s.added t ++ t.added u := h.targets.append h'.targets
      _ ~ s.added u := hadded.symm
  · intro n hn
    rw [List.flatMap_append]
    rcases List.mem_append.mp (hadded.mem_iff.mp hn) with hn | hn
    · obtain ⟨m, hm, hreach⟩ := h.reached n hn
      obtain ⟨l, hl, hm⟩ := List.mem_flatMap.mp hm
      have hm' : m ∈ ls.flatMap u.follow := List.mem_flatMap.mpr ⟨l, hl, h'.grows.mem_follow hm⟩
      exact ⟨m, List.mem_append_left _ hm', hreach.grows h'.grows⟩
    · obtain ⟨m, hm, hreach⟩ := h'.reached n hn
      exact ⟨m, List.mem_append_right _ hm, hreach⟩
  · intro l hl
    rcases List.mem_append.mp (hlinks.mem_iff.mp hl) with hl | hl
    · exact (h.appended l hl).later h'.grows
    · exact (h'.appended l hl).earlier h.grows
  · rw [hlinks.pairwise_iff Link.Apart.symm, List.pairwise_append]
    -- across the two goes: what the second appends starts where the first ended
    exact ⟨h.apart, h'.apart, fun a ha b hb => (h.appended a ha).apart (h'.appended b hb)⟩

/-- A new node takes over the references of its content. -/
theorem alloc {s t : Store} {k : Kind} {c : Content k} (h : Fresh s t c.links) (span : Span) :
    Fresh s (t.alloc c span).2 [.node (t.alloc c span).1.node] := by
  have g := t.grows_alloc c span
  have hroot : (t.alloc c span).2.linksOf (t.alloc c span).1.node = c.links :=
    linksOf_eq (t.contentAt_alloc c span)
  have hadd := t.added_alloc c span
  generalize (t.alloc c span).1.node = m at *
  generalize (t.alloc c span).2 = u at *
  have hadded : s.added u ~ m :: s.added t :=
    (added_trans h.grows g).trans ((hadd.append_left _).trans List.perm_append_comm)
  have hlinks : newLinks s u [.node m] ~ .node m :: newLinks s t c.links := by
    refine List.Perm.cons _ ((hadded.flatMap_right _).trans (.of_eq ?_))
    rw [List.flatMap_cons, hroot, g.flatMap_linksOf, newLinks]
  refine ⟨h.grows.trans g, ?_, ?_, ?_, ?_⟩
  · calc (newLinks s u [.node m]).flatMap u.follow
      _ ~ (.node m :: newLinks s t c.links).flatMap u.follow := hlinks.flatMap_right _
      _ = m :: (newLinks s t c.links).flatMap t.follow := by
        rw [List.flatMap_cons, h.flatMap_follow g, follow_node, List.singleton_append]
      _ ~ m :: s.added t := h.targets.cons m
      _ ~ s.added u := hadded.symm
  · intro n hn
    refine ⟨m, by simp, ?_⟩
    rcases List.mem_cons.mp (hadded.mem_iff.mp hn) with rfl | hn
    · exact .refl
    · obtain ⟨x, hx, hreach⟩ := h.reached n hn
      obtain ⟨l, hl, hx⟩ := List.mem_flatMap.mp hx
      have hmx : x ∈ u.references m :=
        List.mem_flatMap.mpr ⟨l, by rwa [hroot], g.mem_follow hx⟩
      exact .head hmx (hreach.grows g)
  · intro l hl
    rcases List.mem_cons.mp (hlinks.mem_iff.mp hl) with rfl | hl
    · exact appended_node s u m
    · exact (h.appended l hl).later g
  · rw [hlinks.pairwise_iff Link.Apart.symm, List.pairwise_cons]
    exact ⟨fun l _ => Link.apart_node m l, h.apart⟩

/-- A new range takes over the references to its items. -/
theorem gather {s t u : Store} {ls : List Link} {l : Link} (h : Fresh s t ls) (g : t.Grows u)
    (hn : u.nodes = t.nodes) (hf : u.follow l = ls.flatMap t.follow) (hl : t.Appended u l) :
    Fresh s u [l] := by
  have hadded : s.added u = s.added t := added_of_nodes_eq hn
  have hlinks : newLinks s u [l] = l :: (s.added t).flatMap t.linksOf := by
    rw [newLinks, hadded, g.flatMap_linksOf, List.singleton_append]
  have hmem : ∀ x ∈ (s.added t).flatMap t.linksOf, s.Appended t x :=
    fun x hx => h.appended x (List.mem_append_right _ hx)
  refine ⟨h.grows.trans g, ?_, ?_, ?_, ?_⟩
  · have hrest := List.flatMap_congr fun x hx => g.follow (hmem x hx)
    rw [hlinks, List.flatMap_cons, hf, hrest, ← List.flatMap_append, hadded]
    exact h.targets
  · intro n hn
    rw [List.flatMap_singleton, hf]
    obtain ⟨m, hm, hreach⟩ := h.reached n (hadded ▸ hn)
    exact ⟨m, hm, hreach.grows g⟩
  · intro x hx
    rw [hlinks] at hx
    rcases List.mem_cons.mp hx with rfl | hx
    · exact hl.earlier h.grows
    · exact (hmem x hx).later g
  · rw [hlinks, List.pairwise_cons]
    exact ⟨fun x hx => ((hmem x hx).apart hl).symm, (List.pairwise_append.mp h.apart).2.1⟩

end Fresh

/-! ## A single node that is new -/

/-- What was added to `s` to get `t` is what the node `m` consists of: the nodes
that are met from `m` are the added ones, no two references among them lead to
one node, none leads to `m`, and their ranges lie apart in what was appended. -/
structure Isolated (s t : Store) (m : Node) : Prop where
  reachable : ∀ n, t.Reaches m n ↔ n ∈ s.added t
  unreferenced : ((s.added t).flatMap t.references).count m = 0
  once : ∀ n ∈ s.added t, n ≠ m → ((s.added t).flatMap t.references).count n = 1
  appended : ∀ l ∈ (s.added t).flatMap t.linksOf, s.Appended t l
  apart : ((s.added t).flatMap t.linksOf).Pairwise Link.Apart

theorem Fresh.isolated {s t : Store} {m : Node} (h : Fresh s t [.node m]) : Isolated s t m := by
  have hrefs : (s.added t).flatMap t.references =
      ((s.added t).flatMap t.linksOf).flatMap t.follow := List.flatMap_assoc.symm
  have htargets : m :: (s.added t).flatMap t.references ~ s.added t := by
    rw [hrefs]
    simpa [newLinks] using h.targets
  have hcount : ∀ n ∈ s.added t, (m :: (s.added t).flatMap t.references).count n = 1 := by
    intro n hn
    rw [htargets.count_eq]
    exact List.count_eq_one_of_mem (nodup_added s t) hn
  have hm : m ∈ s.added t := htargets.mem_iff.mp (by simp)
  refine ⟨fun n => ⟨fun hreach => ?_, fun hn => ?_⟩, ?_, ?_, ?_, ?_⟩
  · -- the added nodes are closed under references
    induction hreach with
    | refl => exact hm
    | tail _ hxy hx =>
      exact htargets.mem_iff.mp (List.mem_cons_of_mem _ (List.mem_flatMap.mpr ⟨_, hx, hxy⟩))
  · obtain ⟨x, hx, hreach⟩ := h.reached n hn
    obtain rfl : x = m := by simpa using hx
    exact hreach
  · have := hcount m hm
    rw [List.count_cons_self] at this
    omega
  · intro n hn hne
    have := hcount n hn
    rwa [List.count_cons_of_ne (Ne.symm hne)] at this
  · exact fun l hl => h.appended l (List.mem_append_right _ hl)
  · exact (List.pairwise_append.mp h.apart).2.1

end Store
end GoTree
