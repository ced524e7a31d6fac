import Mathlib.Algebra.Order.BigOperators.Group.List
import Mathlib.Algebra.Order.Group.Nat
import GoTree.Proofs.Store.Operations
import GoTree.Proofs.Walk.Occurrences
/-!
# Stores that were built bottom up

A store is built bottom up if each node was added when all that it refers to was
there, and no content was overwritten. `Store.BottomUp` is that history. Lists may
be made of anything: what counts is that their items are there when a node comes to
refer to them.

The order in which nodes were added is then an order on them that every reference
goes down (`Grounded.ranked`), although no index shows it: each kind has a pool of
its own. So nothing lies below itself, and traversals end.

* `BottomUp.grounded`: what a node refers to is there, and older.
* `Grounded.shallow_depth`: no path is longer than the depth that traversals allow.
* `ends_unfoldWithin`, `ends_walkWithin`: a traversal that is allowed the longest
  path does not report a cycle.
-/
namespace GoTree.Store

/-- A node that resolves. -/
def Present (s : Store) (n : Node) : Prop := ∃ c, s.contentAt n.handle = .ok c

/-- A reference that resolves, to nodes that resolve. -/
def Supports (s : Store) (l : Link) : Prop :=
  ∃ ns, s.targets l = .ok ns ∧ ∀ n ∈ ns, s.Present n

instance (s : Store) (n : Node) : Decidable (s.Present n) :=
  match h : s.contentAt n.handle with
  | .ok c => isTrue ⟨c, h⟩
  | .error _ => isFalse fun ⟨_, hc⟩ => by simp [h] at hc

instance (s : Store) (l : Link) : Decidable (s.Supports l) :=
  match h : s.targets l with
  | .ok ns => decidable_of_iff (∀ n ∈ ns, s.Present n) (by simp [Supports, h])
  | .error _ => isFalse fun ⟨_, hns, _⟩ => by simp [h] at hns

/-- How a store is built bottom up. -/
inductive BottomUp : Store → Prop where
  | empty : BottomUp .empty
  | alloc {s : Store} {k : Kind} {c : Content k} (hs : BottomUp s)
      (hc : ∀ l ∈ c.links, s.Supports l) (span : Span) : BottomUp (s.alloc c span).2
  | allocList {s : Store} (hs : BottomUp s) (k : Kind) (items : List (Handle k)) :
      BottomUp (s.allocList k items).2
  | allocEntries {s : Store} (hs : BottomUp s) (items : List Entry) :
      BottomUp (s.allocEntries items).2
  | intern {s : Store} (hs : BottomUp s) (text : String) : BottomUp (s.intern text).2
  | setSpan {s t : Store} {n : Node} {span : Span} (hs : BottomUp s)
      (h : s.setSpan n span = .ok t) : BottomUp t

theorem Present.grows {s t : Store} (g : s.Grows t) {n : Node} (h : s.Present n) : t.Present n :=
  h.imp fun _ => g.contentAt

theorem Supports.grows {s t : Store} (g : s.Grows t) {l : Link} (h : s.Supports l) :
    t.Supports l := by
  obtain ⟨ns, hns, hpresent⟩ := h
  exact ⟨ns, g.targets hns, fun n hn => (hpresent n hn).grows g⟩

theorem supports_node {s : Store} {n : Node} : s.Supports (.node n) ↔ s.Present n := by
  constructor
  · rintro ⟨ns, hns, hpresent⟩
    cases hns
    exact hpresent n (List.mem_singleton_self n)
  · exact fun h => ⟨[n], rfl, by simpa using h⟩

theorem present_alloc (s : Store) {k : Kind} (c : Content k) (span : Span) :
    (s.alloc c span).2.Present (s.alloc c span).1.node :=
  ⟨c, s.contentAt_alloc c span⟩

/-! ## The order of adding -/

/-- What a node refers to is there, and lower in some order. -/
structure Grounded (s : Store) : Prop where
  closed : ∀ n, ∀ l ∈ s.linksOf n, s.Supports l
  ranked : ∃ age : Node → Nat, ∀ n, ∀ m ∈ s.references n, age m < age n

theorem follow_eq {s : Store} {l : Link} {ns : List Node} (h : s.targets l = .ok ns) :
    s.follow l = ns := by
  simp [follow, h]

theorem grounded_empty : Grounded empty := by
  have hlinks : ∀ n, empty.linksOf n = [] := by
    intro n
    simp [linksOf, contentAt, content?, empty, Pool.empty]
  refine ⟨fun n l hl => ?_, fun _ => 0, fun n m hm => ?_⟩
  · simp [hlinks] at hl
  · simp [references, hlinks] at hm

theorem Grounded.mem_references {s : Store} (hs : s.Grounded) {n m : Node}
    (h : m ∈ s.references n) : s.Present m := by
  obtain ⟨l, hl, hm⟩ := List.mem_flatMap.mp h
  obtain ⟨ns, hns, hpresent⟩ := hs.closed n l hl
  rw [follow_eq hns] at hm
  exact hpresent m hm

/-- Where contents are the same and references still resolve to the same, nodes refer
to the same. -/
theorem Grounded.references_eq {s t : Store} (hs : s.Grounded) {n : Node}
    (hlinks : t.linksOf n = s.linksOf n)
    (htargets : ∀ {l : Link} {ns : List Node}, s.targets l = .ok ns → t.targets l = .ok ns) :
    t.references n = s.references n := by
  rw [references, hlinks]
  refine List.flatMap_congr fun l hl => ?_
  obtain ⟨ns, hns, -⟩ := hs.closed n l hl
  rw [follow_eq hns, follow_eq (htargets hns)]

/-- A change that leaves the contents and what resolves alone. -/
theorem Grounded.congr {s t : Store} (hs : s.Grounded)
    (hcontent : ∀ {k : Kind} (h : Handle k), t.contentAt h = s.contentAt h)
    (htargets : ∀ {l : Link} {ns : List Node}, s.targets l = .ok ns → t.targets l = .ok ns) :
    t.Grounded := by
  have hlinks : ∀ n, t.linksOf n = s.linksOf n := by
    intro n
    simp only [linksOf, hcontent]
  obtain ⟨age, hage⟩ := hs.ranked
  refine ⟨fun n l hl => ?_, age, fun n m hm => ?_⟩
  · rw [hlinks] at hl
    obtain ⟨ns, hns, hpresent⟩ := hs.closed n l hl
    refine ⟨ns, htargets hns, fun m hm => ?_⟩
    obtain ⟨c, hc⟩ := hpresent m hm
    exact ⟨c, (hcontent _).trans hc⟩
  · rw [hs.references_eq (hlinks n) htargets] at hm
    exact hage n m hm

theorem content?_alloc_of_ne (s : Store) {k : Kind} (c : Content k) (span : Span) {n : Node}
    (hn : n ≠ (s.alloc c span).1.node) :
    (s.alloc c span).2.content? n.handle = s.content? n.handle := by
  obtain ⟨l, i⟩ := n
  by_cases hl : l = k
  · subst hl
    have hi : i ≠ (s.nodes.get l).contents.size := fun h => hn (by rw [h]; rfl)
    simp [alloc, content?, Pool.push, Node.handle, Array.getElem?_push, hi]
  · simp only [alloc, content?, ByKind.get_modify_of_ne _ _ hl]

theorem linksOf_alloc_of_ne (s : Store) {k : Kind} (c : Content k) (span : Span) {n : Node}
    (hn : n ≠ (s.alloc c span).1.node) : (s.alloc c span).2.linksOf n = s.linksOf n := by
  simp only [linksOf, contentAt, s.content?_alloc_of_ne c span hn]

theorem not_present_alloc (s : Store) {k : Kind} (c : Content k) (span : Span) :
    ¬ s.Present (s.alloc c span).1.node := by
  rintro ⟨d, hd⟩
  have hlt := (mem_added.mp (mem_added_of_contentAt hd)).2
  simp [alloc, Handle.node] at hlt

/-- A new node that refers to what is there comes after everything it refers to. -/
theorem Grounded.alloc {s : Store} {k : Kind} {c : Content k} (hs : s.Grounded)
    (hc : ∀ l ∈ c.links, s.Supports l) (span : Span) : (s.alloc c span).2.Grounded := by
  have g := s.grows_alloc c span
  have hroot : (s.alloc c span).2.linksOf (s.alloc c span).1.node = c.links :=
    linksOf_eq (s.contentAt_alloc c span)
  have hnew := s.not_present_alloc c span
  have hother : ∀ n, n ≠ (s.alloc c span).1.node →
      (s.alloc c span).2.linksOf n = s.linksOf n := fun n => s.linksOf_alloc_of_ne c span
  generalize (s.alloc c span).1.node = new at *
  generalize (s.alloc c span).2 = t at *
  have hne : ∀ m, s.Present m → m ≠ new := fun m hm h => hnew (h ▸ hm)
  obtain ⟨age, hage⟩ := hs.ranked
  refine ⟨fun n l hl => ?_,
    fun n => if n = new then ((c.links.flatMap s.follow).map age).sum + 1 else age n,
    fun n m hm => ?_⟩
  · by_cases hn : n = new
    · rw [hn, hroot] at hl
      exact (hc l hl).grows g
    · rw [hother n hn] at hl
      exact (hs.closed n l hl).grows g
  · by_cases hn : n = new
    · rw [hn, references, hroot] at hm
      obtain ⟨l, hl, hm⟩ := List.mem_flatMap.mp hm
      obtain ⟨ns, hns, hpresent⟩ := hc l hl
      rw [follow_eq (g.targets hns)] at hm
      have hmem : m ∈ c.links.flatMap s.follow :=
        List.mem_flatMap.mpr ⟨l, hl, by rwa [follow_eq hns]⟩
      have hle := List.le_sum_of_mem (List.mem_map_of_mem (f := age) hmem)
      simp only [hne m (hpresent m hm), hn, if_true, if_false]
      omega
    · rw [hs.references_eq (hother n hn) g.targets] at hm
      simp only [hne m (hs.mem_references hm), hn, if_false]
      exact hage n m hm

theorem contentAt_setSpan {s t : Store} {n : Node} {span : Span} (h : s.setSpan n span = .ok t)
    {k : Kind} (x : Handle k) : t.contentAt x = s.contentAt x := by
  simp only [contentAt, content?_setSpan h]

theorem targets_setSpan {s t : Store} {n : Node} {span : Span} (h : s.setSpan n span = .ok t)
    (l : Link) : t.targets l = s.targets l := by
  rw [setSpan_eq_ok h]
  cases l <;> rfl

/-- **What a node refers to is there, and was added before it.** -/
theorem BottomUp.grounded {s : Store} (hs : s.BottomUp) : s.Grounded := by
  induction hs with
  | empty => exact grounded_empty
  | alloc _ hc span ih => exact ih.alloc hc span
  | @allocList s _ k items ih => exact ih.congr (fun _ => rfl) (s.grows_allocList k items).targets
  | @allocEntries s _ items ih => exact ih.congr (fun _ => rfl) (s.grows_allocEntries items).targets
  | @intern s _ text ih => exact ih.congr (fun _ => rfl) (s.grows_intern text).targets
  | setSpan _ h ih =>
    exact ih.congr (contentAt_setSpan h) fun hns => (targets_setSpan h _).trans hns

theorem Grounded.acyclic {s : Store} (hs : s.Grounded) (n : Node) : s.Acyclic n := by
  obtain ⟨age, hage⟩ := hs.ranked
  have hdown : ∀ a b, Relation.TransGen (fun a b => b ∈ s.references a) a b → age b < age a := by
    intro a b hab
    induction hab with
    | single hb => exact hage _ _ hb
    | tail _ hc ih => exact Nat.lt_trans (hage _ _ hc) ih
  exact fun m _ hm => Nat.lt_irrefl _ (hdown m m hm)

/-- No path is longer than the depth that traversals allow. -/
theorem Grounded.shallow_depth {s : Store} (hs : s.Grounded) (n : Node) :
    s.shallow s.depth n = true :=
  (hs.acyclic n).shallow_depth

/-- What is there refers to the same while the store grows. -/
theorem Grounded.references_later {s t : Store} (hs : s.Grounded) (g : s.Grows t) {n : Node}
    (hn : s.Present n) : t.references n = s.references n := by
  obtain ⟨c, hc⟩ := hn
  have hlt := (mem_added.mp (mem_added_of_contentAt hc)).2
  exact hs.references_eq (g.linksOf hlt) g.targets

/-- The paths from what is there stay as they are while the store grows. -/
theorem Grounded.shallow_later {s t : Store} (hs : s.Grounded) (g : s.Grows t) :
    ∀ {d : Nat} {n : Node}, s.Present n → s.shallow d n = true → t.shallow d n = true
  | 0, _, _, h => by cases h
  | d + 1, n, hn, h => by
    refine shallow_succ.mpr fun m hm => ?_
    rw [hs.references_later g hn] at hm
    exact hs.shallow_later g (hs.mem_references hm) (shallow_succ.mp h m hm)

/-! ## Traversals that end -/

/-- A traversal that does not report a cycle. -/
def Ends {α : Type} (x : Except Fault α) : Prop := x ≠ .error .cycle

section
variable {α β σ : Type}

theorem ends_ok (a : α) : Ends (.ok a) := by
  intro h
  cases h

theorem ends_orFault (x : Except Dangling α) : Ends (orFault x) := by
  intro h
  cases x <;> cases h

theorem ends_bind {x : Except Fault α} {f : α → Except Fault β} (hx : Ends x)
    (hf : ∀ a, x = .ok a → Ends (f a)) : Ends (x >>= f) := by
  cases x with
  | ok a => exact hf a rfl
  | error e => exact fun h => hx (congrArg Except.error (Except.error.inj h))

theorem ends_map {x : Except Fault α} (f : α → β) (hx : Ends x) : Ends (x.map f) := by
  cases x with
  | ok a => exact ends_ok _
  | error e => exact fun h => hx (congrArg Except.error (Except.error.inj h))

theorem ends_mapM {f : α → Except Fault β} :
    ∀ {as : List α}, (∀ a ∈ as, Ends (f a)) → Ends (as.mapM f)
  | [], _ => ends_ok _
  | a :: as, h => by
    rw [List.mapM_cons]
    refine ends_bind (h a List.mem_cons_self) fun b _ => ?_
    have ih := ends_mapM fun a ha => h a (List.mem_cons_of_mem _ ha)
    exact ends_bind ih fun bs _ => ends_ok _

theorem ends_untilStop {f : α → σ → Except Fault (Option β × σ)} :
    ∀ {as : List α}, (∀ a ∈ as, ∀ st, Ends (f a st)) → ∀ st, Ends (untilStop f as st)
  | [], _, _ => ends_ok _
  | a :: as, h, st => by
    refine ends_bind (h a List.mem_cons_self st) fun r _ => ?_
    obtain ⟨_ | b, st'⟩ := r
    · exact ends_untilStop (fun a ha => h a (List.mem_cons_of_mem _ ha)) st'
    · exact ends_ok _

end

section
variable {s : Store}

theorem ends_unfoldValue {child : Node → Except Fault Tree} : ∀ {ft : FieldType} {v : ft.Value},
    (∀ l ∈ (Part.value ft).links v, ∀ m ∈ s.follow l, Ends (child m)) →
      Ends (s.unfoldValue child ft v)
  | .node _, h, hchild => hchild (.node h.node) (by simp [Part.links, FieldType.link?]) _ (by simp)
  | .optNode _, none, _ => ends_ok _
  | .optNode _, some h, hchild =>
    hchild (.node h.node) (by simp [Part.links, FieldType.link?]) _ (by simp)
  | .list _, none, _ => ends_ok _
  | .list sl, some r, hchild => by
    refine ends_bind (ends_orFault _) fun hs hhs => ?_
    have hr : s.listAt sl.kind r = .ok hs := orFault_eq_ok.mp hhs
    refine ends_bind (ends_mapM fun h hh => ?_) fun items _ => ends_ok _
    refine hchild (.list sl.kind r) (by simp [Part.links, FieldType.link?]) _ ?_
    rw [follow_list hr]
    exact List.mem_map_of_mem hh
  | .entries, r, hchild => by
    refine ends_bind (ends_orFault _) fun es hes => ?_
    have hr : s.entriesAt r = .ok es := orFault_eq_ok.mp hes
    refine ends_bind (ends_mapM fun e he => ?_) fun items _ => ends_ok _
    refine ends_bind (ends_orFault _) fun name _ => ?_
    refine ends_bind ?_ fun file _ => ends_ok _
    refine hchild (.entries r) (by simp [Part.links, FieldType.link?]) _ ?_
    rw [follow_entries hr]
    exact List.mem_map_of_mem (f := fun e : Entry => e.file.node) he
  | .text, _, _ => ends_map _ (ends_orFault _)
  | .scalar _, _, _ => ends_ok _
  | .optScalar _, none, _ => ends_ok _
  | .optScalar _, some _, _ => ends_ok _

/-- Unfolding ends if it may go as deep as the paths do. -/
theorem ends_unfoldWithin : ∀ {d : Nat} {n : Node}, s.shallow d n = true →
    Ends (s.unfoldWithin d n)
  | 0, _, h => by cases h
  | d + 1, n, h => by
    refine ends_bind (ends_orFault _) fun c hc => ?_
    have hlinks : s.linksOf n = c.links := linksOf_eq (orFault_eq_ok.mp hc)
    refine ends_bind (ends_mapM fun p hp => ?_) fun fields _ => ends_ok _
    refine ends_unfoldValue fun l hl m hm => ends_unfoldWithin (shallow_succ.mp h m ?_)
    rw [references, hlinks]
    have hlink : p.1.type.link? p.2 = some l := by simpa [Part.links] using hl
    exact List.mem_flatMap.mpr ⟨l, List.mem_filterMap.mpr ⟨p, hp, hlink⟩, hm⟩

variable {σ β : Type}

theorem ends_walkLinks {child : Node → σ → Except Fault (Option β × σ)} {n : Node}
    (hchild : ∀ m ∈ s.references n, ∀ st, Ends (child m st)) (st : σ) :
    Ends (s.walkLinks child n st) := by
  refine ends_bind (ends_orFault _) fun c hc => ?_
  have hlinks : s.linksOf n = c.links := linksOf_eq (orFault_eq_ok.mp hc)
  refine ends_untilStop (fun l hl st => ?_) st
  refine ends_bind (ends_orFault _) fun ms hms => ?_
  refine ends_untilStop (fun m hm st => hchild m ?_ st) st
  rw [references, hlinks]
  refine List.mem_flatMap.mpr ⟨l, (List.filter_sublist.filterMap _).subset hl, ?_⟩
  rwa [follow_eq (orFault_eq_ok.mp hms)]

/-- A walk ends, whatever its visitor, if it may go as deep as the paths do. -/
theorem ends_walkWithin (visit : Visitor σ β) : ∀ {d : Nat} {n : Node}, s.shallow d n = true →
    ∀ st, Ends (s.walkWithin visit d n st)
  | 0, _, h, _ => by cases h
  | d + 1, n, h, st => by
    refine ends_bind (ends_orFault _) fun r _ => ?_
    obtain ⟨_ | _ | b, st'⟩ := r
    · exact ends_walkLinks (fun m hm => ends_walkWithin visit (shallow_succ.mp h m hm)) st'
    · exact ends_ok _
    · exact ends_ok _

/-- Where nodes refer to what was there before them, every dump ends. -/
theorem Grounded.ends_dump (hs : s.Grounded) (root : Node) : Ends (s.dump root) :=
  ends_map _ (ends_unfoldWithin (hs.shallow_depth root))

theorem Grounded.ends_walk (hs : s.Grounded) (visit : Visitor σ β) (root : Node) (st : σ) :
    Ends (s.walk visit root st) :=
  ends_walkWithin visit (hs.shallow_depth root) st

theorem Grounded.ends_walkChildren (hs : s.Grounded) (visit : Visitor σ β) (root : Node)
    (st : σ) : Ends (s.walkChildren visit root st) :=
  ends_walkLinks (fun m _ => ends_walkWithin visit (hs.shallow_depth m)) st

end

end GoTree.Store
