import Mathlib.Logic.Relation
import GoTree.Proofs.Copy.Composition
import GoTree.Proofs.Tree.Unfolding
/-!
# What a copier does to its destination

Whatever a copier is asked for and however it ends, it takes a sequence of
small steps: it adds a node without a position, a list or package entries to the
destination, interns a text there, or reports an event. `Copier.Step` lists
them, and `Stepwise` says of a computation that it does nothing else, whether it
gives a result or fails.

* `stepwise_perform`: every request is answered by such steps.
* `run_appendedTo`: over any sequence of requests the destination is only
  appended to, without positions, and no dump changes.
-/
namespace GoTree

/-! ## Steps -/

namespace Copier

/-- One thing that a copier does. -/
inductive Step (c : Copier) : Copier → Prop where
  | add {k : Kind} (content : Content k) :
      Step c { c with dest := (c.dest.alloc content Span.none).2, copied := c.copied + 1 }
  | addList (k : Kind) (items : List (Handle k)) :
      Step c { c with dest := (c.dest.allocList k items).2 }
  | addEntries (items : List Entry) : Step c { c with dest := (c.dest.allocEntries items).2 }
  | intern (text : String) (across : c.isInPlace = false) :
      Step c { c with dest := (c.dest.intern text).2 }
  | report (e : CopyEvent) : Step c { c with log := c.log.push e }

/-- Any number of steps. -/
abbrev Steps : Copier → Copier → Prop := Relation.ReflTransGen Step

theorem Steps.trans {c c₁ c' : Copier} (h : c.Steps c₁) (h' : c₁.Steps c') : c.Steps c' :=
  Relation.ReflTransGen.trans h h'

theorem chains_steps : Copy.Chains Steps where
  refl _ := .refl
  trans := .trans
  addList _ k items := .single (.addList k items)
  addEntries _ items := .single (.addEntries items)
  intern hin _ := .single (.intern _ hin)
  reportNode _ _ := .single (.report _)

end Copier

namespace Copy

open Copier (chains_steps)

variable {α β : Type}

/-- A computation that takes steps of a copier and does nothing else. -/
def Stepwise (x : CopyM α) : Prop := ∀ c : Copier, c.Steps (after x c)

theorem stepwise_pure (a : α) : Stepwise (pure a) := leads_pure chains_steps a

theorem stepwise_bind {x : CopyM α} {f : α → CopyM β} (hx : Stepwise x)
    (hf : ∀ a, Stepwise (f a)) : Stepwise (x >>= f) :=
  leads_bind chains_steps hx hf

theorem stepwise_mapM {f : α → CopyM β} (hf : ∀ a, Stepwise (f a)) (as : List α) :
    Stepwise (as.mapM f) :=
  leads_mapM chains_steps hf as

theorem stepwise_values {f : (t : FieldType) → t.Value → CopyM t.Value}
    (hf : ∀ t v, Stepwise (f t v)) {fs : List Field} (vs : Values fs) : Stepwise (vs.mapM f) :=
  leads_values chains_steps hf vs

/-! ## Every part of a copy goes by steps -/

theorem stepwise_add {k : Kind} (content : Content k) : Stepwise (add content) :=
  fun _ => .single (.add content)

theorem stepwise_addList (k : Kind) (items : List (Handle k)) : Stepwise (addList k items) :=
  fun _ => .single (.addList k items)

theorem stepwise_addEntries (items : List Entry) : Stepwise (addEntries items) :=
  fun _ => .single (.addEntries items)

theorem stepwise_report (e : CopyEvent) : Stepwise (report e) := fun _ => .single (.report e)

theorem stepwise_symbol (y : Symbol) : Stepwise (symbol y) := leads_symbol chains_steps y

section
variable {copy : NodeCopy} (hcopy : ∀ k h, Stepwise (copy k h))
include hcopy

theorem stepwise_slot (sl : Slot) (h : Handle sl.kind) : Stepwise (slot copy sl h) :=
  leads_slot chains_steps hcopy sl h

theorem stepwise_entry (e : Entry) : Stepwise (entry copy e) := leads_entry chains_steps hcopy e

theorem stepwise_value (t : FieldType) (v : t.Value) : Stepwise (value copy t v) :=
  leads_value chains_steps hcopy t v

end

theorem stepwise_reportCopy (before : Nat) :
    ∀ {k : Kind} (h copy : Handle k) (c : Content k), Stepwise (reportCopy before h copy c)
  | .file, _, _, _ => stepwise_bind (leads_get chains_steps) fun _ => stepwise_report _
  | .package, _, _, _ => stepwise_bind (leads_get chains_steps) fun _ => stepwise_report _
  | .expr, _, _, _ | .stmt, _, _, _ | .decl, _, _, _ | .spec, _, _, _ | .field, _, _, _
  | .fieldList, _, _, _ | .comment, _, _, _ | .commentGroup, _, _, _ => stepwise_pure ()

theorem stepwise_within : ∀ (depth : Nat) (k : Kind) (h : Handle k), Stepwise (within depth k h)
  | 0, _, _ => leads_throw chains_steps _
  | depth + 1, _, h => by
    refine stepwise_bind (leads_get chains_steps) fun _ => ?_
    refine stepwise_bind (leads_read chains_steps _) fun c => ?_
    refine stepwise_bind (stepwise_values (stepwise_value (stepwise_within depth)) c.values)
      fun values => ?_
    refine stepwise_bind (stepwise_add _) fun copy => ?_
    exact stepwise_bind (stepwise_reportCopy _ h copy _) fun _ => stepwise_pure copy

theorem stepwise_node (n : Node) : Stepwise (node n) := leads_node chains_steps stepwise_within n

theorem stepwise_slotOpt (sl : Slot) (h? : Option (Handle sl.kind)) : Stepwise (slotOpt sl h?) :=
  leads_slotOpt chains_steps stepwise_within sl h?

theorem stepwise_listOpt (sl : Slot) (r? : Option ListRef) : Stepwise (listOpt sl r?) :=
  leads_listOpt chains_steps stepwise_within sl r?

/-- Every request is answered by steps of the copier. -/
theorem stepwise_perform (r : CopyRequest) : Stepwise (perform r) :=
  leads_perform chains_steps stepwise_within r

end Copy

/-! ## What steps do to the destination -/

namespace Store

/-- The contents of the nodes of a kind. -/
def contents (s : Store) (k : Kind) : List (Content k) := (s.nodes.get k).contents.toList

/-- The spans of the nodes of a kind. -/
def spans (s : Store) (k : Kind) : List Span := (s.nodes.get k).spans.toList

theorem length_spans (s : Store) (k : Kind) : (s.spans k).length = (s.nodes.get k).size := by
  simp [spans, Pool.size_spans, Pool.size]

/-- The spans in each pool of `t` are those of `s` and then none. -/
def Unpositioned (s t : Store) : Prop :=
  ∀ k, ∃ m, t.spans k = s.spans k ++ List.replicate m Span.none

theorem Unpositioned.trans {s t u : Store} (h : s.Unpositioned t) (h' : t.Unpositioned u) :
    s.Unpositioned u := by
  intro k
  obtain ⟨m, hm⟩ := h k
  obtain ⟨l, hl⟩ := h' k
  exact ⟨m + l, by rw [hl, hm, List.append_assoc, List.replicate_append_replicate]⟩

theorem unpositioned_of_nodes_eq {s t : Store} (h : t.nodes = s.nodes) : s.Unpositioned t :=
  fun _ => ⟨0, by simp [spans, h]⟩

theorem unpositioned_alloc (s : Store) {k : Kind} (c : Content k) :
    s.Unpositioned (s.alloc c Span.none).2 :=
  ByKind.rel_modify (f := (·.push c Span.none))
    (R := fun _ (p q : Pool _) => ∃ m, q.spans.toList = p.spans.toList ++ List.replicate m Span.none)
    (fun _ _ => ⟨0, by simp⟩) s.nodes ⟨1, by simp [Pool.push]⟩

/-- `t` is `s` with something appended: nothing that was there is changed or
removed, the new nodes have no position, and what could be printed is printed
as before. -/
structure AppendedTo (s t : Store) : Prop where
  contents : ∀ k, s.contents k <+: t.contents k
  spans : ∀ k, s.spans k <+: t.spans k
  lists : ∀ k, (s.lists.get k).toList <+: (t.lists.get k).toList
  entries : s.entries.toList <+: t.entries.toList
  strings : s.interner.strings.toList <+: t.interner.strings.toList
  newSpans : ∀ k, ∀ span ∈ (t.spans k).drop (s.spans k).length, span = Span.none
  balanced : ∀ k, (t.spans k).length = (t.contents k).length
  dumps : ∀ n text, s.dump n = .ok text → t.dump n = .ok text

theorem Grows.dump {s t : Store} (g : s.Grows t) {n : Node} {text : String}
    (h : s.dump n = .ok text) : t.dump n = .ok text := by
  obtain ⟨tree, ht, hp⟩ := (dump_eq_ok (h := n.handle)).mp h
  exact (dump_eq_ok (h := n.handle)).mpr ⟨tree, ht.grows g, hp⟩

theorem Grows.appendedTo {s t : Store} (g : s.Grows t) (hu : s.Unpositioned t) :
    s.AppendedTo t where
  contents := g.contents
  spans := g.spans
  lists := g.lists
  entries := g.entries
  strings := g.strings
  newSpans k span hspan := by
    obtain ⟨m, hm⟩ := hu k
    rw [hm, List.drop_left] at hspan
    exact List.eq_of_mem_replicate hspan
  balanced k := by simp [length_spans, Store.contents, Pool.size]
  dumps _ _ := g.dump

end Store

namespace Copier

theorem Step.grows {c c' : Copier} (h : c.Step c') : c.dest.Grows c'.dest := by
  cases h with
  | add content => exact c.dest.grows_alloc content _
  | addList k items => exact c.dest.grows_allocList k items
  | addEntries items => exact c.dest.grows_allocEntries items
  | intern text _ => exact c.dest.grows_intern text
  | report e => exact .refl _

theorem Step.unpositioned {c c' : Copier} (h : c.Step c') : c.dest.Unpositioned c'.dest := by
  cases h with
  | add content => exact c.dest.unpositioned_alloc content
  | addList | addEntries | intern | report => exact Store.unpositioned_of_nodes_eq rfl

theorem Step.source?_eq {c c' : Copier} (h : c.Step c') : c'.source? = c.source? := by
  cases h <;> rfl

theorem Steps.grows {c c' : Copier} (h : c.Steps c') : c.dest.Grows c'.dest := by
  induction h with
  | refl => exact .refl _
  | tail _ h ih => exact ih.trans h.grows

theorem Steps.unpositioned {c c' : Copier} (h : c.Steps c') : c.dest.Unpositioned c'.dest := by
  induction h with
  | refl => exact Store.unpositioned_of_nodes_eq rfl
  | tail _ h ih => exact ih.trans h.unpositioned

theorem Steps.source?_eq {c c' : Copier} (h : c.Steps c') : c'.source? = c.source? := by
  induction h with
  | refl => rfl
  | tail _ h ih => exact h.source?_eq.trans ih

/-- The store that is read grows too: it is the destination or it does not
change. -/
theorem Steps.source_grows {c c' : Copier} (h : c.Steps c') : c.source.Grows c'.source := by
  unfold source
  rw [h.source?_eq]
  cases c.source? with
  | none => exact h.grows
  | some s => exact .refl s

/-! ## Sequences of requests -/

/-- Answers requests one after another, those after a failed one included. -/
def run (c : Copier) : List CopyRequest → List (Except CopyError CopyResult) × Copier
  | [] => ([], c)
  | r :: rs =>
    let a := c.perform r
    let b := a.2.run rs
    (a.1 :: b.1, b.2)

theorem steps_perform (c : Copier) (r : CopyRequest) : c.Steps (c.perform r).2 := by
  have h := Copy.stepwise_perform r c
  unfold Copy.after at h
  unfold perform
  cases hr : Copy.perform r c <;> simpa [hr] using h

theorem steps_run : ∀ (c : Copier) (rs : List CopyRequest), c.Steps (c.run rs).2
  | _, [] => .refl
  | c, r :: rs => (c.steps_perform r).trans (steps_run _ rs)

/-- **Append-only.** Over any sequence of requests, failed ones included, the
destination is only appended to. -/
theorem run_appendedTo (c : Copier) (rs : List CopyRequest) :
    c.dest.AppendedTo (c.run rs).2.dest :=
  (c.steps_run rs).grows.appendedTo (c.steps_run rs).unpositioned

/-- In place `x` is copied, and then a sum whose right operand is missing. The copy of its
left operand stays behind without a position. -/
theorem appendedTo_orphan :
    let x := Store.empty.addIdent "x" ⟨1, 2⟩
    let sum := x.2.alloc (.of .binaryExpr (.cons x.1 (.cons BinaryOp.add (.cons ⟨9⟩ .nil)))) ⟨1, 6⟩
    let out := (inPlace sum.2).run [.node (some x.1.node), .node (some sum.1.node)]
    out.1 = [.ok (.node (some ⟨.expr, 2⟩)), .error (.fault (.dangling (.node .expr 9)))] ∧
      sum.2.AppendedTo out.2.dest ∧
      out.2.dest.spans .expr = [⟨1, 2⟩, ⟨1, 6⟩, Span.none, Span.none] ∧
      out.2.dest.dump x.1.node = .ok "(Ident \"x\")" := by
  intro x sum out
  have hanswers : out.1 =
      [.ok (.node (some ⟨.expr, 2⟩)), .error (.fault (.dangling (.node .expr 9)))] := by
    decide +kernel
  have happended : sum.2.AppendedTo out.2.dest := run_appendedTo (inPlace sum.2) _
  have hspans : out.2.dest.spans .expr = [⟨1, 2⟩, ⟨1, 6⟩, Span.none, Span.none] := by
    decide +kernel
  have hdump : sum.2.dump x.1.node = .ok "(Ident \"x\")" := by decide +kernel
  exact ⟨hanswers, happended, hspans, happended.dumps _ _ hdump⟩

end Copier
end GoTree
