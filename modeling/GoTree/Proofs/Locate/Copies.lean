import Mathlib.Data.List.Find
import Mathlib.Data.List.TakeWhile
import GoTree.Proofs.Copy.Content
import GoTree.Proofs.Copy.Isolation
import GoTree.Proofs.Locate.SourceOrder
import GoTree.Proofs.Walk.Printed
/-!
# Copies carry no position

A copier adds nodes without a position, so every node of a deep copy stands at the
first offset, whatever the spans in its source. The first offset of every text has
the position `1:1`. A search in a copy therefore never gives up early: at `1:1` it
tests the nodes of the copy in the order of a walk, and elsewhere it tests none.

* `unplaced_within`: no node of a deep copy has a position.
* `Unplaced.find_eq`: what a search finds among such nodes.
* `run_find_copies`: the same for the answers to any sequence of requests.
-/
namespace GoTree

namespace Store

/-- A walk from the node ends and resolves, and nothing that it meets has a
position. -/
def Unplaced (s : Store) (m : Node) : Prop :=
  ∃ os, s.Visits [] [m] os ∧ ∀ o ∈ os, s.spanAt o.node = .ok Span.none

theorem Grows.spanAt {s t : Store} (g : s.Grows t) {n : Node} {span : Span}
    (h : s.spanAt n = .ok span) : t.spanAt n = .ok span :=
  spanAt_eq_ok.mpr (g.span? (spanAt_eq_ok.mp h))

theorem Unplaced.grows {s t : Store} (g : s.Grows t) {m : Node} (h : s.Unplaced m) :
    t.Unplaced m := by
  obtain ⟨os, hos, hspans⟩ := h
  exact ⟨os, hos.grows g, fun o ho => g.spanAt (hspans o ho)⟩

/-- A node that was added without a position has none. -/
theorem Unpositioned.spanAt {s t : Store} (hu : s.Unpositioned t) {n : Node}
    (hn : n ∈ s.added t) : t.spanAt n = .ok Span.none := by
  obtain ⟨hle, hlt⟩ := mem_added.mp hn
  obtain ⟨m, hm⟩ := hu n.kind
  rw [← length_spans] at hle hlt
  rw [hm, List.length_append, List.length_replicate] at hlt
  have hread : t.span? n = (t.spans n.kind)[n.raw]? := (Array.getElem?_toList ..).symm
  refine spanAt_eq_ok.mpr ?_
  rw [hread, hm, List.getElem?_append_right hle, List.getElem?_replicate_of_lt (by omega)]

/-! ## Searches -/

/-- A search among nodes without a position tests them all at the position of the
first offset, and none elsewhere. -/
theorem Unplaced.find_eq {s : Store} {m : Node} (h : s.Unplaced m)
    {resolve : UInt32 → Position} (h0 : resolve 0 = ⟨1, 1⟩) :
    ∃ P, s.inspect (fun n seen => .ok (true, seen ++ [n])) m [] = .ok P ∧
      ∀ wanted p, s.find resolve m wanted p =
        .ok (if wanted = ⟨1, 1⟩ then P.find? p else none) := by
  obtain ⟨os, hos, hspans⟩ := h
  have hP := hos.preorder_eq (hos.walkable m List.mem_cons_self)
  have hspan : ∀ n ∈ os.map (·.node), s.spanOf n = Span.none := by
    intro n hn
    obtain ⟨o, ho, rfl⟩ := List.mem_map.mp hn
    simp [spanOf, hspans o ho]
  generalize os.map (·.node) = P at hP hspan
  refine ⟨P, inspect_record hP, fun wanted p => ?_⟩
  rw [Store.find_eq hP]
  have hcovers : ∀ n ∈ P, s.covers resolve wanted n = decide (wanted = ⟨1, 1⟩) := by
    intro n hn
    simp only [covers, hspan n hn, Span.none, h0, le_antisymm_iff, and_comm]
  by_cases hwanted : wanted = ⟨1, 1⟩
  · have hall : ∀ n ∈ P, s.startsBy resolve wanted n = true :=
      fun n hn => startsBy_of_covers ((hcovers n hn).trans (decide_eq_true hwanted))
    rw [if_pos hwanted, List.takeWhile_eq_self_iff.mpr hall]
    refine congrArg _ (List.find?_congr fun n hn => ?_)
    rw [hcovers n hn, decide_eq_true hwanted, Bool.true_and]
  · rw [if_neg hwanted, List.find?_eq_none.mpr]
    intro n hn
    have hmem : n ∈ P := (List.takeWhile_prefix _).subset hn
    simp [hcovers n hmem, hwanted]

end Store

/-! ## Copies -/

namespace Copier

/-- No node of a deep copy has a position. -/
theorem unplaced_within {d : Nat} {c c' : Copier} {k : Kind} {h h' : Handle k}
    (hw : Copy.within d k h c = .ok h' c') (hp : ¬ (c'.isInPlace = true ∧ k = .package)) :
    c'.dest.Unplaced h'.node := by
  have hsteps : c.Steps c' := (Copy.stepwise_within d k h).steps hw
  rw [hsteps.isInPlace_eq] at hp
  have hdeep : Copies c (.node k) h h' c' := copies_within hw fun hin hk => hp ⟨hin, hk⟩
  obtain ⟨t, -, ht⟩ := hdeep.alike.exists_unfolds
  obtain ⟨mss, hmss, hvisits⟩ := ht.shows
  cases hmss
  obtain ⟨os, hos, -⟩ := hvisits []
  refine ⟨os, hos, fun o ho => hsteps.unpositioned.spanAt ?_⟩
  -- what the walk meets is reached from the copy, and so it was added by it
  obtain ⟨m, hm, hreach⟩ := hos.mem_iff.mp ⟨o, ho, rfl⟩
  rw [List.mem_singleton.mp hm] at hreach
  exact (hdeep.fresh.isolated.reachable o.node).mp hreach.reaches

/-- **Copies carry no position.** Over any sequence of requests to any copier, every
deep copy that was made can be walked in the final destination. With the index of any
text, a search in it at `1:1` finds the first node of the walk with the property, and
a search elsewhere finds nothing. -/
theorem run_find_copies {text : String} (hlen : text.utf8ByteSize < UInt32.size) (c : Copier)
    (rs : List CopyRequest) :
    let d := (c.run rs).2
    List.Forall₂ (fun r answer => ∀ a, answer = .ok a →
      d.Gives (fun n m => ¬ (c.isInPlace = true ∧ n.kind = .package) →
        ∃ P, d.dest.inspect (fun n seen => .ok (true, seen ++ [n])) m [] = .ok P ∧
          ∀ wanted p, d.dest.find (LineIndex.ofText text).resolve m wanted p =
            .ok (if wanted = ⟨1, 1⟩ then P.find? p else none)) r a) rs (c.run rs).1 := by
  intro d
  have h0 : (LineIndex.ofText text).resolve 0 = ⟨1, 1⟩ :=
    (LineIndex.valid_ofText hlen).1.resolve_zero
  have hin : d.isInPlace = c.isInPlace := (c.steps_run rs).isInPlace_eq
  have hcopies := gives_run
    (R := fun c n m => ¬ (c.isInPlace = true ∧ n.kind = .package) → c.dest.Unplaced m)
    unplaced_within
    (fun hsteps hR hp => (hR (hsteps.isInPlace_eq ▸ hp)).grows hsteps.grows) c rs
  refine hcopies.imp fun r answer hanswer a ha => (hanswer a ha).later .refl fun n m hR hp => ?_
  exact (hR (by rwa [← hin] at hp)).find_eq h0

/-- In `x`, which stands at the start of the second line, a copy of it is found at the
first position only. -/
theorem find_copiedIdent :
    let src := Store.empty.addIdent "x" ⟨1, 2⟩
    let resolve := (LineIndex.ofText "\nx").resolve
    let out := (Copier.inPlace src.2).run [.node (some src.1.node)]
    out.1 = [.ok (.node (some ⟨.expr, 1⟩))] ∧
      out.2.dest.find resolve ⟨.expr, 0⟩ ⟨2, 1⟩ (fun _ => true) = .ok (some ⟨.expr, 0⟩) ∧
      out.2.dest.find resolve ⟨.expr, 1⟩ ⟨2, 1⟩ (fun _ => true) = .ok none ∧
      out.2.dest.find resolve ⟨.expr, 1⟩ ⟨1, 1⟩ (fun _ => true) = .ok (some ⟨.expr, 1⟩) := by
  intro src resolve out
  have hlen : "\nx".utf8ByteSize < UInt32.size := by decide
  have hout : out.1 = [.ok (.node (some ⟨.expr, 1⟩))] := by decide +kernel
  have hcopies := run_find_copies hlen (Copier.inPlace src.2) [.node (some src.1.node)]
  change List.Forall₂ _ _ out.1 at hcopies
  rw [hout] at hcopies
  cases hcopies with
  | cons hcopy _ =>
    cases hcopy _ rfl with
    | some hfind =>
      obtain ⟨P, hP, hfind⟩ := hfind (by decide +kernel)
      have hwalk : out.2.dest.inspect (fun n seen => .ok (true, seen ++ [n])) ⟨.expr, 1⟩ [] =
          .ok [⟨.expr, 1⟩] := by decide +kernel
      cases hwalk.symm.trans hP
      exact ⟨hout, by decide +kernel, hfind ⟨2, 1⟩ _, hfind ⟨1, 1⟩ _⟩

end Copier
end GoTree
