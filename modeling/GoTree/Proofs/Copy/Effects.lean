import GoTree.Proofs.Copy.Isolation
import GoTree.Proofs.Copy.Lockstep
import GoTree.Proofs.Interner.LinearSearch
/-!
# What a copy adds and interns

A deep copy goes through the tree that its root unfolds to. It adds one node for each
construct of the tree, and interns the texts of the tree from left to right: a node that
several others refer to is in the tree once for each of them. In place the texts are
there already, and interning them changes nothing.

* `Tree.nodeCount`, `Tree.texts`: the constructs and the texts of a tree.
* `Copies.effect`: what a deep copy does to the count and to the texts of its copier.
* `perform_node_effect`: the same for a request for one node, in either mode.
* `perform_across_effect`: the same for every request across stores.
-/
namespace GoTree

/-! ## Constructs and texts of a tree -/

namespace Tree

mutual

/-- The number of constructs in a tree. -/
def nodeCount : Tree → Nat
  | .node _ fields => nodeCountAll fields + 1
  | .list items => nodeCountAll items
  | .entry _ file => nodeCount file
  | .absent | .text _ | .word _ => 0

/-- The number of constructs in several trees. -/
def nodeCountAll : List Tree → Nat
  | [] => 0
  | t :: ts => nodeCount t + nodeCountAll ts

end

mutual

/-- The texts of a tree, from left to right. -/
def texts : Tree → List String
  | .node _ fields => textsAll fields
  | .list items => textsAll items
  | .text s => [s]
  | .entry name file => name :: texts file
  | .absent | .word _ => []

/-- The texts of several trees. -/
def textsAll : List Tree → List String
  | [] => []
  | t :: ts => texts t ++ textsAll ts

end

end Tree

namespace Part

def nodeCount : (p : Part) → p.Shape → Nat
  | .node _, t | .value _, t => Tree.nodeCount t
  | .values _, ts | .items _, ts | .entries, ts => Tree.nodeCountAll ts

def texts : (p : Part) → p.Shape → List String
  | .node _, t | .value _, t => Tree.texts t
  | .values _, ts | .items _, ts | .entries, ts => Tree.textsAll ts

end Part

/-! ## The effect of a copy -/

namespace Copier

/-- From `c` to `c'` that many nodes were added, and these texts interned in order. -/
structure Effect (c c' : Copier) (nodes : Nat) (texts : List String) : Prop where
  copied : c'.copied = c.copied + nodes
  interner : c'.dest.interner = (internAll Interner.intern c.dest.interner texts).2

theorem Effect.refl (c : Copier) : c.Effect c 0 [] := ⟨rfl, rfl⟩

theorem Effect.append {c c₁ c' : Copier} {n m : Nat} {ss us : List String}
    (h : c.Effect c₁ n ss) (h' : c₁.Effect c' m us) : c.Effect c' (n + m) (ss ++ us) where
  copied := by rw [h'.copied, h.copied, Nat.add_assoc]
  interner := by rw [h'.interner, h.interner, internAll_append]

/-- What was reported so far plays no part. -/
theorem Effect.of_log {c c' : Copier} {log : Array CopyEvent} {n : Nat} {ss : List String}
    (h : Effect { c with log := log } c' n ss) : c.Effect c' n ss :=
  ⟨h.copied, h.interner⟩

end Copier

open Copier (Effect)

namespace Copy

theorem effect_symbol {y y' : Symbol} {c c' : Copier} (hy : symbol y c = .ok y' c') :
    ∃ text, c.source.textAt y = .ok text ∧ c.Effect c' 0 [text] := by
  obtain ⟨text, htext, -⟩ := symbol_textAt hy
  rw [symbol_eq htext] at hy
  cases hy
  exact ⟨text, htext, rfl, rfl⟩

theorem effect_add {k : Kind} {content : Content k} {before : Nat} {h h' : Handle k}
    {c c₁ c' : Copier} (ha : add content c = .ok h' c₁)
    (hr : reportCopy before h h' content c₁ = .ok () c') : c.Effect c' 1 [] := by
  obtain ⟨log, hlog⟩ := reportCopy_eq before h h' content c₁
  rw [hlog] at hr
  cases ha
  cases hr
  exact ⟨rfl, rfl⟩

theorem effect_addList {k : Kind} {items : List (Handle k)} {r : ListRef} {c c' : Copier}
    (ha : addList k items c = .ok r c') : c.Effect c' 0 [] := by
  cases ha
  exact ⟨rfl, rfl⟩

theorem effect_addEntries {items : List Entry} {r : ListRef} {c c' : Copier}
    (ha : addEntries items c = .ok r c') : c.Effect c' 0 [] := by
  cases ha
  exact ⟨rfl, rfl⟩

end Copy

/-- **Effects.** A deep copy adds one node for each construct of the tree that it reads,
and interns the texts of that tree from left to right. -/
theorem Copies.effect {c c' : Copier} {p : Part} {v w : p.Value} (h : Copies c p v w c') :
    ∃ t, c'.source.Unfolds p v t ∧ c.Effect c' (p.nodeCount t) (p.texts t) := by
  induction h with
  | @node c c₁ c₂ c' _ _ _ _ _ _ _ hc hv ha hr ih =>
    obtain ⟨ts, hts, heffect⟩ := ih
    have hlater : c₁.Steps c' := ((Copy.stepwise_add _).steps ha).trans
      ((Copy.stepwise_reportCopy _ _ _ _).steps hr)
    have hc' := (hv.steps.trans hlater).source_grows.contentAt hc
    have hnode := heffect.append (Copy.effect_add ha hr)
    rw [List.append_nil] at hnode
    exact ⟨_, .node hc' (hts.grows hlater.source_grows), hnode⟩
  | slot _ _ _ ih =>
    obtain ⟨t, ht, heffect⟩ := ih
    exact ⟨t, .slot ht, heffect⟩
  | optNone => exact ⟨_, .optNone, .refl _⟩
  | optSome _ ih =>
    obtain ⟨t, ht, heffect⟩ := ih
    cases ht with
    | slot ht => exact ⟨t, .optSome ht, heffect⟩
  | listNone => exact ⟨_, .listNone, .refl _⟩
  | listSome hr hi ha ih =>
    obtain ⟨ts, hts, heffect⟩ := ih
    have hadd := (Copy.stepwise_addList _ _).steps ha
    have hr' := (hi.steps.trans hadd).source_grows.listAt hr
    have hlist := heffect.append (Copy.effect_addList ha)
    rw [List.append_nil] at hlist
    exact ⟨_, .listSome hr' (hts.grows hadd.source_grows), hlist⟩
  | package hr he ha ih =>
    obtain ⟨ts, hts, heffect⟩ := ih
    have hadd := (Copy.stepwise_addEntries _).steps ha
    have hr' := (he.steps.trans hadd).source_grows.entriesAt hr
    have hentries := heffect.append (Copy.effect_addEntries ha)
    rw [List.append_nil] at hentries
    exact ⟨_, .package hr' (hts.grows hadd.source_grows), hentries⟩
  | text hy =>
    obtain ⟨text, htext, heffect⟩ := Copy.effect_symbol hy
    exact ⟨_, .text (((Copy.stepwise_symbol _).steps hy).source_grows.textAt htext), heffect⟩
  | scalar v => exact ⟨_, .scalar v, .refl _⟩
  | optScalar v =>
    cases v with
    | none => exact ⟨_, .optScalarNone, .refl _⟩
    | some v => exact ⟨_, .optScalarSome v, .refl _⟩
  | valuesNil => exact ⟨_, .valuesNil, .refl _⟩
  | valuesCons _ hvs ih ihs =>
    obtain ⟨t, ht, heffect⟩ := ih
    obtain ⟨ts, hts, heffects⟩ := ihs
    exact ⟨_, .valuesCons (ht.grows hvs.steps.source_grows) hts, heffect.append heffects⟩
  | itemsNil => exact ⟨_, .itemsNil, .refl _⟩
  | itemsCons _ hi ih ihs =>
    obtain ⟨t, ht, heffect⟩ := ih
    obtain ⟨ts, hts, heffects⟩ := ihs
    cases ht with
    | slot ht =>
      exact ⟨_, .itemsCons (ht.grows hi.steps.source_grows) hts, heffect.append heffects⟩
  | entriesNil => exact ⟨_, .entriesNil, .refl _⟩
  | entriesCons hn hf he ih ihs =>
    obtain ⟨t, ht, heffect⟩ := ih
    obtain ⟨ts, hts, heffects⟩ := ihs
    obtain ⟨name, hname, hnamed⟩ := Copy.effect_symbol hn
    have hnow := ((Copy.stepwise_symbol _).steps hn).trans (hf.steps.trans he.steps)
    have hall := (hnamed.append heffect).append heffects
    rw [Nat.zero_add] at hall
    exact ⟨_, .entriesCons (hnow.source_grows.textAt hname)
      (ht.grows he.steps.source_grows) hts, hall⟩

/-! ## Requests for one node -/

namespace Copier

theorem within_effect {d : Nat} {c c' : Copier} {k : Kind} {h h' : Handle k}
    (hw : Copy.within d k h c = .ok h' c') (hp : ¬ (c.isInPlace = true ∧ k = .package)) :
    ∃ t, c'.source.unfold h.node = .ok t ∧ c.Effect c' t.nodeCount t.texts := by
  obtain ⟨t, ht, heffect⟩ := (copies_within hw fun hin hk => hp ⟨hin, hk⟩).effect
  exact ⟨t, Store.unfold_eq_ok.mpr ht, heffect⟩

/-- A request for one node, other than for a package in place, has the effect of its
tree in the source as it is left. -/
theorem perform_node_effect {c c' : Copier} {n : Node} {r : CopyRequest} {a : CopyResult}
    (hn : r.node? = some n) (h : Copy.perform r c = .ok a c')
    (hp : ¬ (c.isInPlace = true ∧ n.kind = .package)) :
    ∃ t, c'.source.unfold n = .ok t ∧ c.Effect c' t.nodeCount t.texts := by
  obtain ⟨d, log, h', hw, -⟩ := perform_node_ok hn h
  obtain ⟨t, ht, heffect⟩ := within_effect hw hp
  exact ⟨t, ht, heffect.of_log⟩

end Copier

/-! ## Requests across stores -/

namespace Store

/-- The nodes that a request asks for. -/
def roots (s : Store) : CopyRequest → Except Dangling (List Node)
  | .node n? => .ok n?.toList
  | .nodes ns? => .ok (ns?.getD [])
  | .slot _ h? => .ok (h?.map Handle.node).toList
  | .list _ none => .ok []
  | .list sl (some r) => (s.listAt sl.kind r).map (·.map Handle.node)

/-- The trees of the nodes that a request asks for. -/
def requested (s : Store) (r : CopyRequest) : Except Fault (List Tree) := do
  (← orFault (s.roots r)).mapM s.unfold

theorem requested_eq_ok {s : Store} {r : CopyRequest} {ts : List Tree} :
    s.requested r = .ok ts ↔ ∃ ns, s.roots r = .ok ns ∧ ns.mapM s.unfold = .ok ts := by
  simp only [requested, bind_eq_ok, orFault_eq_ok]

end Store

namespace Copier

section
variable {S : Store} {α β : Type} {f : α → CopyM β} (root : α → Node)

/-- The effects of copies one after another, of nodes of one store. -/
theorem mapM_effect (hf : ∀ {a : α} {b : β} {c c' : Copier}, c.source? = some S →
      f a c = .ok b c' → ∃ t, S.unfold (root a) = .ok t ∧ c.Effect c' t.nodeCount t.texts)
    (hstep : ∀ a, Copy.Stepwise (f a)) : ∀ {as : List α} {bs : List β} {c c' : Copier},
    c.source? = some S → as.mapM f c = .ok bs c' →
      ∃ ts, (as.map root).mapM S.unfold = .ok ts ∧
        c.Effect c' (Tree.nodeCountAll ts) (Tree.textsAll ts)
  | [], _, _, _, _, h => by
    obtain ⟨rfl, rfl⟩ := Copy.pure_ok.mp h
    exact ⟨[], rfl, .refl _⟩
  | a :: as, _, c, _, hc, h => by
    obtain ⟨b, c₁, bs, hb, hbs, rfl⟩ := Copy.mapM_cons_ok.mp h
    obtain ⟨t, ht, heffect⟩ := hf hc hb
    have hc₁ : c₁.source? = some S := ((hstep a).steps hb).source?_eq.trans hc
    obtain ⟨ts, hts, heffects⟩ := mapM_effect hf hstep hc₁ hbs
    exact ⟨t :: ts, mapM_cons_eq_ok.mpr ⟨t, ts, ht, hts, rfl⟩, heffect.append heffects⟩

end

section
variable {S : Store} {c c' : Copier} (hc : c.source? = some S)
include hc

theorem within_across_effect {d : Nat} {k : Kind} {h h' : Handle k}
    (hw : Copy.within d k h c = .ok h' c') :
    ∃ t, S.unfold h.node = .ok t ∧ c.Effect c' t.nodeCount t.texts := by
  have hS : c'.source = S := by
    rw [source, ((Copy.stepwise_within d k h).steps hw).source?_eq, hc]
    rfl
  rw [← hS]
  exact within_effect hw (by simp [isInPlace, hc])

theorem node_across_effect {n m : Node} (h : Copy.node n c = .ok m c') :
    ∃ t, S.unfold n = .ok t ∧ c.Effect c' t.nodeCount t.texts := by
  obtain ⟨d, h', hw, -⟩ := Copy.node_ok h
  obtain ⟨t, ht, heffect⟩ := within_across_effect (by exact hc) hw
  exact ⟨t, ht, heffect.of_log⟩

theorem slot_across_effect {d : Nat} {sl : Slot} {h h' : Handle sl.kind}
    (hs : Copy.slot (Copy.within d) sl h c = .ok h' c') :
    ∃ t, S.unfold h.node = .ok t ∧ c.Effect c' t.nodeCount t.texts := by
  obtain ⟨-, -, -, hw⟩ := Copy.slot_ok hs
  exact within_across_effect hc hw

theorem list_across_effect {d : Nat} {sl : Slot} {r r' : ListRef}
    (h : Copy.list (Copy.within d) sl r c = .ok r' c') :
    ∃ ts, S.requested (.list sl (some r)) = .ok ts ∧
      c.Effect c' (Tree.nodeCountAll ts) (Tree.textsAll ts) := by
  obtain ⟨hs, c₁, hread, h⟩ := Copy.bind_ok.mp h
  obtain ⟨hlist, rfl⟩ := Copy.read_ok.mp hread
  obtain ⟨hs', c₂, hmap, hadd⟩ := Copy.bind_ok.mp h
  have hS : c.source = S := by rw [source, hc]; rfl
  rw [hS] at hlist
  obtain ⟨ts, hts, heffect⟩ := mapM_effect Handle.node (fun hc => slot_across_effect hc)
    (Copy.stepwise_slot (Copy.stepwise_within d) sl) hc hmap
  have hall := heffect.append (Copy.effect_addList hadd)
  rw [List.append_nil] at hall
  exact ⟨ts, Store.requested_eq_ok.mpr ⟨_, map_eq_ok.mpr ⟨hs, hlist, rfl⟩, hts⟩, hall⟩

/-- Across stores every request has the effect of the trees that it asks for. -/
theorem perform_across_effect : ∀ {r : CopyRequest} {a : CopyResult},
    Copy.perform r c = .ok a c' →
      ∃ ts, S.requested r = .ok ts ∧ c.Effect c' (Tree.nodeCountAll ts) (Tree.textsAll ts)
  | .node none, _, h | .nodes none, _, h | .slot _ none, _, h | .list _ none, _, h => by
    cases h
    exact ⟨[], rfl, .refl _⟩
  | .node (some n), _, h => by
    obtain ⟨m, hm, rfl⟩ := Copy.map_ok.mp h
    obtain ⟨t, ht, heffect⟩ := node_across_effect hc hm
    refine ⟨[t], Store.requested_eq_ok.mpr ⟨[n], rfl, ?_⟩, heffect.append (.refl _)⟩
    exact mapM_cons_eq_ok.mpr ⟨t, [], ht, rfl, rfl⟩
  | .nodes (some ns), _, h => by
    obtain ⟨ms, hms, rfl⟩ := Copy.map_ok.mp h
    obtain ⟨ts, hts, heffect⟩ := mapM_effect id (fun hc => node_across_effect hc)
      Copy.stepwise_node hc hms
    rw [List.map_id] at hts
    exact ⟨ts, Store.requested_eq_ok.mpr ⟨ns, rfl, hts⟩, heffect⟩
  | .slot sl (some x), _, h => by
    obtain ⟨y, hy, rfl⟩ := Copy.map_ok.mp h
    obtain ⟨d, c₁, hdepth, hd⟩ := Copy.bind_ok.mp hy
    obtain ⟨x', hx, rfl⟩ := Copy.map_ok.mp hd
    cases hdepth
    obtain ⟨t, ht, heffect⟩ := slot_across_effect hc hx
    refine ⟨[t], Store.requested_eq_ok.mpr ⟨[x.node], rfl, ?_⟩, heffect.append (.refl _)⟩
    exact mapM_cons_eq_ok.mpr ⟨t, [], ht, rfl, rfl⟩
  | .list sl (some r), _, h => by
    obtain ⟨x, hx, rfl⟩ := Copy.map_ok.mp h
    obtain ⟨d, c₁, hdepth, hd⟩ := Copy.bind_ok.mp hx
    obtain ⟨r', hr, rfl⟩ := Copy.map_ok.mp hd
    cases hdepth
    exact list_across_effect hc hr

end

end Copier
end GoTree
