import GoTree.Copy.Request
/-!
# How a copy is composed

Whatever a copier is asked for, it copies nodes one after another, and in between it
interns texts, adds lists and package entries and reports the nodes that it was asked
for. A relation between a copier and a later one, such as one that keeps books on what
was added, need only be checked of these and of the copy of a node.

* `Chains`: a relation that goes through what happens in between.
* `leads_value`: it goes through the copy of a field if it goes through copies of nodes.
* `leads_perform`: it goes through every request, however that ends.
-/
namespace GoTree.Copy

variable {α β : Type}

/-- The copier after a computation, whether it gave a result or failed. -/
def after (x : CopyM α) (c : Copier) : Copier :=
  match x c with
  | .ok _ c' => c'
  | .error _ c' => c'

theorem after_ok {x : CopyM α} {a : α} {c c' : Copier} (h : x c = .ok a c') : after x c = c' := by
  rw [after, h]

theorem after_error {x : CopyM α} {e : CopyError} {c c' : Copier} (h : x c = .error e c') :
    after x c = c' := by
  rw [after, h]

/-- A computation that leads from each copier to one that is related to it, whether it
gives a result or fails. -/
def Leads (R : Copier → Copier → Prop) (x : CopyM α) : Prop := ∀ c : Copier, R c (after x c)

/-- A relation that goes from step to step, and through all that a copier does except
for copying a node. -/
structure Chains (R : Copier → Copier → Prop) : Prop where
  refl : ∀ c, R c c
  trans : ∀ {c c₁ c'}, R c c₁ → R c₁ c' → R c c'
  addList : ∀ (c : Copier) (k : Kind) (items : List (Handle k)),
    R c { c with dest := (c.dest.allocList k items).2 }
  addEntries : ∀ (c : Copier) (items : List Entry),
    R c { c with dest := (c.dest.allocEntries items).2 }
  intern : ∀ {c : Copier} {y : Symbol} {text : String}, c.isInPlace = false →
    c.source.textAt y = .ok text → R c { c with dest := (c.dest.intern text).2 }
  reportNode : ∀ (c : Copier) (n : Node), R c { c with log := c.log.push (.node n) }

/-! ## Computations in general -/

section
variable {R : Copier → Copier → Prop} (hR : Chains R)
include hR

theorem leads_pure (a : α) : Leads R (pure a) := hR.refl

theorem leads_throw (e : CopyError) : Leads R (throw e : CopyM α) := hR.refl

theorem leads_get : Leads R get := hR.refl

theorem leads_bind {x : CopyM α} {f : α → CopyM β} (hx : Leads R x)
    (hf : ∀ a, Leads R (f a)) : Leads R (x >>= f) := by
  intro c
  have hxc := hx c
  unfold after at hxc ⊢
  simp only [bind, EStateM.bind]
  cases h : x c with
  | ok a c' =>
    rw [h] at hxc
    exact hR.trans hxc (hf a c')
  | error e c' =>
    rw [h] at hxc
    exact hxc

theorem leads_map {x : CopyM α} (f : α → β) (hx : Leads R x) : Leads R (do return f (← x)) :=
  leads_bind hR hx fun a => leads_pure hR (f a)

theorem leads_mapM {f : α → CopyM β} (hf : ∀ a, Leads R (f a)) :
    ∀ as : List α, Leads R (as.mapM f)
  | [] => leads_pure hR []
  | a :: as => by
    rw [List.mapM_cons]
    refine leads_bind hR (hf a) fun b => ?_
    exact leads_map hR _ (leads_mapM hf as)

theorem leads_values {f : (t : FieldType) → t.Value → CopyM t.Value}
    (hf : ∀ t v, Leads R (f t v)) : ∀ {fs : List Field} (vs : Values fs), Leads R (vs.mapM f)
  | _, .nil => leads_pure hR Values.nil
  | _, .cons v vs => leads_bind hR (hf _ v) fun _ => leads_map hR _ (leads_values hf vs)

theorem leads_read (f : Store → Except Dangling α) : Leads R (read f) := by
  intro c
  unfold after read
  split <;> rename_i h <;> split at h <;> cases h <;> exact hR.refl _

theorem leads_symbol (y : Symbol) : Leads R (symbol y) := by
  intro c
  simp only [after, symbol, bind, EStateM.bind, read]
  cases htext : c.source.textAt y with
  | error d => exact hR.refl c
  | ok text =>
    cases hin : c.isInPlace with
    | true => simpa [hin] using hR.refl c
    | false => simpa [hin] using hR.intern hin htext

/-! ## Copies of fields -/

section
variable {copy : NodeCopy} (hcopy : ∀ k h, Leads R (copy k h))
include hcopy

theorem leads_slot (sl : Slot) (h : Handle sl.kind) : Leads R (slot copy sl h) := by
  refine leads_bind hR (leads_read hR _) fun c => ?_
  split
  · exact hcopy _ h
  · exact leads_throw hR _

theorem leads_list (sl : Slot) (r : ListRef) : Leads R (list copy sl r) := by
  refine leads_bind hR (leads_read hR _) fun items => ?_
  refine leads_bind hR (leads_mapM hR (leads_slot hR hcopy sl) items) fun copies => ?_
  exact fun c => hR.addList c sl.kind copies

theorem leads_entry (e : Entry) : Leads R (entry copy e) := by
  refine leads_bind hR (leads_get hR) fun c => ?_
  split
  · exact leads_bind hR (leads_read hR _) fun _ => leads_map hR _ (leads_symbol hR _)
  · exact leads_bind hR (leads_symbol hR _) fun _ => leads_map hR _ (hcopy _ _)

theorem leads_entries (r : ListRef) : Leads R (entries copy r) := by
  refine leads_bind hR (leads_read hR _) fun items => ?_
  refine leads_bind hR (leads_mapM hR (leads_entry hR hcopy) items) fun copies => ?_
  exact fun c => hR.addEntries c copies

theorem leads_value : ∀ (t : FieldType) (v : t.Value), Leads R (value copy t v)
  | .node sl, h => leads_slot hR hcopy sl h
  | .optNode _, none => leads_pure hR none
  | .optNode sl, some h => leads_map hR _ (leads_slot hR hcopy sl h)
  | .list _, none => leads_pure hR none
  | .list sl, some r => leads_map hR _ (leads_list hR hcopy sl r)
  | .entries, r => leads_entries hR hcopy r
  | .text, y => leads_symbol hR y
  | .scalar _, v => leads_pure hR v
  | .optScalar _, v => leads_pure hR v

end

/-! ## Requests -/

section
variable (hwithin : ∀ depth k h, Leads R (within depth k h))
include hwithin

theorem leads_node (n : Node) : Leads R (node n) := by
  refine leads_bind hR (fun c => hR.reportNode c n) fun _ => ?_
  refine leads_bind hR (leads_map hR _ (leads_get hR)) fun d => ?_
  exact leads_map hR _ (hwithin d _ _)

theorem leads_slotOpt (sl : Slot) : ∀ h?, Leads R (slotOpt sl h?)
  | none => leads_pure hR none
  | some h => leads_bind hR (leads_map hR _ (leads_get hR)) fun d =>
      leads_map hR _ (leads_slot hR (hwithin d) sl h)

theorem leads_listOpt (sl : Slot) : ∀ r?, Leads R (listOpt sl r?)
  | none => leads_pure hR none
  | some r => leads_bind hR (leads_map hR _ (leads_get hR)) fun d =>
      leads_map hR _ (leads_list hR (hwithin d) sl r)

/-- A relation that goes through copies of nodes goes through every request. -/
theorem leads_perform : ∀ r : CopyRequest, Leads R (perform r)
  | .node none => leads_pure hR _
  | .node (some n) => leads_map hR _ (leads_node hR hwithin n)
  | .nodes none => leads_pure hR _
  | .nodes (some ns) => leads_map hR _ (leads_mapM hR (leads_node hR hwithin) ns)
  | .slot sl h? => leads_map hR _ (leads_slotOpt hR hwithin sl h?)
  | .list sl r? => leads_map hR _ (leads_listOpt hR hwithin sl r?)

end

end

end GoTree.Copy
