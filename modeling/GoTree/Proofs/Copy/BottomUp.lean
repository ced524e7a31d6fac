import GoTree.Proofs.Store.BottomUp
/-!
# Copies into stores that were built bottom up

A copier adds a node after what it refers to, so a destination that was built bottom
up stays so, whatever the source is and however a request ends. `Copy.Builds P x Q`
says so of a computation, with what holds before it and of its result: the copy of a
node resolves, and so do the items of a copied list. The file of an entry that is copied
in place was there.

* `builds_within`: the copy of a node.
* `builds_perform`: a request leaves a destination that was built bottom up.
-/
namespace GoTree

/-! ## What a copier builds -/

namespace Copy

variable {α β : Type}

/-- From a state with `P`, the computation leaves a destination that was built bottom
up, however it ends, and a result with `Q`. -/
def Builds (P : Copier → Prop) (x : CopyM α) (Q : α → Copier → Prop) : Prop :=
  ∀ c, c.dest.BottomUp → P c →
    (after x c).dest.BottomUp ∧ ∀ a c', x c = .ok a c' → Q a c'

section
variable {P : Copier → Prop} {Q : α → Copier → Prop} {R : β → Copier → Prop}

theorem builds_pure {a : α} (h : ∀ c, P c → Q a c) : Builds P (pure a) Q := by
  intro c hc hP
  refine ⟨hc, fun b c' hb => ?_⟩
  obtain ⟨rfl, rfl⟩ := pure_ok.mp hb
  exact h c hP

theorem builds_throw (e : CopyError) : Builds P (throw e) Q := by
  intro c hc _
  exact ⟨hc, fun b c' hb => by cases hb⟩

theorem builds_get : Builds P get fun a c => P c ∧ a = c := by
  intro c hc hP
  refine ⟨hc, fun b c' hb => ?_⟩
  obtain ⟨rfl, rfl⟩ := get_ok.mp hb
  exact ⟨hP, rfl⟩

theorem builds_bind {x : CopyM α} {f : α → CopyM β} (hx : Builds P x Q)
    (hf : ∀ a, Builds (Q a) (f a) R) : Builds P (x >>= f) R := by
  intro c hc hP
  obtain ⟨hdest, hQ⟩ := hx c hc hP
  unfold after at hdest ⊢
  simp only [bind, EStateM.bind]
  cases h : x c with
  | ok a c' =>
    rw [h] at hdest
    exact hf a c' hdest (hQ a c' h)
  | error e c' =>
    rw [h] at hdest
    exact ⟨hdest, fun b c'' hb => by cases hb⟩

theorem builds_map {x : CopyM α} {f : α → β} (hx : Builds P x Q) (hf : ∀ a c, Q a c → R (f a) c) :
    Builds P (do return f (← x)) R :=
  builds_bind hx fun a => builds_pure (hf a)

theorem Builds.imp {P' : Copier → Prop} {Q' : α → Copier → Prop} {x : CopyM α} (hx : Builds P x Q)
    (hP : ∀ c, P' c → P c) (hQ : ∀ a c, Q a c → Q' a c) : Builds P' x Q' := by
  intro c hc hP'
  obtain ⟨hdest, hres⟩ := hx c hc (hP c hP')
  exact ⟨hdest, fun a c' h => hQ a c' (hres a c' h)⟩

theorem builds_read (f : Store → Except Dangling α) :
    Builds P (read f) fun a c => P c ∧ f c.source = .ok a := by
  intro c hc hP
  refine ⟨?_, fun a c' ha => ?_⟩
  · unfold after read
    cases f c.source <;> exact hc
  · obtain ⟨hf, rfl⟩ := read_ok.mp ha
    exact ⟨hP, hf⟩

/-- What holds of the destination and is kept while it grows still holds after a
computation. -/
theorem Builds.frame {x : CopyM α} (hx : Builds P x Q) (hsteps : Stepwise x) {F : Store → Prop}
    (hF : ∀ {s t : Store}, s.Grows t → F s → F t) :
    Builds (fun c => P c ∧ F c.dest) x fun a c => Q a c ∧ F c.dest := by
  intro c hc hPF
  obtain ⟨hdest, hQ⟩ := hx c hc hPF.1
  exact ⟨hdest, fun a c' h => ⟨hQ a c' h, hF (hsteps.steps h).grows hPF.2⟩⟩

theorem builds_report (e : CopyEvent) : Builds P (report e) fun _ _ => True :=
  fun _ hc _ => ⟨hc, fun _ _ _ => trivial⟩

theorem builds_reportCopy (before : Nat) {k : Kind} (h copy : Handle k) (content : Content k) :
    Builds P (reportCopy before h copy content) fun _ _ => True := by
  intro c hc _
  obtain ⟨log, hlog⟩ := reportCopy_eq before h copy content c
  unfold after
  rw [hlog]
  exact ⟨hc, fun _ _ _ => trivial⟩

theorem builds_symbol (y : Symbol) : Builds P (symbol y) fun _ _ => True := by
  refine builds_bind (builds_read _) fun text c hc _ => ⟨?_, fun _ _ _ => trivial⟩
  unfold after
  cases hin : c.isInPlace with
  | true => simpa [hin] using hc
  | false => simpa [hin] using hc.intern text

end

/-- A node is added after what it refers to. -/
theorem builds_add {k : Kind} (content : Content k) :
    Builds (fun c => ∀ l ∈ content.links, c.dest.Supports l) (add content)
      fun h c => c.dest.Present h.node := by
  intro c hc hlinks
  refine ⟨hc.alloc hlinks Span.none, fun h c' ha => ?_⟩
  obtain ⟨rfl, hdest⟩ := add_ok ha
  rw [hdest]
  exact c.dest.present_alloc content Span.none

theorem builds_addList (k : Kind) (items : List (Handle k)) :
    Builds (fun c => ∀ h ∈ items, c.dest.Present h.node) (addList k items)
      fun r c => c.dest.Supports (.list k r) := by
  intro c hc hitems
  refine ⟨hc.allocList k items, fun r c' ha => ?_⟩
  obtain ⟨rfl, hdest⟩ := addList_ok ha
  have hr := c.dest.listAt_allocList k items
  rw [hdest]
  refine ⟨items.map Handle.node, map_eq_ok.mpr ⟨items, hr, rfl⟩, fun n hn => ?_⟩
  obtain ⟨h, hh, rfl⟩ := List.mem_map.mp hn
  exact (hitems h hh).grows (c.dest.grows_allocList k items)

theorem builds_addEntries (items : List Entry) :
    Builds (fun c => ∀ e ∈ items, c.dest.Present e.file.node) (addEntries items)
      fun r c => c.dest.Supports (.entries r) := by
  intro c hc hitems
  refine ⟨hc.allocEntries items, fun r c' ha => ?_⟩
  obtain ⟨rfl, hdest⟩ := addEntries_ok ha
  have hr := c.dest.entriesAt_allocEntries items
  rw [hdest]
  refine ⟨items.map fun e => e.file.node, map_eq_ok.mpr ⟨items, hr, rfl⟩, fun n hn => ?_⟩
  obtain ⟨e, he, rfl⟩ := List.mem_map.mp hn
  exact (hitems e he).grows (c.dest.grows_allocEntries items)

/-- Results that stay good while the destination grows are good together in the end. -/
theorem builds_mapM {f : α → CopyM β} {D : Store → β → Prop}
    (hD : ∀ {s t : Store} {b : β}, s.Grows t → D s b → D t b) (hsteps : ∀ a, Stepwise (f a))
    (hf : ∀ a, Builds (fun _ => True) (f a) fun b c => D c.dest b) :
    ∀ as : List α, Builds (fun _ => True) (as.mapM f) fun bs c => ∀ b ∈ bs, D c.dest b
  | [] => builds_pure (by simp)
  | a :: as => by
    rw [List.mapM_cons]
    refine builds_bind (hf a) fun b => ?_
    have hrest := (builds_mapM (D := D) hD hsteps hf as).frame (stepwise_mapM hsteps as)
      (F := fun s => D s b) hD
    refine builds_map (hrest.imp (fun c hb => ⟨trivial, hb⟩) fun _ _ h => h) ?_
    rintro bs c ⟨hbs, hb⟩ x hx
    rcases List.mem_cons.mp hx with rfl | hx
    · exact hb
    · exact hbs x hx

section
variable {copy : NodeCopy} (hsteps : ∀ k h, Stepwise (copy k h))
  (hcopy : ∀ k h, Builds (fun _ => True) (copy k h) fun h' c => c.dest.Present h'.node)
include hcopy

theorem builds_slot (sl : Slot) (h : Handle sl.kind) :
    Builds (fun _ => True) (slot copy sl h) fun h' c => c.dest.Present h'.node := by
  refine builds_bind (builds_read _) fun content => ?_
  split
  · exact (hcopy _ h).imp (fun _ _ => trivial) fun _ _ h => h
  · exact builds_throw _

/-- The file of a copied entry is there: it was copied, or read in the same store. -/
theorem builds_entry (e : Entry) :
    Builds (fun _ => True) (entry copy e) fun e' c => c.dest.Present e'.file.node := by
  refine builds_bind builds_get fun c => ?_
  split
  · rename_i hin
    have hread := builds_read (P := fun d => True ∧ c = d) fun s => s.contentAt e.file
    refine builds_bind hread fun content => ?_
    have hname := (builds_symbol (P := fun _ => True) e.name).frame (stepwise_symbol e.name)
      (F := fun s => s.Present e.file.node) fun g h => h.grows g
    refine builds_map (hname.imp ?_ fun _ _ h => h) fun name d h => h.2
    rintro d ⟨⟨-, rfl⟩, hfile⟩
    rw [Copier.source_eq_dest hin] at hfile
    exact ⟨trivial, content, hfile⟩
  · refine builds_bind (builds_symbol e.name) fun name => ?_
    exact builds_map (hcopy .file e.file) fun file d h => h

include hsteps

theorem builds_list (sl : Slot) (r : ListRef) :
    Builds (fun _ => True) (list copy sl r) fun r' c => c.dest.Supports (.list sl.kind r') := by
  refine builds_bind (builds_read _) fun items => ?_
  have hitems := builds_mapM (D := fun s (h : Handle sl.kind) => s.Present h.node)
    (fun g h => h.grows g) (stepwise_slot hsteps sl) (builds_slot hcopy sl) items
  refine builds_bind (hitems.imp (fun _ _ => trivial) fun _ _ h => h) fun copies => ?_
  exact builds_addList sl.kind copies

theorem builds_entries (r : ListRef) :
    Builds (fun _ => True) (entries copy r) fun r' c => c.dest.Supports (.entries r') := by
  refine builds_bind (builds_read _) fun items => ?_
  have hitems := builds_mapM (D := fun s (e : Entry) => s.Present e.file.node)
    (fun g h => h.grows g) (stepwise_entry hsteps) (builds_entry hcopy) items
  refine builds_bind (hitems.imp (fun _ _ => trivial) fun _ _ h => h) fun copies => ?_
  exact builds_addEntries copies

theorem builds_value : ∀ (t : FieldType) (v : t.Value),
    Builds (fun _ => True) (value copy t v)
      fun w c => ∀ l ∈ (Part.value t).links w, c.dest.Supports l
  | .node sl, h => by
    refine (builds_slot hcopy sl h).imp (fun _ _ => trivial) fun h' c hh' l hl => ?_
    obtain rfl := List.mem_singleton.mp hl
    exact Store.supports_node.mpr hh'
  | .optNode _, none => builds_pure (by simp [Part.links, FieldType.link?])
  | .optNode sl, some h => by
    refine builds_map (builds_slot hcopy sl h) fun h' c hh' l hl => ?_
    obtain rfl := List.mem_singleton.mp hl
    exact Store.supports_node.mpr hh'
  | .list _, none => builds_pure (by simp [Part.links, FieldType.link?])
  | .list sl, some r => by
    refine builds_map (builds_list hsteps hcopy sl r) fun r' c hr' l hl => ?_
    obtain rfl := List.mem_singleton.mp hl
    exact hr'
  | .entries, r => by
    refine (builds_entries hsteps hcopy r).imp (fun _ _ => trivial) fun r' c hr' l hl => ?_
    obtain rfl := List.mem_singleton.mp hl
    exact hr'
  | .text, y => (builds_symbol y).imp (fun _ _ => trivial) (by simp [Part.links, FieldType.link?])
  | .scalar _, v => builds_pure (by simp [Part.links, FieldType.link?])
  | .optScalar _, v => builds_pure (by simp [Part.links, FieldType.link?])

theorem builds_values : ∀ {fs : List Field} (vs : Values fs),
    Builds (fun _ => True) (vs.mapM (value copy))
      fun ws c => ∀ l ∈ (Part.values fs).links ws, c.dest.Supports l
  | _, .nil => builds_pure (by simp [Part.links, Values.toList])
  | f :: fs, .cons v vs => by
    refine builds_bind (builds_value hsteps hcopy f.type v) fun w => ?_
    have hrest := (builds_values vs).frame (stepwise_values (stepwise_value hsteps) vs)
      (F := fun s => ∀ l ∈ (Part.value f.type).links w, s.Supports l)
      fun g h l hl => (h l hl).grows g
    refine builds_map (hrest.imp (fun c hw => ⟨trivial, hw⟩) fun _ _ h => h) ?_
    rintro ws c ⟨hws, hw⟩ l hl
    rw [Part.links_values_cons] at hl
    rcases List.mem_append.mp hl with hl | hl
    · exact hw l hl
    · exact hws l hl

end

theorem builds_within : ∀ (depth : Nat) (k : Kind) (h : Handle k),
    Builds (fun _ => True) (within depth k h) fun h' c => c.dest.Present h'.node
  | 0, _, _ => builds_throw _
  | depth + 1, k, h => by
    refine builds_bind builds_get fun before => builds_bind (builds_read _) fun c => ?_
    have hvalues := builds_values (stepwise_within depth) (builds_within depth) c.values
    refine builds_bind (hvalues.imp (fun _ _ => trivial) fun _ _ h => h) fun values => ?_
    refine builds_bind (builds_add { c with values := values }) fun copy => ?_
    have hreport := (builds_reportCopy (P := fun _ => True) before.copied h copy
      { c with values := values }).frame (stepwise_reportCopy _ _ _ _)
      (F := fun s => s.Present copy.node) fun g h => h.grows g
    refine builds_bind (hreport.imp (fun c hc => ⟨trivial, hc⟩) fun _ _ h => h) fun _ => ?_
    exact builds_pure fun c h => h.2

theorem builds_depth : Builds (fun _ => True) depth fun _ _ => True :=
  builds_map builds_get fun _ _ _ => trivial

theorem builds_node (n : Node) :
    Builds (fun _ => True) (node n) fun m c => c.dest.Present m := by
  refine builds_bind (builds_report _) fun _ => builds_bind builds_depth fun d => ?_
  exact builds_map (builds_within d n.kind n.handle) fun _ _ h => h

theorem builds_slotOpt (sl : Slot) : ∀ h?, Builds (fun _ => True) (slotOpt sl h?) fun _ _ => True
  | none => builds_pure fun _ _ => trivial
  | some h => builds_bind builds_depth fun d =>
      builds_map (builds_slot (builds_within d) sl h) fun _ _ _ => trivial

theorem builds_listOpt (sl : Slot) : ∀ r?, Builds (fun _ => True) (listOpt sl r?) fun _ _ => True
  | none => builds_pure fun _ _ => trivial
  | some r => builds_bind builds_depth fun d =>
      builds_map (builds_list (stepwise_within d) (builds_within d) sl r) fun _ _ _ => trivial

/-- **A request leaves a destination that was built bottom up**, however it ends. -/
theorem builds_perform : ∀ r : CopyRequest, Builds (fun _ => True) (perform r) fun _ _ => True
  | .node none => builds_pure fun _ _ => trivial
  | .node (some n) => builds_map (builds_node n) fun _ _ _ => trivial
  | .nodes none => builds_pure fun _ _ => trivial
  | .nodes (some ns) =>
    builds_map (builds_mapM (D := Store.Present) (fun g h => h.grows g) stepwise_node builds_node
      ns) fun _ _ _ => trivial
  | .slot sl h? => builds_map (builds_slotOpt sl h?) fun _ _ _ => trivial
  | .list sl r? => builds_map (builds_listOpt sl r?) fun _ _ _ => trivial

end Copy
end GoTree
