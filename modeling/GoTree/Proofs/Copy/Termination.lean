import GoTree.Proofs.Copy.BottomUp
import GoTree.Proofs.Copy.Content
import GoTree.Proofs.Copy.Dangling
/-!
# Copies end

A copy may go as deep as the store that is read was when the request began. In a store
that was built bottom up this is enough. In place the store grows while it is read, but
what was there keeps its paths, and copies have the paths of what they were copied
from. So it is enough until the request ends, also for an item of a list that came to
resolve only through the copies of the items before it.

* `ends_within`: the copy of a node ends if it may go as deep as the paths from it.
* `noDeeper_within`: a copy in place adds no longer paths than there were.
* `ends_perform`: a request to read a store that was built bottom up ends.
-/
namespace GoTree

namespace Copy

variable {α β : Type}

/-- From a state with `P` the computation leaves one with `P` or fails, and it does not
fail because it nests too deep. -/
def Ends (P : Copier → Prop) (x : CopyM α) : Prop :=
  ∀ c, P c → (∀ a c', x c = .ok a c' → P c') ∧ ∀ e c', x c = .error e c' → e ≠ .fault .cycle

section
variable {P : Copier → Prop}

theorem ends_pure (a : α) : Ends P (pure a) := by
  intro c hc
  refine ⟨fun b c' h => ?_, fun e c' h => by cases h⟩
  obtain ⟨-, rfl⟩ := pure_ok.mp h
  exact hc

theorem ends_throw {e : CopyError} (he : e ≠ .fault .cycle) : Ends P (throw e : CopyM α) := by
  intro c _
  refine ⟨fun b c' h => ?_, fun e' c' h => ?_⟩
  · cases h
  · cases h
    exact he

theorem ends_get : Ends P (get : CopyM Copier) := by
  intro c hc
  refine ⟨fun b c' h => ?_, fun e c' h => by cases h⟩
  obtain ⟨-, rfl⟩ := get_ok.mp h
  exact hc

theorem ends_bind {x : CopyM α} {f : α → CopyM β} (hx : Ends P x) (hf : ∀ a, Ends P (f a)) :
    Ends P (x >>= f) := by
  intro c hc
  obtain ⟨hok, herror⟩ := hx c hc
  refine ⟨fun b c' h => ?_, fun e c' h => ?_⟩
  · obtain ⟨a, c₁, ha, hb⟩ := bind_ok.mp h
    exact (hf a c₁ (hok a c₁ ha)).1 b c' hb
  · rcases bind_error.mp h with h | ⟨a, c₁, ha, h⟩
    · exact herror e c' h
    · exact (hf a c₁ (hok a c₁ ha)).2 e c' h

theorem ends_map {x : CopyM α} (f : α → β) (hx : Ends P x) : Ends P (do return f (← x)) :=
  ends_bind hx fun a => ends_pure (f a)

theorem ends_read (f : Store → Except Dangling α) : Ends P (read f) := by
  intro c hc
  refine ⟨fun a c' h => ?_, fun e c' h => ?_⟩
  · obtain ⟨-, rfl⟩ := read_ok.mp h
    exact hc
  · obtain ⟨-, d, -, rfl⟩ := read_error.mp h
    simp

theorem ends_mapM {f : α → CopyM β} : ∀ {as : List α}, (∀ a ∈ as, Ends P (f a)) →
    Ends P (as.mapM f)
  | [], _ => ends_pure _
  | a :: as, h => by
    rw [List.mapM_cons]
    refine ends_bind (h a List.mem_cons_self) fun b => ?_
    exact ends_map _ (ends_mapM fun a ha => h a (List.mem_cons_of_mem _ ha))

theorem ends_slot {copy : NodeCopy} {sl : Slot} {h : Handle sl.kind}
    (hcopy : Ends P (copy sl.kind h)) : Ends P (slot copy sl h) := by
  refine ends_bind (ends_read _) fun content => ?_
  split
  · exact hcopy
  · exact ends_throw (by simp)

end

/-! ## A node and what is below it -/

section
variable {s : Store}

/-- The store that is read grew from `s`. -/
def Reads (s : Store) (c : Copier) : Prop := s.Grows c.source

theorem ends_of_stepwise {x : CopyM α} (hx : Stepwise x)
    (herror : ∀ c e c', x c = .error e c' → e ≠ .fault .cycle) : Ends (Reads s) x :=
  fun c hc => ⟨fun _ _ h => hc.trans (hx.steps h).source_grows, herror c⟩

/-- What was known before the store grew is read again. -/
theorem ends_known {f : Store → Except Dangling α} {k : α → CopyM β} {a : α}
    (hf : ∀ t, s.Grows t → f t = .ok a) (hk : Ends (Reads s) (k a)) :
    Ends (Reads s) (read f >>= k) := by
  intro c hc
  have hread : (read f >>= k) c = k a c := by
    simp [bind, EStateM.bind, read, hf c.source hc]
  rw [hread]
  exact hk c hc

theorem ends_symbol (y : Symbol) : Ends (Reads s) (symbol y) := by
  refine ends_of_stepwise (stepwise_symbol y) fun c e c' h => ?_
  rcases bind_error.mp h with h | ⟨text, c₁, -, h⟩
  · obtain ⟨-, d, -, rfl⟩ := read_error.mp h
    simp
  · split at h <;> cases h

theorem ends_add {k : Kind} (content : Content k) : Ends (Reads s) (add content) :=
  ends_of_stepwise (stepwise_add content) fun c e c' h => by cases h

theorem ends_addList (k : Kind) (items : List (Handle k)) : Ends (Reads s) (addList k items) :=
  ends_of_stepwise (stepwise_addList k items) fun c e c' h => by cases h

theorem ends_addEntries (items : List Entry) : Ends (Reads s) (addEntries items) :=
  ends_of_stepwise (stepwise_addEntries items) fun c e c' h => by cases h

theorem ends_reportCopy (before : Nat) {k : Kind} (h copy : Handle k) (content : Content k) :
    Ends (Reads s) (reportCopy before h copy content) := by
  refine ends_of_stepwise (stepwise_reportCopy before h copy content) fun c e c' herror => ?_
  obtain ⟨log, hlog⟩ := reportCopy_eq before h copy content c
  rw [hlog] at herror
  cases herror

section
variable {copy : NodeCopy} {d : Nat}
  (hcopy : ∀ k h, s.Present h.node → s.shallow d h.node = true → Ends (Reads s) (copy k h))
include hcopy

theorem ends_list {sl : Slot} {r : ListRef} (hr : s.Supports (.list sl.kind r))
    (hd : s.ShallowBelow d (.value (.list sl)) (some r)) : Ends (Reads s) (list copy sl r) := by
  obtain ⟨ns, hns, hpresent⟩ := hr
  obtain ⟨items, hitems, rfl⟩ := map_eq_ok.mp hns
  refine ends_known (fun t g => g.listAt hitems) ?_
  refine ends_bind (ends_mapM fun h hh => ends_slot (hcopy _ h ?_ ?_)) fun copies =>
    ends_addList _ copies
  · exact hpresent h.node (List.mem_map_of_mem hh)
  · exact Store.shallowBelow_list hitems hd h hh

/-- In place an entry is copied with the file that it has, across stores with a copy. -/
theorem ends_entry {e : Entry} (he : s.Present e.file.node) (hd : s.shallow d e.file.node = true) :
    Ends (Reads s) (entry copy e) := by
  refine ends_bind ends_get fun c => ?_
  split
  · refine ends_bind (ends_read _) fun _ => ?_
    exact ends_map _ (ends_symbol e.name)
  · refine ends_bind (ends_symbol e.name) fun name => ?_
    exact ends_map _ (hcopy .file e.file he hd)

theorem ends_entries {r : ListRef} (hr : s.Supports (.entries r))
    (hd : s.ShallowBelow d (.value .entries) r) : Ends (Reads s) (entries copy r) := by
  obtain ⟨ns, hns, hpresent⟩ := hr
  obtain ⟨items, hitems, rfl⟩ := map_eq_ok.mp hns
  refine ends_known (fun t g => g.entriesAt hitems) ?_
  refine ends_bind (ends_mapM fun e he => ends_entry hcopy ?_ ?_) fun copies =>
    ends_addEntries copies
  · exact hpresent _ (List.mem_map_of_mem (f := fun e : Entry => e.file.node) he)
  · exact Store.shallowBelow_entries hitems hd e he

theorem ends_value : ∀ {t : FieldType} {v : t.Value},
    (∀ l ∈ (Part.value t).links v, s.Supports l) → s.ShallowBelow d (.value t) v →
      Ends (Reads s) (value copy t v)
  | .node sl, h, hl, hd => by
    have hpresent := Store.supports_node.mp
      (hl (.node h.node) (by simp [Part.links, FieldType.link?]))
    exact ends_slot (hcopy _ h hpresent (Store.shallow_of_slot hd))
  | .optNode _, none, _, _ => ends_pure _
  | .optNode sl, some h, hl, hd => by
    have hpresent := Store.supports_node.mp
      (hl (.node h.node) (by simp [Part.links, FieldType.link?]))
    exact ends_map _ (ends_slot (hcopy _ h hpresent (Store.shallow_of_optSlot hd)))
  | .list _, none, _, _ => ends_pure _
  | .list sl, some r, hl, hd =>
    ends_map _ (ends_list hcopy (hl (.list sl.kind r) (by simp [Part.links, FieldType.link?])) hd)
  | .entries, r, hl, hd =>
    ends_entries hcopy (hl (.entries r) (by simp [Part.links, FieldType.link?])) hd
  | .text, y, _, _ => ends_symbol y
  | .scalar _, _, _, _ => ends_pure _
  | .optScalar _, _, _, _ => ends_pure _

theorem ends_values : ∀ {fs : List Field} {vs : Values fs},
    (∀ l ∈ (Part.values fs).links vs, s.Supports l) → s.ShallowBelow d (.values fs) vs →
      Ends (Reads s) (vs.mapM (value copy))
  | _, .nil, _, _ => ends_pure _
  | f :: fs, .cons v vs, hl, hd => by
    obtain ⟨hv, hvs⟩ := Store.shallowBelow_values_cons hd
    rw [Part.links_values_cons] at hl
    refine ends_bind (ends_value hcopy (fun l h => hl l (List.mem_append_left _ h)) hv) fun w => ?_
    exact ends_map _ (ends_values (fun l h => hl l (List.mem_append_right _ h)) hvs)

end

/-- **The copy of a node ends** if it may go as deep as the paths from it, while the
store that is read grows. -/
theorem ends_within (hs : s.Grounded) : ∀ {d : Nat} (k : Kind) (h : Handle k),
    s.Present h.node → s.shallow d h.node = true → Ends (Reads s) (within d k h)
  | 0, _, _, _, hd => by cases hd
  | d + 1, k, h, hpresent, hd => by
    obtain ⟨c, hc⟩ : ∃ c, s.contentAt h = .ok c := hpresent
    have hclosed : ∀ l ∈ c.links, s.Supports l := by
      rw [← Store.linksOf_eq hc]
      exact hs.closed h.node
    have hvalues := ends_values (ends_within hs) hclosed (Store.shallowBelow_values hc hd)
    refine ends_bind ends_get fun before => ends_known (fun t g => g.contentAt hc) ?_
    refine ends_bind hvalues fun values => ends_bind (ends_add _) fun copy => ?_
    exact ends_bind (ends_reportCopy _ _ _ _) fun _ => ends_pure _

end

end Copy

/-! ## Copies in place -/

/-- What is alike is equally deep. -/
theorem Alike.shallowBelow {A B : Store} {p : Part} {v w : p.Value} (h : Alike A B p v w) :
    ∀ {d : Nat}, A.ShallowBelow d p v → B.ShallowBelow d p w := by
  induction h with
  | node hc hc' _ ih =>
    intro d hd
    rw [Store.shallowBelow_node] at hd ⊢
    cases d with
    | zero => cases hd
    | succ d => exact Store.shallow_of_values hc' (ih (Store.shallowBelow_values hc hd))
  | slot _ ih => exact ih
  | optSome _ ih => exact ih
  | listSome hr hr' _ ih =>
    intro d hd
    exact (Store.shallowBelow_items hr').mpr (ih ((Store.shallowBelow_items hr).mp hd))
  | package hr hr' _ ih =>
    intro d hd
    exact (Store.shallowBelow_files hr').mpr (ih ((Store.shallowBelow_files hr).mp hd))
  | @valuesCons f fs v w vs ws _ _ ih ihs =>
    intro d hd
    obtain ⟨hv, hvs⟩ := Store.shallowBelow_values_cons hd
    exact (Store.shallowBelow_append (Part.links_values_cons w ws)).mpr ⟨ih hv, ihs hvs⟩
  | @itemsCons sl h h' hs hs' _ _ ih ihs =>
    intro d hd
    obtain ⟨hv, hvs⟩ := (Store.shallowBelow_append (p := .node sl.kind) (q := .items sl)
      (u := h) (v := hs) rfl).mp hd
    exact (Store.shallowBelow_append (p := .node sl.kind) (q := .items sl)
      (u := h') (v := hs') rfl).mpr ⟨ih hv, ihs hvs⟩
  | @entriesCons e e' es es' _ _ _ _ _ ih ihs =>
    intro d hd
    obtain ⟨hv, hvs⟩ := (Store.shallowBelow_append (p := .node .file) (q := .entries)
      (u := e.file) (v := es) rfl).mp hd
    exact (Store.shallowBelow_append (p := .node .file) (q := .entries)
      (u := e'.file) (v := es') rfl).mpr ⟨ih hv, ihs hvs⟩
  | optNone | listNone | text | scalar | optScalar | valuesNil | itemsNil | entriesNil =>
    intro d _ l hl
    simp [Part.links, FieldType.link?, Values.toList] at hl

namespace Store

/-- No path of a store has more than `d` nodes. -/
def NoDeeper (s : Store) (d : Nat) : Prop := ∀ n, s.shallow d n = true

/-- What was there keeps its paths, so only what was added can have longer ones. -/
theorem Grounded.noDeeper_later {s t : Store} (hs : s.Grounded) (g : s.Grows t) {d : Nat}
    (hd : s.NoDeeper d) (hnew : ∀ n ∈ s.added t, t.shallow d n = true) : t.NoDeeper d := by
  intro n
  by_cases hn : n ∈ s.added t
  · exact hnew n hn
  · cases d with
    | zero => cases hd n
    | succ d =>
      refine shallow_succ.mpr fun m hm => ?_
      -- a node that refers to something is there, and it is not new
      have hlt := (mem_added.mp (mem_added_of_references hm)).2
      have hold : n.raw < (s.nodes.get n.kind).size := by
        rw [mem_added] at hn
        omega
      have hreferences := hs.references_eq (g.linksOf hold) g.targets
      rw [hreferences] at hm
      exact hs.shallow_later g (hs.mem_references hm) (shallow_succ.mp (hd n) m hm)

theorem references_package {s : Store} {h : Handle .package} {name : Symbol} {r : ListRef}
    {es : List Entry} (hc : s.contentAt h = .ok (packageContent name r))
    (hr : s.entriesAt r = .ok es) : s.references h.node = es.map fun e => e.file.node := by
  have hlinks : (packageContent name r).links = [.entries r] := rfl
  rw [references, linksOf_eq hc, hlinks, List.flatMap_singleton, follow_entries hr]

/-- A package that shares the files of another has the paths of the other. -/
theorem Grounded.shallow_sharedCopy {s t : Store} (hs : s.Grounded) (g : s.Grows t) {n m : Node}
    (hshare : SharedCopy s t n m) : ∀ {d : Nat}, s.shallow d n = true → t.shallow d m = true
  | 0, hn => by cases hn
  | d + 1, hn => by
    obtain ⟨h, h', name, r, r', es, rfl, rfl, hc, hc', -, hr, hr'⟩ := hshare.entries
    refine shallow_succ.mpr fun f hf => ?_
    rw [references_package hc' hr', ← references_package hc hr] at hf
    exact hs.shallow_later g (hs.mem_references hf) (shallow_succ.mp hn f hf)

end Store

namespace Copier

/-- The store that is read was built bottom up, with no path of more than `d` nodes. -/
def Within (d : Nat) (c : Copier) : Prop := c.source.BottomUp ∧ c.source.NoDeeper d

/-- The store that is read stays as it is, or it is the destination. -/
theorem Steps.source_cases {c c' : Copier} (hsteps : c.Steps c') :
    c'.source = c.source ∨ c.isInPlace = true ∧ c.source = c.dest ∧ c'.source = c'.dest := by
  unfold source isInPlace
  rw [hsteps.source?_eq]
  cases c.source? with
  | none => exact .inr ⟨rfl, rfl, rfl⟩
  | some s => exact .inl rfl

/-- What a deep copy adds has the paths of what was copied. -/
theorem shallow_of_copies {d : Nat} {c c' : Copier} {k : Kind} {h h' : Handle k}
    (hcopies : Copies c (.node k) h h' c') (hs : c.source.Grounded)
    (hd : c.source.shallow d h.node = true) :
    ∀ n ∈ c.dest.added c'.dest, c'.dest.shallow d n = true := by
  intro n hn
  have hpresent : c.source.Present h.node := by
    cases hcopies with
    | node hc => exact ⟨_, hc⟩
  have hd' : c'.source.shallow d h.node = true :=
    hs.shallow_later hcopies.steps.source_grows hpresent hd
  have hroot : c'.dest.shallow d h'.node = true :=
    Store.shallowBelow_node.mp (hcopies.alike.shallowBelow (Store.shallowBelow_node.mpr hd'))
  have hreach : c'.dest.Reaches h'.node n := (hcopies.fresh.isolated.reachable n).mpr hn
  exact Paths.bounded_of_reaches hroot hreach

end Copier

namespace Copy

variable {α : Type}

theorem bottomUp_source {x : CopyM α} {Q : α → Copier → Prop}
    (hx : Builds (fun _ => True) x Q) (hsteps : Stepwise x) {c : Copier}
    (hc : c.source.BottomUp) : (after x c).source.BottomUp := by
  rcases (hsteps c).source_cases with hsame | ⟨-, hsource, hsource'⟩
  · rw [hsame]
    exact hc
  · rw [hsource] at hc
    rw [hsource']
    exact (hx c hc trivial).1

/-- **A copy adds no longer paths than there were** to the store that is read. -/
theorem noDeeper_within {d e : Nat} {c c' : Copier} {k : Kind} {h h' : Handle k}
    (hc : c.Within d) (hw : within e k h c = .ok h' c') : c'.source.NoDeeper d := by
  have hsteps : c.Steps c' := (stepwise_within e k h).steps hw
  rcases hsteps.source_cases with hsame | ⟨hin, hsource, hsource'⟩
  · rw [hsame]
    exact hc.2
  · have hs := hc.1.grounded
    have hd := hc.2
    by_cases hk : k = .package
    · subst hk
      have hshare := sharedCopy_within hin hw
      rw [hsource] at hs hd
      rw [hsource']
      refine hs.noDeeper_later hsteps.grows hd fun n hn => ?_
      rw [hshare.added, List.mem_singleton] at hn
      rw [hn]
      exact hs.shallow_sharedCopy hsteps.grows hshare (hd _)
    · have hcopies : Copies c (.node k) h h' c' := copies_within hw fun _ => hk
      have hnew := Copier.shallow_of_copies hcopies hs (hd h.node)
      rw [hsource] at hs hd
      rw [hsource']
      exact hs.noDeeper_later hsteps.grows hd hnew

/-- A copy ends that may go as deep as all paths in the store that is read. -/
theorem ends_copy {d : Nat} (k : Kind) (h : Handle k) : Ends (Copier.Within d) (within d k h) := by
  intro c hc
  refine ⟨fun h' c' hw => ⟨?_, noDeeper_within hc hw⟩, fun e c' hw => ?_⟩
  · have hafter := bottomUp_source (builds_within d k h) (stepwise_within d k h) hc.1
    rwa [after, hw] at hafter
  · by_cases hn : c.source.Present h.node
    · exact (ends_within hc.1.grounded k h hn (hc.2 h.node) c (.refl _)).2 e c' hw
    · -- the root itself does not resolve
      cases d with
      | zero => cases hc.2 h.node
      | succ d =>
        rcases bind_error.mp hw with hw | ⟨before, c₁, hget, hw⟩
        · cases hw
        · obtain ⟨-, rfl⟩ := get_ok.mp hget
          rcases bind_error.mp hw with hw | ⟨content, c₂, hread, -⟩
          · exact (ends_read _ c hc).2 e c' hw
          · exact absurd ⟨content, (read_ok.mp hread).1⟩ hn

theorem ends_items {d : Nat} {sl : Slot} {r : ListRef} {c c' : Copier} {e : CopyError}
    (hc : c.Within d) (h : list (within d) sl r c = .error e c') : e ≠ .fault .cycle := by
  rcases bind_error.mp h with h | ⟨items, c₁, hread, h⟩
  · exact (ends_read _ c hc).2 e c' h
  · obtain ⟨-, rfl⟩ := read_ok.mp hread
    rcases bind_error.mp h with h | ⟨copies, c₂, -, h⟩
    · exact (ends_mapM (fun h _ => ends_slot (ends_copy _ h)) c hc).2 e c' h
    · cases h

/-! ## Requests -/

/-- The store that is read was built bottom up. -/
def ReadsBottomUp (c : Copier) : Prop := c.source.BottomUp

theorem ReadsBottomUp.within {c : Copier} (hc : ReadsBottomUp c) : c.Within c.source.depth :=
  ⟨hc, hc.grounded.shallow_depth⟩

theorem ends_of_builds {x : CopyM α} {Q : α → Copier → Prop} (hx : Builds (fun _ => True) x Q)
    (hsteps : Stepwise x)
    (herror : ∀ c, ReadsBottomUp c → ∀ e c', x c = .error e c' → e ≠ .fault .cycle) :
    Ends ReadsBottomUp x := by
  refine fun c hc => ⟨fun a c' h => ?_, herror c hc⟩
  have hafter := bottomUp_source hx hsteps hc
  rwa [after, h] at hafter

theorem ends_node (n : Node) : Ends ReadsBottomUp (node n) := by
  refine ends_of_builds (builds_node n) (stepwise_node n) fun c hc e c' h => ?_
  have hwithin : Copier.Within c.source.depth { c with log := c.log.push (.node n) } := hc.within
  exact (ends_map Handle.node (ends_copy n.kind n.handle) _ hwithin).2 e c' h

theorem ends_slotOpt (sl : Slot) : ∀ h? : Option (Handle sl.kind),
    Ends ReadsBottomUp (slotOpt sl h?)
  | none => ends_pure _
  | some h => by
    refine ends_of_builds (builds_slotOpt sl _) (stepwise_slotOpt sl _) fun c hc e c' herror => ?_
    exact (ends_map some (ends_slot (ends_copy sl.kind h)) c hc.within).2 e c' herror

theorem ends_listOpt (sl : Slot) : ∀ r? : Option ListRef, Ends ReadsBottomUp (listOpt sl r?)
  | none => ends_pure _
  | some r => by
    refine ends_of_builds (builds_listOpt sl _) (stepwise_listOpt sl _) fun c hc e c' herror => ?_
    rcases bind_error.mp herror with h | ⟨d, c₁, hdepth, h⟩
    · cases h
    · cases hdepth
      rcases bind_error.mp h with h | ⟨r', c₂, -, h⟩
      · exact ends_items hc.within h
      · cases h

/-- **A request to read a store that was built bottom up ends.** -/
theorem ends_perform : ∀ r : CopyRequest, Ends ReadsBottomUp (perform r)
  | .node none => ends_pure _
  | .node (some n) => ends_map _ (ends_node n)
  | .nodes none => ends_pure _
  | .nodes (some _) => ends_map _ (ends_mapM fun n _ => ends_node n)
  | .slot sl h? => ends_map _ (ends_slotOpt sl h?)
  | .list sl r? => ends_map _ (ends_listOpt sl r?)

end Copy

end GoTree
