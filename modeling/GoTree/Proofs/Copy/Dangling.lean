import GoTree.Proofs.Copy.Outcome
/-!
# Copies in place of what does not resolve

In place the store that is read grows during the copy, so a handle or a range that
resolves to nothing when a request starts may resolve to something that the same
request has added before it gets there. What counts is the store as the request
leaves it: the answer tells whether anything under the root is wrong there.

* `sum_of_dangling_copied`: a sum whose second operand resolves to the copy of the
  first.
* `Blames`: what a copy fails with is wrong with something under its root, in the
  store at that moment.
* `inPlace_perform_dangling`: when a name that does not resolve is reported.
-/
namespace GoTree

/-! ## Checks while a store grows -/

namespace Store

theorem Grows.look {s t : Store} (g : s.Grows t) {i : Check} {is : List Check}
    (h : s.look i = .ok is) : t.look i = .ok is := by
  cases i with
  | node sl x =>
    obtain ⟨c, hc, rfl⟩ := map_eq_ok.mp h
    exact look_node sl (g.contentAt hc)
  | list sl r =>
    obtain ⟨hs, hr, rfl⟩ := map_eq_ok.mp h
    exact look_list (g.listAt hr)
  | entries r =>
    obtain ⟨es, hr, rfl⟩ := map_eq_ok.mp h
    exact look_entries (g.entriesAt hr)
  | symbol y =>
    obtain ⟨text, hy, rfl⟩ := map_eq_ok.mp h
    exact look_symbol (g.textAt hy)

theorem Grows.mem_under {s t : Store} (g : s.Grows t) {i j : Check} (h : j ∈ s.under i) :
    j ∈ t.under i := by
  cases hlook : s.look i with
  | ok is => rwa [under_eq (g.look hlook), ← under_eq hlook]
  | error d =>
    rw [under_eq_nil hlook] at h
    cases h

theorem Grows.meets {s t : Store} (g : s.Grows t) {i j : Check} (h : s.Meets i j) : t.Meets i j :=
  Relation.ReflTransGen.mono (fun _ _ => g.mem_under) _ _ h

/-- What is met from below a check is met from it, also later. -/
theorem Grows.meets_head {s t : Store} (g : s.Grows t) {i j k : Check} {is : List Check}
    (hlook : s.look i = .ok is) (hj : j ∈ is) (h : t.Meets j k) : t.Meets i k := by
  refine .head ?_ h
  rwa [under_eq (g.look hlook)]

theorem Clean.offence_eq_none {s : Store} {i j : Check} (h : s.Clean [i]) (hm : s.Meets i j) :
    s.offence j = none := by
  obtain ⟨js, hj, hjs⟩ := h
  exact hjs j (hj.mem_of_meets List.mem_cons_self hm)

end Store

/-! ## What a failure is about -/

namespace Copy

variable {α β γ : Type}

/-- What the computation fails with, unless it nests too deep, is wrong with
something that is met from the checks `is` in the store that is read then. -/
def Blames (x : CopyM α) (is : List Check) : Prop :=
  ∀ c c' e, x c = .error e c' → e = .fault .cycle ∨
    ∃ i ∈ is, ∃ j, c'.source.Meets i j ∧ c'.source.offence j = some e

theorem Blames.mono {x : CopyM α} {is js : List Check} (h : Blames x is) (hsub : is ⊆ js) :
    Blames x js := by
  intro c c' e he
  rcases h c c' e he with hcycle | ⟨i, hi, hj⟩
  · exact .inl hcycle
  · exact .inr ⟨i, hsub hi, hj⟩

theorem blames_pure (a : α) (is : List Check) : Blames (pure a : CopyM α) is := by
  intro c c' e h
  cases h

theorem bind_error {x : CopyM α} {f : α → CopyM β} {e : CopyError} {c c' : Copier} :
    (x >>= f) c = .error e c' ↔
      x c = .error e c' ∨ ∃ a c₁, x c = .ok a c₁ ∧ f a c₁ = .error e c' := by
  simp only [bind, EStateM.bind]
  cases x c with
  | ok a c₁ => simp
  | error e' c₁ => simp

theorem blames_bind {x : CopyM α} {f : α → CopyM β} {is : List Check} (hx : Blames x is)
    (hf : ∀ a, Blames (f a) is) : Blames (x >>= f) is := by
  intro c c' e h
  rcases bind_error.mp h with h | ⟨a, c₁, -, h⟩
  · exact hx c c' e h
  · exact hf a c₁ c' e h

theorem Stepwise.steps_error {x : CopyM α} (hx : Stepwise x) {e : CopyError} {c c' : Copier}
    (h : x c = .error e c') : c.Steps c' := by
  have := hx c
  rwa [after, h] at this

theorem read_error {f : Store → Except Dangling α} {e : CopyError} {c c' : Copier} :
    read f c = .error e c' ↔ c = c' ∧ ∃ d, f c.source = .error d ∧ e = .fault (.dangling d) := by
  unfold read
  cases f c.source with
  | ok a => simp
  | error d =>
    simp only [EStateM.Result.error.injEq, Except.error.injEq, exists_eq_left']
    tauto

theorem blames_read {f : Store → Except Dangling α} {i : Check}
    (hlook : ∀ {s : Store} {d : Dangling}, f s = .error d → s.look i = .error d) :
    Blames (read f) [i] := by
  intro c c' e h
  obtain ⟨rfl, d, hd, rfl⟩ := read_error.mp h
  exact .inr ⟨i, List.mem_cons_self, i, .refl, Store.offence_eq_dangling (hlook hd)⟩

/-- What follows a reading is about the checks under the one that it makes. -/
theorem blames_below {f : Store → Except Dangling α} {k : α → CopyM β} {i : Check}
    {g : α → List Check} (hlook : ∀ s : Store, s.look i = (f s).map g)
    (hstep : ∀ a, Stepwise (k a)) (hk : ∀ a, Blames (k a) (g a)) :
    Blames (read f >>= k) [i] := by
  intro c c' e h
  rcases bind_error.mp h with h | ⟨a, c₁, hread, h⟩
  · refine blames_read (fun hd => ?_) c c' e h
    rw [hlook, hd]
    rfl
  · obtain ⟨hf, rfl⟩ := read_ok.mp hread
    have hi : c.source.look i = .ok (g a) := by rw [hlook, hf]; rfl
    have hgrows := ((hstep a).steps_error h).source_grows
    refine (hk a c c' e h).imp_right ?_
    rintro ⟨x, hx, j, hm, hj⟩
    exact ⟨i, List.mem_cons_self, j, hgrows.meets_head hi hx hm, hj⟩

theorem blames_seq {x : CopyM α} {y : CopyM β} {is js : List Check} (f : α → β → γ)
    (hx : Blames x is) (hy : Blames y js) :
    Blames (do let a ← x; let b ← y; return f a b) (is ++ js) := by
  refine blames_bind (hx.mono (List.subset_append_left _ _)) fun a => ?_
  refine blames_bind (hy.mono (List.subset_append_right _ _)) fun b => ?_
  exact blames_pure _ _

theorem blames_mapM {f : α → CopyM β} {g : α → List Check} (hf : ∀ a, Blames (f a) (g a)) :
    ∀ as : List α, Blames (as.mapM f) (as.flatMap g)
  | [] => blames_pure _ _
  | a :: as => by
    rw [List.mapM_cons, List.flatMap_cons]
    exact blames_seq List.cons (hf a) (blames_mapM hf as)

theorem blames_symbol (y : Symbol) : Blames (symbol y) [.symbol y] := by
  refine blames_bind (blames_read fun hd => ?_) fun text c c' e h => ?_
  · rw [Store.look, hd]
    rfl
  · split at h <;> cases h

theorem blames_reportCopy (before : Nat) (is : List Check) {k : Kind} (h copy : Handle k)
    (content : Content k) : Blames (reportCopy before h copy content) is := by
  intro c c' e herr
  obtain ⟨log, hlog⟩ := reportCopy_eq before h copy content c
  rw [hlog] at herr
  cases herr

section
variable {copy : NodeCopy} (hstep : ∀ k h, Stepwise (copy k h))
  (hcopy : ∀ {k : Kind} {h : Handle k}, Blames (copy k h) [.node (.any k) h])
include hstep hcopy

theorem blames_slot {sl : Slot} (h : Handle sl.kind) : Blames (slot copy sl h) [.node sl h] := by
  intro c c' e herr
  rcases bind_error.mp herr with herr | ⟨content, c₁, hread, herr⟩
  · exact blames_read (fun hd => Store.look_node_error sl hd) c c' e herr
  · obtain ⟨hc, rfl⟩ := read_ok.mp hread
    split at herr
    · have hc' := ((hstep _ h).steps_error herr).source_grows.contentAt hc
      refine (hcopy c c' e herr).imp_right ?_
      rintro ⟨x, hx, j, hm, hj⟩
      rw [List.mem_singleton] at hx
      subst hx
      -- what is wrong is not the handle, which resolves, so it is met below
      rcases Relation.ReflTransGen.cases_head hm with rfl | ⟨y, hy, hm⟩
      · rw [Store.offence_any hc'] at hj
        cases hj
      · exact ⟨_, List.mem_cons_self, j, .head hy hm, hj⟩
    · rename_i ha
      cases herr
      refine .inr ⟨_, List.mem_cons_self, _, .refl, ?_⟩
      rw [Store.offence_node sl hc, if_neg ha]

theorem blames_list {sl : Slot} (r : ListRef) : Blames (list copy sl r) [.list sl r] := by
  refine blames_below (fun _ => rfl) (fun hs => ?_) fun hs => ?_
  · exact stepwise_bind (stepwise_mapM (stepwise_slot hstep sl) hs) fun _ => stepwise_addList _ _
  · refine blames_bind ?_ fun _ c c' e h => by cases h
    have hitems : Blames (hs.mapM (slot copy sl)) _ := blames_mapM (blames_slot hstep hcopy) hs
    rwa [← List.map_eq_flatMap] at hitems

omit hstep in
/-- In place the file of an entry is looked at before its name. -/
theorem blames_entry (e : Entry) :
    Blames (entry copy e) [.symbol e.name, .node (.any .file) e.file] := by
  refine blames_bind (fun c c' err h => by cases h) fun c => ?_
  split
  · have hfile : Blames (read (·.contentAt e.file)) [.node (.any .file) e.file] :=
      blames_read fun hd => Store.look_node_error (.any .file) hd
    refine blames_bind (hfile.mono (by simp)) fun _ => ?_
    exact blames_bind ((blames_symbol e.name).mono (by simp)) fun _ => blames_pure _ _
  · exact blames_seq Entry.mk (blames_symbol e.name) hcopy

theorem blames_entries (r : ListRef) : Blames (entries copy r) [.entries r] := by
  refine blames_below (fun _ => rfl) (fun es => ?_) fun es => ?_
  · exact stepwise_bind (stepwise_mapM (stepwise_entry hstep) es) fun _ => stepwise_addEntries _
  · refine blames_bind (blames_mapM (blames_entry hcopy) es) fun _ c c' e h => by cases h

theorem blames_value : ∀ {t : FieldType} (v : t.Value),
    Blames (value copy t v) ((Part.value t).checks v)
  | .node _, h => blames_slot hstep hcopy h
  | .optNode _, none => blames_pure _ _
  | .optNode _, some h => blames_bind (blames_slot hstep hcopy h) fun _ => blames_pure _ _
  | .list _, none => blames_pure _ _
  | .list _, some r => blames_bind (blames_list hstep hcopy r) fun _ => blames_pure _ _
  | .entries, r => blames_entries hstep hcopy r
  | .text, y => blames_symbol y
  | .scalar _, v => blames_pure v _
  | .optScalar _, v => blames_pure v _

theorem blames_values : ∀ {fs : List Field} (vs : Values fs),
    Blames (vs.mapM (value copy)) ((Part.values fs).checks vs)
  | _, .nil => blames_pure _ _
  | _, .cons v vs => by
    rw [Part.checks_values_cons]
    exact blames_seq Values.cons (blames_value hstep hcopy v) (blames_values vs)

end

/-- A copy that fails without nesting too deep does so for something under its
root. -/
theorem blames_within : ∀ (d : Nat) {k : Kind} {h : Handle k},
    Blames (within d k h) [.node (.any k) h]
  | 0, _, _ => by
    intro c c' e herr
    cases herr
    exact .inl rfl
  | d + 1, k, h => by
    refine blames_bind (fun c c' err h => by cases h) fun c₀ => ?_
    refine blames_below (i := .node (.any k) h) (fun _ => rfl) (fun c => ?_) fun c => ?_
    · refine stepwise_bind (stepwise_values (stepwise_value (stepwise_within d)) c.values)
        fun values => ?_
      refine stepwise_bind (stepwise_add _) fun copy => ?_
      exact stepwise_bind (stepwise_reportCopy _ h copy _) fun _ => stepwise_pure copy
    · refine blames_bind (blames_values (stepwise_within d) (blames_within d) c.values)
        fun values => ?_
      refine blames_bind (fun c c' err h => by cases h) fun copy => ?_
      exact blames_bind (blames_reportCopy _ _ h copy _) fun _ => blames_pure copy _

theorem blames_perform {sl : Slot} {h : Handle sl.kind} :
    ∀ {r : CopyRequest}, r.root? = some ⟨sl, h⟩ → Blames (perform r) [.node sl h]
  | .node (some n), hr => by
    cases hr
    refine blames_bind ?_ fun m => blames_pure _ _
    refine blames_bind (fun c c' err h => by cases h) fun _ => ?_
    refine blames_bind (fun c c' err h => by cases h) fun d => ?_
    exact blames_bind (blames_within d) fun _ => blames_pure _ _
  | .slot sl (some h), hr => by
    cases hr
    refine blames_bind ?_ fun _ => blames_pure _ _
    refine blames_bind (fun c c' err h => by cases h) fun d => ?_
    exact blames_bind (blames_slot (stepwise_within d) (blames_within d) h) fun _ =>
      blames_pure _ _

end Copy

/-! ## Names that resolve to nothing when a request starts -/

namespace Copier

theorem Step.interner_eq {c c' : Copier} (h : c.Step c') (hin : c.isInPlace = true) :
    c'.dest.interner = c.dest.interner := by
  cases h with
  | add | addList | addEntries | report => rfl
  | intern _ across =>
    rw [hin] at across
    cases across

/-- In place no text is interned. -/
theorem Steps.interner_eq {c c' : Copier} (h : c.Steps c') (hin : c.isInPlace = true) :
    c'.dest.interner = c.dest.interner := by
  induction h with
  | refl => rfl
  | @tail c₁ _ h' h ih =>
    have hin₁ : c₁.isInPlace = true := (Steps.isInPlace_eq h').trans hin
    exact (h.interner_eq hin₁).trans ih

theorem Steps.look_symbol {c c' : Copier} (h : c.Steps c') (hin : c.isInPlace = true) (y : Symbol) :
    c'.dest.look (.symbol y) = c.dest.look (.symbol y) := by
  simp only [Store.look, Store.textAt, Store.text?, h.interner_eq hin]

/-- After a request that succeeds nothing is wrong under its root. -/
theorem clean_perform {c c' : Copier} {r : CopyRequest} {a : CopyResult} {sl : Slot}
    {h : Handle sl.kind} (hp : c.isInPlace = true → sl.kind ≠ .package)
    (hr : r.root? = some ⟨sl, h⟩) (hok : Copy.perform r c = .ok a c') :
    c'.source.Clean [.node sl h] := by
  obtain ⟨h', c₁, -, -, hcopies⟩ := copies_perform hp hr hok
  obtain ⟨t, ht, hfit⟩ := hcopies.fits
  exact ht.clean hfit

/-- **Names that do not resolve.** In place, when something under the root does not
resolve at the start of a request, and unless the nodes read in the course of it nest
too deep: the request fails only with what is wrong under the root by then, it succeeds
exactly if nothing is, and a success means that the name resolves meanwhile, so it is
no symbol. -/
theorem inPlace_perform_dangling {a : Store} {r : CopyRequest} {sl : Slot} {h : Handle sl.kind}
    {i : Check} {d : Dangling} (hr : r.root? = some ⟨sl, h⟩) (hk : sl.kind ≠ .package)
    (hi : a.Meets (.node sl h) i) (hd : a.look i = .error d) :
    let out := (inPlace a).perform r
    out.1 = .error (.fault .cycle) ∨
      (∀ e, out.1 = .error e →
        ∃ j, out.2.dest.Meets (.node sl h) j ∧ out.2.dest.offence j = some e) ∧
      ((∃ m, out.1 = .ok m) ↔
        ∀ j, out.2.dest.Meets (.node sl h) j → out.2.dest.offence j = none) ∧
      ((∃ m, out.1 = .ok m) →
        (∃ is, out.2.dest.look i = .ok is) ∧ ∀ y, i ≠ .symbol y) := by
  have hsteps := (inPlace a).steps_perform r
  have hsource := source_eq_dest (hsteps.isInPlace_eq)
  unfold perform at hsteps hsource ⊢
  cases hperform : Copy.perform r (inPlace a) with
  | error e c' =>
    rw [hperform] at hsource
    rcases Copy.blames_perform hr _ _ _ hperform with rfl | ⟨x, hx, j, hm, hj⟩
    · exact .inl rfl
    · cases List.mem_singleton.mp hx
      rw [hsource] at hm hj
      refine .inr ⟨fun e' he => ?_, ⟨by simp, fun hnone => ?_⟩, by simp⟩
      · cases he
        exact ⟨j, hm, hj⟩
      · rw [hnone j hm] at hj
        cases hj
  | ok m c' =>
    rw [hperform] at hsteps hsource
    have hclean := clean_perform (fun _ => hk) hr hperform
    simp only at hsource hsteps
    rw [hsource] at hclean
    have hnone := hclean.offence_eq_none (hsteps.grows.meets hi)
    refine .inr ⟨by simp, ⟨fun _ j => hclean.offence_eq_none, fun _ => ⟨m, rfl⟩⟩, fun _ => ?_⟩
    cases hlook : c'.dest.look i with
    | error d' =>
      rw [Store.offence_eq_dangling hlook] at hnone
      cases hnone
    | ok is =>
      refine ⟨⟨is, rfl⟩, fun y hy => ?_⟩
      subst hy
      rw [hsteps.look_symbol rfl y, show (inPlace a).dest = a from rfl, hd] at hlook
      cases hlook

end Copier

/-- Adds an identifier and the sum of it and whatever the handle stands for. -/
def Store.addSum (s : Store) (y : Handle .expr) : Handle .expr × Store :=
  let x := s.addIdent "x" Span.none
  x.2.alloc (.of .binaryExpr (.cons x.1 (.cons BinaryOp.add (.cons y .nil)))) Span.none

/-- The second operand does not resolve when the copy starts. When the copy gets to it,
it is the copy of the first operand. -/
theorem sum_of_dangling_copied :
    let sum := Store.empty.addSum ⟨2⟩
    let out := (Copier.inPlace sum.2).perform (.node (some sum.1.node))
    sum.2.dump sum.1.node = .error (.dangling (.node .expr 2)) ∧
      out.1 = .ok (.node (some ⟨.expr, 4⟩)) ∧
      out.2.dest.contentAt (⟨2⟩ : Handle .expr) = sum.2.contentAt ⟨0⟩ := by
  decide +kernel

/-- A handle that nothing is added for is reported. -/
theorem sum_of_dangling_reported :
    let sum := Store.empty.addSum ⟨9⟩
    let out := (Copier.inPlace sum.2).perform (.node (some sum.1.node))
    sum.2.Meets (.node (.any .expr) sum.1) (.node (.any .expr) ⟨9⟩) ∧
      sum.2.look (.node (.any .expr) ⟨9⟩) = .error (.node .expr 9) ∧
      out.1 = .error (.fault (.dangling (.node .expr 9))) ∧
      ∃ j, out.2.dest.Meets (.node (.any .expr) sum.1) j ∧
        out.2.dest.offence j = some (.fault (.dangling (.node .expr 9))) := by
  intro sum out
  have hmeets : sum.2.Meets (.node (.any .expr) sum.1) (.node (.any .expr) ⟨9⟩) := by
    have hlook : sum.2.look (.node (.any .expr) sum.1) =
      .ok [.node (.any .expr) ⟨0⟩, .node (.any .expr) ⟨9⟩] := rfl
    refine .single ?_
    rw [Store.under_eq hlook]
    simp
  have hlook : sum.2.look (.node (.any .expr) ⟨9⟩) = .error (.node .expr 9) := rfl
  have hanswer : out.1 = .error (.fault (.dangling (.node .expr 9))) := by decide +kernel
  have hroot : (CopyRequest.node (some sum.1.node)).root? = some ⟨.any .expr, sum.1⟩ := rfl
  refine ⟨hmeets, hlook, hanswer, ?_⟩
  rcases Copier.inPlace_perform_dangling hroot (by decide) hmeets hlook with hcycle | ⟨herror, -⟩
  · rw [hanswer] at hcycle
    cases hcycle
  · exact herror _ hanswer

end GoTree
