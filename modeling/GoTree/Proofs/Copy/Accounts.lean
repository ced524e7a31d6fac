import GoTree.Proofs.Copy.Dangling
import GoTree.Proofs.Copy.Effects
/-!
# The books of a copier

A copier counts the nodes that it adds, and reports how many a copied file took. Both
hold whatever it is asked for and however a request ends: a request that fails has counted
what it added until then, and has reported the files that it was done with. A file that
is copied as part of a package is reported as one that is copied alone.

* `Steps.copied_eq`: the count goes with the size of the destination.
* `Accounted`: new texts come from the source, and files are reported with the size of
  their trees.
* `accounted_within`: the copy of a node keeps the books, also where it fails.
* `run_copied`: the count and the reports over any sequence of requests.
-/
namespace GoTree

/-! ## The count and the destination -/

namespace Store

theorem nodeCount_alloc (s : Store) {k : Kind} (c : Content k) (span : Span) :
    (s.alloc c span).2.nodeCount = s.nodeCount + 1 := by
  have hadded := (added_trans (grows_empty s) (s.grows_alloc c span)).length_eq
  rwa [List.length_append, length_added_empty, length_added_empty,
    (s.added_alloc c span).length_eq] at hadded

end Store

namespace Copier

theorem Step.copied_eq {c c' : Copier} (h : c.Step c') :
    c'.dest.nodeCount + c.copied = c.dest.nodeCount + c'.copied := by
  cases h with
  | add content =>
    show (c.dest.alloc content Span.none).2.nodeCount + c.copied = _ + (c.copied + 1)
    rw [Store.nodeCount_alloc]
    omega
  | addList | addEntries | intern | report => rfl

/-- The destination grows by what is counted. -/
theorem Steps.copied_eq {c c' : Copier} (h : c.Steps c') :
    c'.dest.nodeCount + c.copied = c.dest.nodeCount + c'.copied := by
  induction h with
  | refl => rfl
  | tail _ h ih =>
    have := h.copied_eq
    omega

/-- A package that is copied in place counts for itself only. -/
theorem copied_package_inPlace {d : Nat} {c c' : Copier} {h h' : Handle .package}
    (hin : c.isInPlace = true) (hw : Copy.within d .package h c = .ok h' c') :
    c'.copied = c.copied + 1 := by
  have hsteps := ((Copy.stepwise_within d .package h).steps hw).copied_eq
  obtain ⟨name, r, es, -, -, -, hdest⟩ := within_package_inPlace hin hw
  have hsame : (c.dest.allocEntries es).2.nodeCount = c.dest.nodeCount := rfl
  rw [hdest, Store.nodeCount_alloc, hsame] at hsteps
  omega

/-! ## Texts and reports -/

/-- What a copier interned and reported on the way from `c` to `c'`: new texts are those
of the source, and a file is reported with the number of constructs in its tree. -/
structure Accounted (c c' : Copier) : Prop where
  steps : c.Steps c'
  texts : ∀ s ∈ c'.dest.interner.strings.toList,
    s ∈ c.dest.interner.strings.toList ∨ s ∈ c.source.interner.strings.toList
  files : ∀ h copy nodes, CopyEvent.file h copy nodes ∈ c'.log →
    .file h copy nodes ∈ c.log ∨ ∃ t, c'.source.unfold h.node = .ok t ∧ nodes = t.nodeCount

theorem Steps.source_interner_eq {c c' : Copier} (h : c.Steps c') :
    c'.source.interner = c.source.interner := by
  cases hin : c.isInPlace with
  | true =>
    rw [source_eq_dest hin, source_eq_dest (h.isInPlace_eq.trans hin), h.interner_eq hin]
  | false =>
    obtain ⟨s, hs⟩ : ∃ s, c.source? = some s := by
      simpa [isInPlace, Option.isNone_eq_false_iff, Option.isSome_iff_exists] using hin
    rw [source, source, h.source?_eq, hs]
    rfl

theorem unfold_later {c c' : Copier} (h : c.Steps c') {n : Node} {t : Tree}
    (ht : c.source.unfold n = .ok t) : c'.source.unfold n = .ok t :=
  Store.unfold_eq_ok.mpr ((Store.unfold_eq_ok (h := n.handle)).mp ht |>.grows h.source_grows)

theorem Accounted.trans {c c₁ c' : Copier} (h : c.Accounted c₁) (h' : c₁.Accounted c') :
    c.Accounted c' where
  steps := h.steps.trans h'.steps
  texts s hs := by
    rcases h'.texts s hs with hs | hs
    · exact h.texts s hs
    · rw [h.steps.source_interner_eq] at hs
      exact .inr hs
  files x copy nodes he := by
    rcases h'.files x copy nodes he with he | hfile
    · rcases h.files x copy nodes he with he | ⟨t, ht, hnodes⟩
      · exact .inl he
      · exact .inr ⟨t, unfold_later h'.steps ht, hnodes⟩
    · exact .inr hfile

/-- What neither interns nor reports. -/
theorem accounted_of_eq {c c' : Copier} (h : c.Steps c')
    (hinterner : c'.dest.interner = c.dest.interner) (hlog : c'.log = c.log) :
    c.Accounted c' where
  steps := h
  texts _ hs := .inl (hinterner ▸ hs)
  files _ _ _ he := .inl (hlog ▸ he)

/-- An interned text was there or is one of the source. -/
theorem accounted_intern {c : Copier} {y : Symbol} {text : String} (hin : c.isInPlace = false)
    (hy : c.source.textAt y = .ok text) :
    c.Accounted { c with dest := (c.dest.intern text).2 } where
  steps := .single (.intern text hin)
  texts s hs := by
    have hstrings := c.dest.interner.internAll_strings [text]
    have hs' : s ∈ (internAll Interner.intern c.dest.interner [text]).2.strings.toList := hs
    rw [hstrings, List.mem_append, newTexts, List.mem_eraseDups, List.mem_filter,
      List.mem_singleton] at hs'
    rcases hs' with hs | ⟨rfl, -⟩
    · exact .inl hs
    · exact .inr (Interner.mem_strings_iff.mpr ⟨y, Store.textAt_eq_ok.mp hy⟩)
  files _ _ _ he := .inl he

theorem chains_accounted : Copy.Chains Accounted where
  refl _ := accounted_of_eq .refl rfl rfl
  trans := .trans
  addList _ k items := accounted_of_eq (.single (.addList k items)) rfl rfl
  addEntries _ items := accounted_of_eq (.single (.addEntries items)) rfl rfl
  intern := accounted_intern
  reportNode c n :=
    { steps := .single (.report _)
      texts := fun _ hs => .inl hs
      files := fun x copy nodes he => by
        rcases Array.mem_push.mp he with he | he
        · exact .inl he
        · cases he }

end Copier

/-! ## Copies keep the books -/

namespace Copy

open Copier (Accounted chains_accounted)

/-- The copy of a node fails while its content is read or its fields are copied. -/
theorem within_succ_error {d : Nat} {k : Kind} {h : Handle k} {c c' : Copier} {e : CopyError}
    (hw : within (d + 1) k h c = .error e c') :
    c = c' ∨ ∃ content : Content k, content.values.mapM (value (within d)) c = .error e c' := by
  rcases bind_error.mp hw with hw | ⟨_, _, hget, hw⟩
  · cases hw
  obtain ⟨rfl, rfl⟩ := get_ok.mp hget
  rcases bind_error.mp hw with hw | ⟨content, _, hread, hw⟩
  · exact .inl (read_error.mp hw).1
  obtain ⟨-, rfl⟩ := read_ok.mp hread
  rcases bind_error.mp hw with hw | ⟨ws, c₁, -, hw⟩
  · exact .inr ⟨content, hw⟩
  -- nothing fails once the fields are copied
  rcases bind_error.mp hw with hw | ⟨copy, c₂, -, hw⟩
  · cases hw
  rcases bind_error.mp hw with hw | ⟨_, c₃, -, hw⟩
  · obtain ⟨log, hlog⟩ := reportCopy_eq c.copied h copy { content with values := ws } c₂
    rw [hlog] at hw
    cases hw
  · cases hw

/-- Of files, only the one that was copied is reported. -/
theorem mem_log_of_reportCopy {before : Nat} {k : Kind} {h copy : Handle k} {content : Content k}
    {c c' : Copier} (hr : reportCopy before h copy content c = .ok () c')
    {x y : Handle .file} {nodes : Nat} (he : CopyEvent.file x y nodes ∈ c'.log) :
    .file x y nodes ∈ c.log ∨ k = .file ∧ x.node = h.node ∧ nodes = c'.copied - before := by
  cases k with
  | file =>
    cases hr
    rcases Array.mem_push.mp he with he | he
    · exact .inl he
    · cases he
      exact .inr ⟨rfl, rfl, rfl⟩
  | package =>
    cases hr
    rcases Array.mem_push.mp he with he | he
    · exact .inl he
    · cases he
  | expr | stmt | decl | spec | field | fieldList | comment | commentGroup =>
    cases hr
    exact .inl he

/-- **The copy of a node keeps the books**, however it ends. -/
theorem accounted_within : ∀ (d : Nat) (k : Kind) (h : Handle k),
    Leads Accounted (within d k h)
  | 0, _, _ => leads_throw chains_accounted _
  | d + 1, k, h => by
    intro c
    have hvalues : ∀ content : Content k,
        Leads Accounted (content.values.mapM (value (within d))) := fun content =>
      leads_values chains_accounted (leads_value chains_accounted (accounted_within d))
        content.values
    cases hw : within (d + 1) k h c with
    | error e c' =>
      rw [after_error hw]
      rcases within_succ_error hw with rfl | ⟨content, hv⟩
      · exact chains_accounted.refl c
      · exact after_error hv ▸ hvalues content c
    | ok h' c' =>
      rw [after_ok hw]
      obtain ⟨content, ws, c₁, c₂, hc, hv, ha, hr⟩ := within_succ_ok hw
      have hfields : c.Accounted c₁ := after_ok hv ▸ hvalues content c
      have hadd : c₁.Steps c' := ((stepwise_add _).steps ha).trans
        ((stepwise_reportCopy _ _ _ _).steps hr)
      have hkept : c'.dest.interner = c₁.dest.interner := (effect_add ha hr).interner
      have hlog : c₂.log = c₁.log := by
        cases ha
        rfl
      refine hfields.trans ⟨hadd, fun s hs => .inl (hkept ▸ hs), fun x y nodes he => ?_⟩
      rcases mem_log_of_reportCopy hr he with he | ⟨rfl, hx, rfl⟩
      · exact .inl (hlog ▸ he)
      · -- the count rose by the size of the tree since the copy of the file began
        obtain ⟨t, ht, heffect⟩ := Copier.within_effect hw (by simp)
        have hcopied := heffect.copied
        exact .inr ⟨t, hx ▸ ht, by omega⟩

end Copy

namespace Copier

theorem perform_eq_ok {c c' : Copier} {r : CopyRequest} {a : CopyResult} :
    c.perform r = (.ok a, c') ↔ Copy.perform r c = .ok a c' := by
  unfold perform
  cases Copy.perform r c <;> simp

theorem accounted_perform (c : Copier) (r : CopyRequest) : c.Accounted (c.perform r).2 := by
  have h := Copy.leads_perform chains_accounted Copy.accounted_within r c
  unfold Copy.after at h
  unfold perform
  cases hr : Copy.perform r c <;> simpa [hr] using h

theorem accounted_run : ∀ (c : Copier) (rs : List CopyRequest), c.Accounted (c.run rs).2
  | c, [] => chains_accounted.refl c
  | c, r :: rs => (c.accounted_perform r).trans (accounted_run _ rs)

/-- **Counting.** A copier that was just created, in either mode, is asked for anything any
number of times. Then

* it has counted the nodes by which its destination grew;
* every copied file was reported with the number of constructs in its tree;
* a request for one node that succeeds raises the count by the number of constructs in
  the tree of the node, in the source as the request leaves it, or by one if it copies a
  package in place. -/
theorem run_copied (source? : Option Store) (dest : Store) (rs : List CopyRequest) :
    let c := (run { source? := source?, dest := dest } rs).2
    c.dest.nodeCount = dest.nodeCount + c.copied ∧
    (∀ h copy nodes, CopyEvent.file h copy nodes ∈ c.log →
      ∃ t, c.source.unfold h.node = .ok t ∧ nodes = t.nodeCount) ∧
    ∀ r n a c', r.node? = some n → c.perform r = (.ok a, c') →
      if c.isInPlace = true ∧ n.kind = .package then c'.copied = c.copied + 1
      else ∃ t, c'.source.unfold n = .ok t ∧ c'.copied = c.copied + t.nodeCount := by
  intro c
  have haccounted : Accounted { source? := source?, dest := dest } c := accounted_run _ rs
  refine ⟨haccounted.steps.copied_eq, fun h copy nodes he => ?_, fun r n a c' hn hok => ?_⟩
  · rcases haccounted.files h copy nodes he with he | hfile
    · simp at he
    · exact hfile
  · have hperform : Copy.perform r c = .ok a c' := perform_eq_ok.mp hok
    split
    · rename_i hp
      obtain ⟨hin, hk⟩ := hp
      obtain ⟨d, log, h', hw, -⟩ := perform_node_ok hn hperform
      obtain ⟨k, i⟩ := n
      subst hk
      exact copied_package_inPlace (c := { c with log := log }) hin hw
    · rename_i hp
      obtain ⟨t, ht, heffect⟩ := perform_node_effect hn hperform hp
      exact ⟨t, ht, heffect.copied⟩

end Copier

/-- Adds the package `x` with one file under two names. The file lists its own name among
those that it does not resolve. -/
def Store.addSharedFile (s : Store) : Handle .package × Store :=
  let x := s.addIdent "x" Span.none
  let names := x.2.allocList .expr [x.1]
  let file := names.2.alloc (.of .file (.cons none (.cons x.1 (.cons none (.cons none
    (.cons (some names.1) (.cons none .nil))))))) Span.none
  let first := file.2.intern "a.go"
  let second := first.2.intern "b.go"
  let files := second.2.allocEntries [⟨first.1, file.1⟩, ⟨second.1, file.1⟩]
  let name := files.2.intern "x"
  name.2.alloc (packageContent name.1 files.1) Span.none

/-- Two names are asked for, of which the second one does not resolve, then a package of
three nodes and seven occurrences, twice. In place the package is one node. -/
theorem copied_sharedFile :
    let src := Store.empty.addSharedFile.2
    let ask := CopyRequest.node (some ⟨.package, 0⟩)
    ∃ c there here : Copier,
      (Copier.run { source? := some src, dest := .empty }
        [.nodes (some [⟨.expr, 0⟩, ⟨.expr, 9⟩]), ask]).2 = c ∧
      c.copied = 8 ∧ c.dest.nodeCount = 8 ∧ CopyEvent.file ⟨0⟩ ⟨1⟩ 3 ∈ c.log ∧
      (∃ t, c.source.unfold ⟨.file, 0⟩ = .ok t ∧ 3 = t.nodeCount) ∧
      c.perform ask = (.ok (.node (some ⟨.package, 1⟩)), there) ∧ there.copied = 15 ∧
      (Copier.inPlace src).perform ask = (.ok (.node (some ⟨.package, 1⟩)), here) ∧
      here.copied = 1 := by
  intro src ask
  obtain ⟨hgrown, hfiles, hone⟩ := Copier.run_copied (some src) .empty
    [.nodes (some [⟨.expr, 0⟩, ⟨.expr, 9⟩]), ask]
  generalize hc : (Copier.run { source? := some src, dest := .empty }
    [.nodes (some [⟨.expr, 0⟩, ⟨.expr, 9⟩]), ask]).2 = c at hgrown hfiles hone
  have hcopied : c.copied = 8 := by rw [← hc]; decide +kernel
  have hcount : c.dest.nodeCount = 8 := by rw [hgrown, hcopied]; rfl
  have hfile : CopyEvent.file ⟨0⟩ ⟨1⟩ 3 ∈ c.log := by rw [← hc]; decide +kernel
  have hthere : (c.perform ask).1 = .ok (.node (some ⟨.package, 1⟩)) := by
    rw [← hc]
    decide +kernel
  have hsize : ((c.perform ask).2.source.unfold ⟨.package, 0⟩).map Tree.nodeCount = .ok 7 := by
    rw [← hc]
    decide +kernel
  have hmode : c.isInPlace = false := by rw [← hc]; decide +kernel
  have hpackage := hone ask ⟨.package, 0⟩ _ _ rfl (Prod.ext hthere rfl)
  rw [if_neg (by simp [hmode])] at hpackage
  obtain ⟨t, ht, hraised⟩ := hpackage
  rw [ht] at hsize
  have hhere : ((Copier.inPlace src).perform ask).1 = .ok (.node (some ⟨.package, 1⟩)) := by
    decide +kernel
  have hshared := (Copier.run_copied none src []).2.2 ask ⟨.package, 0⟩ _ _ rfl
    (Prod.ext hhere rfl)
  rw [if_pos ⟨rfl, rfl⟩] at hshared
  exact ⟨c, _, _, rfl, hcopied, hcount, hfile, hfiles _ _ _ hfile, Prod.ext hthere rfl,
    by rw [hraised, hcopied, Except.ok.inj hsize], Prod.ext hhere rfl, hshared⟩

end GoTree
