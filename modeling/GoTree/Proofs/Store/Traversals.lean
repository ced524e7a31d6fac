import GoTree.Proofs.Copy.Termination
/-!
# Traversals of stores that were built bottom up

A run of operations builds bottom up if each node that it adds refers to what is there
by then, and if it overwrites none. What copiers add needs no such condition, whatever
they read and however their requests end.

* `BottomUp.operate`, `BottomUp.run`: such a run keeps a store built bottom up.
* `copies_end`: requests to a copier that reads such a store.
* `bottomUp_traversals`: after such a run dumps, walks and copies end.
-/
namespace GoTree

/-- An operation that adds a node after what it refers to, and overwrites none. -/
def Operation.Supported (s : Store) : Operation → Prop
  | .alloc c _ => ∀ l ∈ c.links, s.Supports l
  | .package _ files _ => ∀ f ∈ files, s.Present f.2.node
  | .overwrite _ _ => False
  | .allocList _ _ | .allocEntries _ | .intern _ | .setSpan _ _ | .copy _ _ => True

instance (s : Store) : (op : Operation) → Decidable (op.Supported s)
  | .alloc c _ => inferInstanceAs (Decidable (∀ l ∈ c.links, s.Supports l))
  | .package _ files _ => inferInstanceAs (Decidable (∀ f ∈ files, s.Present f.2.node))
  | .overwrite _ _ => isFalse id
  | .allocList _ _ | .allocEntries _ | .intern _ | .setSpan _ _ | .copy _ _ => isTrue trivial

/-- A run of such operations, each in the store as it is by then. -/
def Store.SupportedRun (s : Store) : List Operation → Prop
  | [] => True
  | op :: ops => op.Supported s ∧ (s.operate op).2.SupportedRun ops

instance decidableSupportedRun : (s : Store) → (ops : List Operation) →
    Decidable (s.SupportedRun ops)
  | _, [] => isTrue trivial
  | s, op :: ops =>
    have := decidableSupportedRun (s.operate op).2 ops
    inferInstanceAs (Decidable (op.Supported s ∧ (s.operate op).2.SupportedRun ops))

/-! ## Runs of a copier -/

namespace Copier

theorem perform_eq_after (c : Copier) (r : CopyRequest) :
    (c.perform r).2 = Copy.after (Copy.perform r) c := by
  unfold perform Copy.after
  cases Copy.perform r c <;> rfl

theorem bottomUp_dest {c : Copier} (hc : c.dest.BottomUp) :
    ∀ rs : List CopyRequest, (c.run rs).2.dest.BottomUp := by
  intro rs
  induction rs generalizing c with
  | nil => exact hc
  | cons r rs ih =>
    have hafter := (Copy.builds_perform r c hc trivial).1
    rw [← perform_eq_after] at hafter
    exact ih hafter

/-- No request to a copier that reads a store that was built bottom up reports a
cycle. -/
theorem copies_end {c : Copier} (hc : c.source.BottomUp) :
    ∀ rs : List CopyRequest, .error (.fault .cycle) ∉ (c.run rs).1 := by
  intro rs
  induction rs generalizing c with
  | nil => exact List.not_mem_nil
  | cons r rs ih =>
    have hafter := Copy.bottomUp_source (Copy.builds_perform r) (Copy.stepwise_perform r) hc
    rw [← perform_eq_after] at hafter
    intro hmem
    rcases List.mem_cons.mp hmem with hnow | hlater
    · unfold perform at hnow
      cases h : Copy.perform r c with
      | ok a c' => simp [h] at hnow
      | error e c' =>
        simp only [h, Except.error.injEq] at hnow
        exact (Copy.ends_perform r c hc).2 e c' h hnow.symm
    · exact ih hafter hlater

end Copier

/-! ## Runs of operations -/

namespace Store

theorem BottomUp.internEntries : ∀ {s : Store} (_ : s.BottomUp)
    (files : List (String × Handle .file)), (s.internEntries files).2.BottomUp
  | _, hs, [] => hs
  | _, hs, (name, _) :: rest => (hs.intern name).internEntries rest

theorem files_internEntries : ∀ (s : Store) (files : List (String × Handle .file)),
    (s.internEntries files).1.map (·.file) = files.map (·.2)
  | _, [] => rfl
  | s, (name, file) :: rest => congrArg (file :: ·) (files_internEntries (s.intern name).2 rest)

/-- A package of files that are there. -/
theorem BottomUp.addPackage {s : Store} (hs : s.BottomUp) (name : String)
    {files : List (String × Handle .file)} (hfiles : ∀ f ∈ files, s.Present f.2.node)
    (span : Span) : (s.addPackage name files span).2.BottomUp := by
  unfold Store.addPackage
  generalize hsorted : files.mergeSort (fun a b => nameLE a.1 b.1) = sorted
  have hname := hs.intern name
  have hentries := hname.internEntries sorted
  refine (hentries.allocEntries _).alloc (fun l hl => ?_) span
  obtain rfl : l = .entries _ := List.mem_singleton.mp hl
  have hr := (((s.intern name).2.internEntries sorted).2).entriesAt_allocEntries
    ((s.intern name).2.internEntries sorted).1
  refine ⟨_, map_eq_ok.mpr ⟨_, hr, rfl⟩, fun n hn => ?_⟩
  obtain ⟨e, he, rfl⟩ := List.mem_map.mp hn
  have hfile : e.file ∈ sorted.map (·.2) := by
    rw [← files_internEntries (s.intern name).2 sorted]
    exact List.mem_map_of_mem he
  obtain ⟨f, hf, hfe⟩ := List.mem_map.mp hfile
  rw [← hsorted, List.mem_mergeSort] at hf
  rw [← hfe]
  have g := (s.grows_intern name).trans (grows_internEntries _ sorted)
  exact (hfiles f hf).grows (g.trans (grows_allocEntries _ _))

/-- An operation keeps a store built bottom up. -/
theorem BottomUp.operate {s : Store} (hs : s.BottomUp) :
    ∀ {op : Operation}, op.Supported s → (s.operate op).2.BottomUp
  | .alloc _ span, hop => hs.alloc hop span
  | .allocList k items, _ => hs.allocList k items
  | .allocEntries items, _ => hs.allocEntries items
  | .intern text, _ => hs.intern text
  | .package name _ span, hop => hs.addPackage name hop span
  | .setSpan n span, _ => by
    show (s.orSame (s.setSpan n span)).2.BottomUp
    cases h : s.setSpan n span with
    | ok t => exact hs.setSpan h
    | error d => exact hs
  | .overwrite _ _, hop => hop.elim
  | .copy _ rs, _ => Copier.bottomUp_dest hs rs

theorem BottomUp.run {s : Store} (hs : s.BottomUp) {ops : List Operation}
    (hops : s.SupportedRun ops) : (s.run ops).2.BottomUp := by
  induction ops generalizing s with
  | nil => exact hs
  | cons op ops ih => exact ih (hs.operate hops.1) hops.2

/-- **Traversals end.** Over any run that builds bottom up, mixed with copies, a store
stays built bottom up. No dump and no walk of it reports a cycle, from any root and with
any visitor, nor does any copy out of it or inside it, and whatever is copied into it
leaves it built bottom up. -/
theorem bottomUp_traversals {s : Store} (hs : s.BottomUp) {ops : List Operation}
    (hops : s.SupportedRun ops) :
    let t := (s.run ops).2
    t.BottomUp ∧
      (∀ root, t.dump root ≠ .error .cycle) ∧
      (∀ (σ β : Type) (visit : Visitor σ β) root st,
        t.walk visit root st ≠ .error .cycle ∧ t.walkChildren visit root st ≠ .error .cycle) ∧
      (∀ dest rs, .error (.fault .cycle) ∉ ((Copier.across t dest).run rs).1) ∧
      (∀ rs, .error (.fault .cycle) ∉ ((Copier.inPlace t).run rs).1) ∧
      ∀ source rs, ((Copier.across source t).run rs).2.dest.BottomUp ∧
        ((Copier.inPlace t).run rs).2.dest.BottomUp := by
  intro t
  have ht : t.BottomUp := hs.run hops
  have hg := ht.grounded
  refine ⟨ht, hg.ends_dump, fun σ β visit root st => ?_, fun dest rs => ?_, fun rs => ?_,
    fun source rs => ⟨?_, ?_⟩⟩
  · exact ⟨hg.ends_walk visit root st, hg.ends_walkChildren visit root st⟩
  · exact Copier.copies_end (c := Copier.across t dest) ht rs
  · exact Copier.copies_end (c := Copier.inPlace t) ht rs
  · exact Copier.bottomUp_dest (c := Copier.across source t) ht rs
  · exact Copier.bottomUp_dest (c := Copier.inPlace t) ht rs

/-- Builds `x + x` with one operand, copies it in place together with a handle that does
not resolve, and adds the copy to the sum. -/
def extendedDouble : List Operation :=
  [.intern "x",
    .alloc (.of .ident (.cons (empty.intern "x").1 .nil)) Span.none,
    .alloc (.of .binaryExpr (.cons ⟨0⟩ (.cons BinaryOp.add (.cons ⟨0⟩ .nil)))) Span.none,
    .copy none [.node (some ⟨.expr, 1⟩), .node (some ⟨.expr, 9⟩)],
    .alloc (.of .binaryExpr (.cons ⟨4⟩ (.cons BinaryOp.add (.cons ⟨1⟩ .nil)))) Span.none]

theorem traversals_extendedDouble :
    let t := (empty.run extendedDouble).2
    empty.SupportedRun extendedDouble ∧ t.BottomUp ∧ t.dump ⟨.expr, 5⟩ ≠ .error .cycle ∧
      .error (.fault .cycle) ∉ ((Copier.inPlace t).run [.node (some ⟨.expr, 5⟩)]).1 ∧
      ((Copier.inPlace t).run [.node (some ⟨.expr, 5⟩)]).1 = [.ok (.node (some ⟨.expr, 12⟩))] := by
  intro t
  have hops : empty.SupportedRun extendedDouble := by decide +kernel
  obtain ⟨ht, hdump, -, -, hcopies, -⟩ := bottomUp_traversals .empty hops
  exact ⟨hops, ht, hdump _, hcopies _, by decide +kernel⟩

/-- An overwritten node may lie below itself. -/
example :
    let x := empty.addIdent "x" Span.none
    (do (← orFault (x.2.setContent x.1 (.of .starExpr (.cons x.1 .nil)))).dump x.1.node) =
      .error .cycle := by decide +kernel

end Store
end GoTree
