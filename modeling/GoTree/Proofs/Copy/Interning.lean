import GoTree.Proofs.Copy.Accounts
/-!
# What copies intern

Across stores the symbols of the source mean nothing, so a copier interns the texts behind
them in the destination. What the destination holds in the end is a matter of the texts
alone: those of the copied trees, from left to right, without the ones that are there.
A request that fails leaves behind what it interned before. In place all texts are there.

* `Effect.strings`: the texts after a copy that succeeds.
* `Accounted.strings`: new texts come from the source, however a request ends.
* `run_perform_strings`: both, for every request after any others.
-/
namespace GoTree

namespace Copier

/-- The texts of the destination, in the order of their symbols. -/
def strings (c : Copier) : List String := c.dest.interner.strings.toList

theorem nodup_strings (c : Copier) : c.strings.Nodup := c.dest.interner.nodup_strings

theorem Effect.strings {c c' : Copier} {nodes : Nat} {texts : List String}
    (h : c.Effect c' nodes texts) : c'.strings = c.strings ++ newTexts c.strings texts := by
  rw [Copier.strings, h.interner, Interner.internAll_strings]
  rfl

/-- What a copier interns comes from the source. -/
theorem Accounted.strings {c c' : Copier} (h : c.Accounted c') :
    ∃ added, c'.strings = c.strings ++ added ∧
      ∀ s ∈ added, s ∈ c.source.interner.strings.toList := by
  obtain ⟨added, hgrown⟩ := h.steps.grows.strings
  have hadded : c'.strings = c.strings ++ added := hgrown.symm
  have hnodup := c'.nodup_strings
  rw [hadded] at hnodup
  refine ⟨added, hadded, fun s hs => ?_⟩
  have hnew : s ∈ c'.strings := by
    rw [hadded]
    exact List.mem_append_right _ hs
  rcases h.texts s hnew with hold | hsource
  · exact absurd hs (List.disjoint_of_nodup_append hnodup hold)
  · exact hsource

/-- **Interning.** A copier that was just created is asked for anything any number of times,
and then once more. In place the last request leaves the texts as they were. Across stores

* if it succeeds, the texts of the trees that it asked for are appended which were not there,
  each where it first occurs in the trees from left to right;
* if it fails, some texts of the source are appended;
* the texts stay pairwise distinct. -/
theorem run_perform_strings (source? : Option Store) (dest : Store)
    (earlier : List CopyRequest) (r : CopyRequest) :
    let c := (run { source? := source?, dest := dest } earlier).2
    let c' := (c.perform r).2
    match source? with
    | none => c'.strings = c.strings
    | some S =>
      (∀ a, (c.perform r).1 = .ok a → ∃ ts, S.requested r = .ok ts ∧
        c'.strings = c.strings ++ newTexts c.strings (Tree.textsAll ts)) ∧
      (∃ added, c'.strings = c.strings ++ added ∧
        ∀ s ∈ added, s ∈ S.interner.strings.toList) ∧
      c'.strings.Nodup := by
  intro c c'
  have hsource : c.source? = source? := (steps_run _ earlier).source?_eq
  cases source? with
  | none =>
    have hin : c.isInPlace = true := by rw [isInPlace, hsource]; rfl
    exact congrArg (·.strings.toList) ((c.steps_perform r).interner_eq hin)
  | some S =>
    refine ⟨fun a ha => ?_, ?_, c'.nodup_strings⟩
    · have hperform : Copy.perform r c = .ok a c' := perform_eq_ok.mp (Prod.ext ha rfl)
      obtain ⟨ts, hts, heffect⟩ := perform_across_effect hsource hperform
      exact ⟨ts, hts, heffect.strings⟩
    · have hS : c.source = S := by rw [source, hsource]; rfl
      rw [← hS]
      exact (c.accounted_perform r).strings

end Copier

/-- A package goes to a store that holds one of its texts. Before it two names are asked for,
of which the second one does not resolve: the first one is interned all the same. -/
theorem strings_sharedFile :
    let src := Store.empty.addSharedFile.2
    let dest := (Store.empty.intern "b.go").2
    ∃ c c' : Copier,
      (Copier.run { source? := some src, dest := dest }
        [.nodes (some [⟨.expr, 0⟩, ⟨.expr, 9⟩])]).2 = c ∧
      c.perform (.node (some ⟨.package, 0⟩)) = (.ok (.node (some ⟨.package, 0⟩)), c') ∧
      c.strings = ["b.go", "x"] ∧
      c'.strings = c.strings ++ newTexts c.strings ["x", "a.go", "x", "x", "b.go", "x", "x"] ∧
      c'.strings = ["b.go", "x", "a.go"] ∧ c'.strings.Nodup := by
  intro src dest
  obtain ⟨hsuccess, -, hnodup⟩ := Copier.run_perform_strings (some src) dest
    [.nodes (some [⟨.expr, 0⟩, ⟨.expr, 9⟩])] (.node (some ⟨.package, 0⟩))
  generalize hc : (Copier.run { source? := some src, dest := dest }
    [.nodes (some [⟨.expr, 0⟩, ⟨.expr, 9⟩])]).2 = c at hsuccess hnodup
  have hstrings : c.strings = ["b.go", "x"] := by rw [← hc]; decide +kernel
  have hanswer : (c.perform (.node (some ⟨.package, 0⟩))).1 = .ok (.node (some ⟨.package, 0⟩)) := by
    rw [← hc]
    decide +kernel
  have htexts : (src.requested (.node (some ⟨.package, 0⟩))).map Tree.textsAll =
      .ok ["x", "a.go", "x", "x", "b.go", "x", "x"] := by decide +kernel
  obtain ⟨ts, hts, hnew⟩ := hsuccess _ hanswer
  rw [hts] at htexts
  rw [Except.ok.inj htexts] at hnew
  refine ⟨c, _, rfl, Prod.ext hanswer rfl, hstrings, hnew, ?_, hnodup⟩
  rw [hnew, hstrings]
  decide +kernel

end GoTree
