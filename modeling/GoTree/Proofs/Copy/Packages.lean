import GoTree.Proofs.Copy.Accounts
import GoTree.Proofs.Copy.Termination
import GoTree.Proofs.Store.Operations
/-!
# Files of copied packages

A look-up in a package takes the first entry whose name has the given text. The copy of a
package has an entry for each entry, in their order and with the same texts for names, so
a look-up in it takes the entry at the same place. Across stores that is a file of its own
with the same content, also where two entries name one file; in place it is the same file.

* `Alike.find_entry`: look-ups among entries that are alike.
* `Isolated.nodup_files`: the entries of a package that was added on its own hold as many
  files as there are entries.
* `run_packageFile`: look-ups in every copy of a package that a copier made.
-/
namespace GoTree

namespace Store

/-- The entries of a package. -/
def entriesOf (s : Store) (p : Handle .package) : Except Dangling (List Entry) := do
  s.entriesAt (packageEntries (← s.contentAt p))

theorem entriesOf_eq_ok {s : Store} {p : Handle .package} {name : Symbol} {r : ListRef}
    {es : List Entry} (hc : s.contentAt p = .ok (packageContent name r))
    (hr : s.entriesAt r = .ok es) : s.entriesOf p = .ok es :=
  bind_eq_ok.mpr ⟨_, hc, hr⟩

/-- A package whose entries resolve is a package content with a range that does. -/
theorem exists_of_entriesOf {s : Store} {p : Handle .package} {es : List Entry}
    (h : s.entriesOf p = .ok es) :
    ∃ name r, s.contentAt p = .ok (packageContent name r) ∧ s.entriesAt r = .ok es := by
  obtain ⟨content, hc, hr⟩ := bind_eq_ok.mp h
  obtain ⟨name, r, rfl⟩ := exists_packageContent content
  exact ⟨name, r, hc, hr⟩

theorem Grows.entriesOf {s t : Store} (g : s.Grows t) {p : Handle .package} {es : List Entry}
    (h : s.entriesOf p = .ok es) : t.entriesOf p = .ok es := by
  obtain ⟨name, r, hc, hr⟩ := exists_of_entriesOf h
  exact entriesOf_eq_ok (g.contentAt hc) (g.entriesAt hr)

/-- The file of the first entry whose name has the given text. -/
def findFile (s : Store) (es : List Entry) (name : String) : Option (Handle .file) :=
  (es.find? fun e => s.text? e.name == some name).map (·.file)

theorem packageFile_eq {s : Store} {p : Handle .package} {es : List Entry}
    (h : s.entriesOf p = .ok es) (name : String) :
    s.packageFile p name = .ok (s.findFile es name) := by
  obtain ⟨content, hc, hr⟩ := bind_eq_ok.mp h
  simp only [packageFile, hc, bind, Except.bind, hr]
  rfl

/-! ## Packages that are alike -/

theorem findFile_cons {s : Store} {e : Entry} {es : List Entry} {text : String}
    (he : s.textAt e.name = .ok text) (name : String) :
    s.findFile (e :: es) name = if text = name then some e.file else s.findFile es name := by
  rw [textAt_eq_ok] at he
  by_cases h : text = name
  · simp [findFile, he, h]
  · rw [findFile, List.find?_cons_of_neg (by simpa [he] using h), if_neg h, findFile]

end Store

/-- Look-ups among entries that are alike give files that are alike. -/
theorem Alike.find_entry {A B : Store} (name : String) : ∀ {es es' : List Entry},
    Alike A B .entries es es' →
      Option.Rel (Alike A B (.node .file)) (A.findFile es name) (B.findFile es' name)
  | _, _, .entriesNil => .none
  | _, _, .entriesCons hn hn' hf he => by
    rw [Store.findFile_cons hn, Store.findFile_cons hn']
    split
    · exact .some hf
    · exact he.find_entry name

theorem Alike.length_entries {A B : Store} : ∀ {es es' : List Entry},
    Alike A B .entries es es' → es.length = es'.length
  | _, _, .entriesNil => rfl
  | _, _, .entriesCons _ _ _ he => congrArg (· + 1) he.length_entries

theorem Alike.exists_entries {A B : Store} {p q : Handle .package}
    (h : Alike A B (.node .package) p q) :
    ∃ es es', A.entriesOf p = .ok es ∧ B.entriesOf q = .ok es' ∧ Alike A B .entries es es' := by
  cases h with
  | @node _ _ _ tag hk vs ws hc hc' hv =>
    obtain ⟨name, r, hcontent⟩ := exists_packageContent ⟨tag, vs, hk⟩
    cases hcontent
    cases hv with
    | valuesCons _ hv =>
      cases hv with
      | valuesCons hfiles hv =>
        cases hfiles with
        | package hr hr' he =>
          cases hv
          exact ⟨_, _, Store.entriesOf_eq_ok hc hr, Store.entriesOf_eq_ok hc' hr', he⟩

theorem Store.SharesEntries.exists_entries {s : Store} {p q : Handle .package}
    (h : s.SharesEntries p q) : ∃ es, s.entriesOf p = .ok es ∧ s.entriesOf q = .ok es := by
  obtain ⟨name, r, r', es, hc, hc', hr, hr'⟩ := h
  exact ⟨es, entriesOf_eq_ok hc hr, entriesOf_eq_ok hc' hr'⟩

/-! ## New files -/

namespace Store

/-- A package that was added on its own has new files, one for each entry. -/
theorem Isolated.nodup_files {s t : Store} {q : Handle .package} {es : List Entry}
    (h : Isolated s t q.node) (hes : t.entriesOf q = .ok es) :
    (es.map (·.file)).Nodup ∧ ∀ e ∈ es, e.file.node ∈ s.added t := by
  obtain ⟨name, r, hc, hr⟩ := exists_of_entriesOf hes
  have hrefs := references_package hc hr
  have hfiles : ∀ e ∈ es, e.file.node ∈ s.added t := by
    intro e he
    refine (h.reachable _).mp (.single ?_)
    rw [hrefs]
    exact List.mem_map_of_mem he
  refine ⟨?_, hfiles⟩
  have hnodup : (es.map fun e => e.file.node).Nodup := by
    rw [List.nodup_iff_count_le_one]
    intro n
    by_cases hn : n ∈ es.map fun e => e.file.node
    · obtain ⟨e, he, rfl⟩ := List.mem_map.mp hn
      -- among all references of what was added there is one to the file
      have honce := h.once _ (hfiles e he) fun heq => by cases congrArg Node.kind heq
      obtain ⟨before, after, hsplit⟩ := List.append_of_mem ((h.reachable q.node).mp .refl)
      rw [hsplit, List.flatMap_append, List.flatMap_cons, List.count_append, List.count_append,
        hrefs] at honce
      omega
    · rw [List.count_eq_zero_of_not_mem hn]
      exact Nat.zero_le 1
  have hcomp : (es.map fun e => e.file.node) = (es.map (·.file)).map Handle.node := by simp
  rw [hcomp] at hnodup
  exact hnodup.of_map

end Store

/-! ## Look-ups in copies -/

namespace Copier

/-- The package `q` is a copy of `p` across stores, and its files are copies that were made
after the state `c₀`, one for each entry. -/
structure CopiedFiles (c₀ c : Copier) (p q : Handle .package) : Prop where
  lookup : ∀ name, ∃ f? g?, c.source.packageFile p name = .ok f? ∧
    c.dest.packageFile q name = .ok g? ∧
    Option.Rel (fun f g => ∃ text, c.source.dump f.node = .ok text ∧
      c.dest.dump g.node = .ok text) f? g?
  files : ∃ es es', c.source.entriesOf p = .ok es ∧ c.dest.entriesOf q = .ok es' ∧
    es.length = es'.length ∧ (es'.map (·.file)).Nodup ∧
    ∀ e ∈ es', e.file.node ∈ c₀.dest.added c.dest

/-- If `n` is a package, `m` is one that shares its entries, or holds the same content in
files that were added since `c₀`. -/
def PackageCopy (c₀ c : Copier) (n m : Node) : Prop :=
  ∀ p : Handle .package, n = p.node → ∃ q : Handle .package, m = q.node ∧
    if c.isInPlace = true then c.dest.SharesEntries p q
    else Alike c.source c.dest (.node .package) p q ∧
      ∃ es, c.dest.entriesOf q = .ok es ∧ (es.map (·.file)).Nodup ∧
        ∀ e ∈ es, e.file.node ∈ c₀.dest.added c.dest

theorem PackageCopy.wider {c₀ c c' c₁ : Copier} {n m : Node} (hbefore : c₀.Steps c)
    (hafter : c'.Steps c₁) (h : c.PackageCopy c' n m) : c₀.PackageCopy c₁ n m := by
  intro p hp
  obtain ⟨q, hq, hcopy⟩ := h p hp
  refine ⟨q, hq, ?_⟩
  rw [hafter.isInPlace_eq]
  split at hcopy
  · rename_i hin
    rw [if_pos hin]
    exact hcopy.grows hafter.grows
  · rename_i hin
    rw [if_neg hin]
    obtain ⟨ha, es, hes, hnodup, hnew⟩ := hcopy
    exact ⟨hafter.alike ha, es, hafter.grows.entriesOf hes, hnodup, fun e he =>
      Store.mem_added_mono hbefore.grows hafter.grows (hnew e he)⟩

theorem packageCopy_within {d : Nat} {c c' : Copier} {k : Kind} {h h' : Handle k}
    (hw : Copy.within d k h c = .ok h' c') : c.PackageCopy c' h.node h'.node := by
  intro p hp
  obtain rfl : k = .package := congrArg Node.kind hp
  obtain rfl : h = p := by
    cases h
    cases p
    cases hp
    rfl
  refine ⟨h', rfl, ?_⟩
  rw [((Copy.stepwise_within d _ h).steps hw).isInPlace_eq]
  split
  · rename_i hin
    exact sharesEntries_within hin hw
  · rename_i hin
    have hcopies : Copies c (.node .package) h h' c' := copies_within hw fun hin' => absurd hin' hin
    obtain ⟨-, es, -, hes, -⟩ := hcopies.alike.exists_entries
    exact ⟨hcopies.alike, es, hes, hcopies.fresh.isolated.nodup_files hes⟩

theorem copiedFiles_of_alike {c₀ c : Copier} {p q : Handle .package} {es : List Entry}
    (ha : Alike c.source c.dest (.node .package) p q) (hes : c.dest.entriesOf q = .ok es)
    (hnodup : (es.map (·.file)).Nodup) (hnew : ∀ e ∈ es, e.file.node ∈ c₀.dest.added c.dest) :
    c₀.CopiedFiles c p q := by
  obtain ⟨es₀, es', hes₀, hes', he⟩ := ha.exists_entries
  obtain rfl : es' = es := Except.ok.inj (hes'.symm.trans hes)
  refine ⟨fun name => ?_, es₀, es', hes₀, hes', he.length_entries, hnodup, hnew⟩
  have hfind := he.find_entry name
  refine ⟨_, _, Store.packageFile_eq hes₀ name, Store.packageFile_eq hes' name, ?_⟩
  generalize c.source.findFile es₀ name = f?, c.dest.findFile es' name = g? at hfind
  cases hfind with
  | none => exact .none
  | some hfile =>
    obtain ⟨t, ht, hu⟩ := hfile.exists_unfolds
    exact .some ⟨t.print, Store.dump_eq_ok.mpr ⟨t, ht, rfl⟩, Store.dump_eq_ok.mpr ⟨t, hu, rfl⟩⟩

/-- **Look-ups.** After any sequence of requests to any copier, every copy `q` of a package
`p` that it made finds under each name what `p` finds there. In place that is the same
file. Across stores it is a file that was added meanwhile and is printed alike, and no two
entries of the copy hold the same file. -/
theorem run_packageFile (c : Copier) (rs : List CopyRequest) :
    let d := (c.run rs).2
    List.Forall₂ (fun r answer => ∀ a, answer = .ok a →
      d.Gives (fun n m => ∀ p : Handle .package, n = p.node →
        ∃ q : Handle .package, m = q.node ∧
          if d.isInPlace = true then
            ∀ name, ∃ f?, d.dest.packageFile p name = .ok f? ∧ d.dest.packageFile q name = .ok f?
          else c.CopiedFiles d p q) r a) rs (c.run rs).1 := by
  intro d
  have hcopies := gives_run_since packageCopy_within (fun hb ha h => h.wider hb ha) c rs
  refine hcopies.imp fun r answer hanswer a ha => (hanswer a ha).later .refl ?_
  intro n m hcopy p hp
  obtain ⟨q, hq, hcopy⟩ := hcopy p hp
  refine ⟨q, hq, ?_⟩
  split at hcopy
  · rename_i hin
    rw [if_pos hin]
    obtain ⟨es, hes, hes'⟩ := hcopy.exists_entries
    exact fun name => ⟨_, Store.packageFile_eq hes name, Store.packageFile_eq hes' name⟩
  · rename_i hin
    rw [if_neg hin]
    obtain ⟨ha, es, hes, hnodup, hnew⟩ := hcopy
    exact copiedFiles_of_alike ha hes hnodup hnew

end Copier

/-- One file under two names. The copy across stores, into the store that it came from, has
a new file under each name; the copy in place has the file itself under both. -/
theorem packageFile_sharedFile :
    let src := Store.empty.addSharedFile.2
    let ask := CopyRequest.node (some ⟨.package, 0⟩)
    ∃ there here : List (Except CopyError CopyResult) × Copier,
      (Copier.across src src).run [ask] = there ∧ there.1 = [.ok (.node (some ⟨.package, 1⟩))] ∧
      (Copier.across src src).CopiedFiles there.2 ⟨0⟩ ⟨1⟩ ∧
      there.2.dest.packageFile ⟨1⟩ "a.go" = .ok (some ⟨1⟩) ∧
      there.2.dest.packageFile ⟨1⟩ "b.go" = .ok (some ⟨2⟩) ∧
      (Copier.inPlace src).run [ask] = here ∧ here.1 = [.ok (.node (some ⟨.package, 1⟩))] ∧
      (∀ name, ∃ f?, here.2.dest.packageFile ⟨0⟩ name = .ok f? ∧
        here.2.dest.packageFile ⟨1⟩ name = .ok f?) ∧
      here.2.dest.packageFile ⟨1⟩ "b.go" = .ok (some ⟨0⟩) := by
  intro src ask
  have hthere := Copier.run_packageFile (Copier.across src src) [ask]
  have hhere := Copier.run_packageFile (Copier.inPlace src) [ask]
  generalize ho : (Copier.across src src).run [ask] = there at hthere
  generalize hi : (Copier.inPlace src).run [ask] = here at hhere
  have hanswer : there.1 = [.ok (.node (some ⟨.package, 1⟩))] := by rw [← ho]; decide +kernel
  have hanswer' : here.1 = [.ok (.node (some ⟨.package, 1⟩))] := by rw [← hi]; decide +kernel
  refine ⟨there, here, rfl, hanswer, ?_, by rw [← ho]; decide +kernel,
    by rw [← ho]; decide +kernel, rfl, hanswer', ?_, by rw [← hi]; decide +kernel⟩
  · rw [hanswer] at hthere
    obtain ⟨hfirst, -⟩ := List.forall₂_cons.mp hthere
    cases hfirst _ rfl with
    | some hcopy =>
      obtain ⟨⟨i⟩, hq, hfiles⟩ := hcopy ⟨0⟩ rfl
      cases hq
      rwa [if_neg (by rw [← ho]; decide +kernel)] at hfiles
  · rw [hanswer'] at hhere
    obtain ⟨hfirst, -⟩ := List.forall₂_cons.mp hhere
    cases hfirst _ rfl with
    | some hcopy =>
      obtain ⟨⟨i⟩, hq, hfiles⟩ := hcopy ⟨0⟩ rfl
      cases hq
      rwa [if_pos (by rw [← hi]; decide +kernel)] at hfiles

end GoTree
