import GoTree.Proofs.Copy.Packages
/-!
# Making packages

A package is made of pairs of a file name and a file, which come in any order and may
repeat a name. Its entries are sorted by name, so that the order of the pairs survives
only among pairs of one name. A look-up takes the first entry with the name, and that is
why it still finds the pair that came first.

* `nameLE_iff`: names are compared as sequences of bytes.
* `filter_sortedPairs`, `find?_sortedPairs`: sorting keeps the order among equal names.
* `isPackage_addPackage`: the entries of a new package, read back.
* `contentAt_run`: what no operation overwrites keeps its content.
* `run_addPackage`: entries and look-ups of a new package, after any later run.
-/
namespace GoTree

/-- The node that an operation overwrites. -/
def Operation.overwritten? : Operation → Option Node
  | .overwrite n _ => some n
  | _ => none

namespace Store

/-! ## The order of names -/

/-- Sequences of bytes are compared in the order of lists, which goes item by item and has
the shorter one first. -/
theorem bytesLE_iff : ∀ {a b : List UInt8}, bytesLE a b = true ↔ a ≤ b
  | [], b => by simp [bytesLE]
  | x :: xs, [] => by simp [bytesLE]
  | x :: xs, y :: ys => by
    rw [bytesLE, List.cons_le_cons_iff]
    by_cases hxy : x = y
    · subst hxy
      simp [bytesLE_iff]
    · simp [hxy]

theorem nameLE_refl (a : String) : nameLE a a = true := bytesLE_iff.mpr (List.le_refl _)

theorem nameLE_trans {a b c : String} (hab : nameLE a b = true) (hbc : nameLE b c = true) :
    nameLE a c = true :=
  bytesLE_iff.mpr (List.le_trans (bytesLE_iff.mp hab) (bytesLE_iff.mp hbc))

theorem nameLE_total (a b : String) : (nameLE a b || nameLE b a) = true := by
  rw [Bool.or_eq_true, nameLE, nameLE, bytesLE_iff, bytesLE_iff]
  exact List.le_total _ _

/-- One name comes before another by its bytes, or is the same. -/
theorem nameLE_iff {a b : String} : nameLE a b = true ↔
    a = b ∨ List.Lex (fun x y => x < y) a.toUTF8.data.toList b.toUTF8.data.toList := by
  have hsame : a.toUTF8.data.toList = b.toUTF8.data.toList ↔ a = b := by
    rw [Array.toList_inj, ← ByteArray.ext_iff]
    exact String.toByteArray_inj
  rw [nameLE, bytesLE_iff, List.le_iff_lt_or_eq, hsame, or_comm]
  rfl

/-! ## Sorted pairs -/

/-- The pairs of a package in the order of its entries. -/
def sortedPairs (files : List (String × Handle .file)) : List (String × Handle .file) :=
  files.mergeSort fun a b => nameLE a.1 b.1

theorem perm_sortedPairs (files : List (String × Handle .file)) :
    (sortedPairs files).Perm files :=
  List.mergeSort_perm _ _

theorem pairwise_sortedPairs (files : List (String × Handle .file)) :
    (sortedPairs files).Pairwise fun a b => nameLE a.1 b.1 = true := by
  refine List.pairwise_mergeSort (fun a b c => ?_) (fun a b => ?_) files
  · exact nameLE_trans
  · exact nameLE_total a.1 b.1

/-- Pairs of one name keep their order. -/
theorem filter_sortedPairs (files : List (String × Handle .file)) (name : String) :
    (sortedPairs files).filter (·.1 = name) = files.filter (·.1 = name) := by
  have hsame : (files.filter (·.1 = name)).Pairwise fun a b => nameLE a.1 b.1 = true := by
    rw [List.pairwise_filter]
    refine List.pairwise_of_forall fun a b ha hb => ?_
    rw [decide_eq_true_iff] at ha hb
    rw [ha, hb]
    exact nameLE_refl name
  have hsub : (files.filter (·.1 = name)).Sublist (sortedPairs files) := by
    refine List.sublist_mergeSort (fun a b c => ?_) (fun a b => ?_) hsame List.filter_sublist
    · exact nameLE_trans
    · exact nameLE_total a.1 b.1
  have hsub' := hsub.filter (·.1 = name)
  simp only [List.filter_filter, Bool.and_self] at hsub'
  have hlen := ((perm_sortedPairs files).filter (·.1 = name)).length_eq
  exact (hsub'.eq_of_length hlen.symm).symm

theorem find?_sortedPairs (files : List (String × Handle .file)) (name : String) :
    (sortedPairs files).find? (·.1 = name) = files.find? (·.1 = name) := by
  rw [← List.head?_filter, ← List.head?_filter, filter_sortedPairs]

/-! ## Entries with their names -/

/-- An entry with the text of its name. -/
def namedFile (s : Store) (e : Entry) : Except Dangling (String × Handle .file) := do
  return (← s.textAt e.name, e.file)

/-- The files of a package with the texts of their names, in the order of the entries. -/
def namedFiles (s : Store) (p : Handle .package) :
    Except Dangling (List (String × Handle .file)) := do
  (← s.entriesOf p).mapM s.namedFile

theorem namedFile_eq_ok {s : Store} {e : Entry} {f : String × Handle .file} :
    s.namedFile e = .ok f ↔ s.textAt e.name = .ok f.1 ∧ e.file = f.2 := by
  simp only [namedFile, bind_eq_ok, pure_eq_ok]
  constructor
  · rintro ⟨text, htext, rfl⟩
    exact ⟨htext, rfl⟩
  · rintro ⟨htext, hfile⟩
    exact ⟨f.1, htext, by rw [hfile]⟩

theorem Remembers.namedFile {s t : Store} (h : s.Remembers t) {e : Entry}
    {f : String × Handle .file} (hf : s.namedFile e = .ok f) : t.namedFile e = .ok f := by
  obtain ⟨htext, hfile⟩ := namedFile_eq_ok.mp hf
  exact namedFile_eq_ok.mpr ⟨h.texts htext, hfile⟩

/-- A look-up takes the first pair with the name. -/
theorem findFile_eq {s : Store} (name : String) : ∀ {es : List Entry}
    {fs : List (String × Handle .file)}, es.mapM s.namedFile = .ok fs →
      s.findFile es name = (fs.find? (·.1 = name)).map (·.2)
  | [], _, h => by
    obtain rfl := pure_eq_ok.mp h
    rfl
  | e :: es, _, h => by
    obtain ⟨f, fs, hf, hfs, rfl⟩ := mapM_cons_eq_ok.mp h
    obtain ⟨htext, hfile⟩ := namedFile_eq_ok.mp hf
    rw [findFile_cons htext, findFile_eq name hfs, List.find?_cons]
    by_cases hname : f.1 = name <;> simp [hname, hfile]

theorem packageFile_eq_find? {s : Store} {p : Handle .package}
    {fs : List (String × Handle .file)} (h : s.namedFiles p = .ok fs) (name : String) :
    s.packageFile p name = .ok ((fs.find? (·.1 = name)).map (·.2)) := by
  obtain ⟨es, hes, hfs⟩ := bind_eq_ok.mp h
  rw [packageFile_eq hes, findFile_eq name hfs]

/-- Interned entries read back as the pairs they were made of. -/
theorem namedFile_internEntries : ∀ (s : Store) (files : List (String × Handle .file)),
    (s.internEntries files).1.mapM (s.internEntries files).2.namedFile = .ok files
  | _, [] => rfl
  | s, (name, file) :: rest => by
    have ih := namedFile_internEntries (s.intern name).2 rest
    have hkeep := (grows_internEntries (s.intern name).2 rest).remembers
    have hfirst : (s.intern name).2.namedFile ⟨(s.intern name).1, file⟩ = .ok (name, file) :=
      namedFile_eq_ok.mpr ⟨s.textAt_intern name, rfl⟩
    exact mapM_cons_eq_ok.mpr ⟨_, _, hkeep.namedFile hfirst, ih, rfl⟩

theorem nodes_internEntries : ∀ (s : Store) (files : List (String × Handle .file)),
    (s.internEntries files).2.nodes = s.nodes
  | _, [] => rfl
  | s, (name, _) :: rest => nodes_internEntries (s.intern name).2 rest

/-- A new package comes after all others. -/
theorem addPackage_fst (s : Store) (name : String) (files : List (String × Handle .file))
    (span : Span) : (s.addPackage name files span).1 = ⟨(s.nodes.get .package).size⟩ := by
  simp only [addPackage, alloc, allocEntries, nodes_internEntries, intern]

/-- What a package holds: its name, and its files with their names. -/
structure IsPackage (s : Store) (p : Handle .package) (name : String)
    (fs : List (String × Handle .file)) : Prop where
  name : ∃ y r, s.contentAt p = .ok (packageContent y r) ∧ s.textAt y = .ok name
  files : s.namedFiles p = .ok fs

/-- A new package holds the pairs in the order of their names. -/
theorem isPackage_addPackage (s : Store) (name : String) (files : List (String × Handle .file))
    (span : Span) : (s.addPackage name files span).2.IsPackage (s.addPackage name files span).1
      name (sortedPairs files) := by
  have hentries := namedFile_internEntries (s.intern name).2 (sortedPairs files)
  have hgrows := grows_internEntries (s.intern name).2 (sortedPairs files)
  have heq : s.addPackage name files span =
      let q := (s.intern name).2.internEntries (sortedPairs files)
      let p := q.2.allocEntries q.1
      p.2.alloc (packageContent (s.intern name).1 p.1) span := rfl
  generalize (s.intern name).2.internEntries (sortedPairs files) = q at hentries hgrows heq
  have halloc := q.2.grows_allocEntries q.1
  have hrange := q.2.entriesAt_allocEntries q.1
  dsimp only at heq
  generalize q.2.allocEntries q.1 = p at halloc hrange heq
  have hnode := p.2.grows_alloc (packageContent (s.intern name).1 p.1) span
  have hcontent := p.2.contentAt_alloc (packageContent (s.intern name).1 p.1) span
  rw [← heq] at hnode hcontent
  refine ⟨⟨_, _, hcontent, hnode.textAt (halloc.textAt (hgrows.textAt (s.textAt_intern name)))⟩, ?_⟩
  refine bind_eq_ok.mpr ⟨q.1, entriesOf_eq_ok hcontent (hnode.entriesAt hrange), ?_⟩
  exact mapM_mono (fun e _ f => (halloc.trans hnode).remembers.namedFile) hentries

/-! ## Later operations -/

theorem foldl_contentAfter {n : Node} {c : Content n.kind} : ∀ {ops : List Operation},
    (∀ op ∈ ops, op.overwritten? ≠ some n) → ops.foldl (Operation.contentAfter n) c = c
  | [], _ => rfl
  | op :: ops, h => by
    have hop : op.contentAfter n c = c := by
      cases op with
      | overwrite m d =>
        have hm : m ≠ n := fun hm => h _ List.mem_cons_self (congrArg some hm)
        simp [Operation.contentAfter, hm]
      | _ => rfl
    rw [List.foldl_cons, hop]
    exact foldl_contentAfter fun op' hop' => h op' (List.mem_cons_of_mem _ hop')

/-- A node that no operation overwrites keeps its content. -/
theorem contentAt_run {s : Store} {n : Node} {c : Content n.kind}
    (hc : s.contentAt n.handle = .ok c) {ops : List Operation}
    (hops : ∀ op ∈ ops, op.overwritten? ≠ some n) : (s.run ops).2.contentAt n.handle = .ok c := by
  rw [contentAt_eq_ok.mpr (content?_run (contentAt_eq_ok.mp hc) ops), foldl_contentAfter hops]

/-- A package keeps what it holds, as long as the package itself is not overwritten. -/
theorem IsPackage.run {s : Store} {p : Handle .package} {name : String}
    {fs : List (String × Handle .file)} (h : s.IsPackage p name fs) {ops : List Operation}
    (hops : ∀ op ∈ ops, op.overwritten? ≠ some p.node) : (s.run ops).2.IsPackage p name fs := by
  have hkeep := s.remembers_run ops
  obtain ⟨⟨y, r, hc, hy⟩, hfiles⟩ := h
  obtain ⟨es, hes, hfs⟩ := bind_eq_ok.mp hfiles
  obtain ⟨content, hc', hr⟩ := bind_eq_ok.mp hes
  obtain rfl := Except.ok.inj (hc.symm.trans hc')
  have hcontent : (s.run ops).2.contentAt p = .ok (packageContent y r) :=
    contentAt_run (n := p.node) hc hops
  refine ⟨⟨y, r, hcontent, hkeep.texts hy⟩, bind_eq_ok.mpr ⟨es, ?_, ?_⟩⟩
  · exact entriesOf_eq_ok hcontent (hkeep.entries hr)
  · exact mapM_mono (fun e _ f => hkeep.namedFile) hfs

/-- **Making a package.** Make a package of any pairs of a name and a file in any store, and
let any operations follow that do not overwrite the package itself.

* Its entries, read with the texts of their names, are the pairs in another order: that of
  the bytes of the names, and among pairs of one name the order in which they were given.
* A look-up finds the file of the first pair that was given with the name, and nothing if
  there is none. -/
theorem run_addPackage (s : Store) (name : String) (files : List (String × Handle .file))
    (span : Span) (later : List Operation)
    (hlater : ∀ op ∈ later, op.overwritten? ≠ some (s.addPackage name files span).1.node) :
    let p := (s.addPackage name files span).1
    let t := ((s.addPackage name files span).2.run later).2
    ∃ fs, t.IsPackage p name fs ∧ fs.Perm files ∧
      fs.Pairwise (fun f g => f.1 = g.1 ∨
        List.Lex (fun x y => x < y) f.1.toUTF8.data.toList g.1.toUTF8.data.toList) ∧
      (∀ text, fs.filter (·.1 = text) = files.filter (·.1 = text)) ∧
      ∀ text, t.packageFile p text = .ok ((files.find? (·.1 = text)).map (·.2)) := by
  intro p t
  have hp : t.IsPackage p name (sortedPairs files) :=
    (s.isPackage_addPackage name files span).run hlater
  refine ⟨sortedPairs files, hp, perm_sortedPairs files, ?_, filter_sortedPairs files, ?_⟩
  · exact (pairwise_sortedPairs files).imp nameLE_iff.mp
  · intro text
    rw [packageFile_eq_find? hp.files, find?_sortedPairs]

/-- Of four pairs two have the same name, and one has the name of the package. Later another
package is overwritten, the new one is moved and copied, and a third is made. -/
theorem run_fourPairs :
    let s := ((empty.intern "b.go").2.alloc (packageContent ⟨0⟩ ⟨0, 0⟩) Span.none).2
    let files : List (String × Handle .file) :=
      [("b.go", ⟨0⟩), ("a.go", ⟨1⟩), ("b.go", ⟨2⟩), ("B.go", ⟨3⟩)]
    let r := s.addPackage "a.go" files Span.none
    let later : List Operation := [.overwrite ⟨.package, 0⟩ (packageContent ⟨1⟩ ⟨0, 2⟩),
      .setSpan r.1.node ⟨1, 2⟩, .copy none [.node (some r.1.node)],
      .package "c" [("b.go", ⟨9⟩)] Span.none]
    (∀ op ∈ later, op.overwritten? ≠ some r.1.node) ∧
      (r.2.run later).2.packageFile r.1 "b.go" = .ok (some ⟨0⟩) ∧
      (r.2.run later).2.packageFile r.1 "c.go" = .ok none ∧
      ∃ fs, (r.2.run later).2.IsPackage r.1 "a.go" fs ∧ fs.Perm files ∧
        fs.filter (·.1 = "b.go") = [("b.go", ⟨0⟩), ("b.go", ⟨2⟩)] := by
  intro s files r later
  have hr : r.1 = ⟨1⟩ := s.addPackage_fst "a.go" files Span.none
  have hlater : ∀ op ∈ later, op.overwritten? ≠ some r.1.node := by
    simp [later, hr, Handle.node, Operation.overwritten?]
  obtain ⟨fs, hp, hperm, -, hsame, hfind⟩ := run_addPackage s "a.go" files Span.none later hlater
  exact ⟨hlater, hfind "b.go", hfind "c.go", fs, hp, hperm, hsame "b.go"⟩

end Store
end GoTree
