import GoTree.Proofs.Copy.Dangling
import GoTree.Proofs.Copy.Isolation
import GoTree.Proofs.Copy.Lockstep
/-!
# Copies are well formed

A source may be malformed in any way: names that resolve to nothing, slots that
hold what they should not. None of it gets into the result of a deep copy.
Everything that is met from the result resolves in the destination, and every slot
holds what it admits. So the result can be copied again, by every copier that
reads the destination, as it is or as it has grown since.

* `wellFormed_of_clean`: where nothing offends, everything is in order.
* `Copy.perform_succeeds`: what unfolds to a tree that fits is copied, in place and
  across stores.
* `perform_wellFormed`: both, for the result of a request for a node.
-/
namespace GoTree

/-! ## Slots of one tag -/

/-- The fields of a construct that take nodes of one tag only, and the tag. -/
def Tag.restricted : Tag → List (String × Tag)
  | .funcLit => [("typ", .funcType), ("body", .blockStmt)]
  | .selectorExpr => [("sel", .ident)]
  | .labeledStmt | .branchStmt => [("label", .ident)]
  | .goStmt | .deferStmt => [("call", .callExpr)]
  | .ifStmt | .switchStmt | .typeSwitchStmt | .selectStmt | .forStmt | .rangeStmt =>
    [("body", .blockStmt)]
  | .funcDecl => [("name", .ident), ("typ", .funcType), ("body", .blockStmt)]
  | .importSpec => [("name", .ident), ("path", .basicLit)]
  | .valueSpec => [("names", .ident)]
  | .typeSpec => [("name", .ident)]
  | .field => [("names", .ident), ("tag", .basicLit)]
  | .file => [("name", .ident), ("imports", .importSpec), ("unresolved", .ident)]
  | _ => []

/-- The slot of a field that refers to nodes. -/
def FieldType.slot? : FieldType → Option Slot
  | .node sl | .optNode sl | .list sl => some sl
  | .entries => some (.any .file)
  | .text | .scalar _ | .optScalar _ => none

/-- The restricted fields are those whose slot takes one tag. -/
theorem Tag.mem_restricted_iff {t tag : Tag} {f : Field} (hf : f ∈ t.fields) :
    (f.name, tag) ∈ t.restricted ↔ f.type.slot?.bind Slot.tag? = some tag := by
  have key : ∀ t ∈ Tag.all, ∀ f ∈ t.fields,
      (t.restricted.filter (·.1 = f.name)).map (·.2) = (f.type.slot?.bind Slot.tag?).toList := by
    decide +kernel
  have hone := key t t.mem_all f hf
  rw [← Option.mem_toList, ← hone, List.mem_map]
  constructor
  · intro h
    exact ⟨_, List.mem_filter.mpr ⟨h, by simp⟩, rfl⟩
  · rintro ⟨⟨name, _⟩, h, rfl⟩
    obtain ⟨hmem, hname⟩ := List.mem_filter.mp h
    obtain rfl : name = f.name := by simpa using hname
    exact hmem

theorem Values.fst_mem_of_mem_toList : ∀ {fs : List Field} {vs : Values fs}
    {p : (f : Field) × f.type.Value}, p ∈ vs.toList → p.1 ∈ fs
  | _, .nil, _, h => by cases h
  | _, .cons _ _, _, h => by
    rcases List.mem_cons.mp h with rfl | h
    · exact List.mem_cons_self
    · exact List.mem_cons_of_mem _ (fst_mem_of_mem_toList h)

theorem Slot.eq_any_of_kind {sl : Slot} (h : sl.kind = .package) : sl = .any .package := by
  cases sl <;> simp_all [Slot.kind]

/-! ## Nodes in order -/

namespace Store

/-- The symbols in a field, those of the entries of a package included. -/
def symbolsIn (s : Store) : (t : FieldType) → t.Value → List Symbol
  | .text, y => [y]
  | .entries, r =>
    match s.entriesAt r with
    | .ok es => es.map (·.name)
    | .error _ => []
  | .node _, _ | .optNode _, _ | .list _, _ | .scalar _, _ | .optScalar _, _ => []

/-- A node resolves, and so does every reference and symbol in its fields. Its
restricted fields refer to nodes of their tag. -/
structure InOrder (s : Store) (n : Node) : Prop where
  node : ∃ c, s.contentAt n.handle = .ok c
  links : ∀ c, s.contentAt n.handle = .ok c → ∀ l ∈ c.links, ∃ ms, s.targets l = .ok ms
  symbols : ∀ c, s.contentAt n.handle = .ok c →
    ∀ p ∈ c.values.toList, ∀ y ∈ s.symbolsIn p.1.type p.2, ∃ text, s.textAt y = .ok text
  slots : ∀ c, s.contentAt n.handle = .ok c →
    ∀ p ∈ c.values.toList, ∀ tag, (p.1.name, tag) ∈ c.tag.restricted →
      ∀ l, p.1.type.link? p.2 = some l → ∀ m ∈ s.follow l, s.tag? m = some tag

/-- Everything that is met from a node is in order. -/
def WellFormed (s : Store) (root : Node) : Prop := ∀ n, s.Reaches root n → s.InOrder n

section
variable {s : Store}

theorem look_of_offence {i : Check} (h : s.offence i = none) : ∃ is, s.look i = .ok is := by
  cases hlook : s.look i with
  | ok is => exact ⟨is, rfl⟩
  | error d =>
    rw [offence_eq_dangling hlook] at h
    cases h

/-- A reference leads somewhere if the check of its field resolves. -/
theorem targets_of_check {t : FieldType} {v : t.Value} {l : Link} (hl : t.link? v = some l) :
    ∃ i, t.check? v = some i ∧ ∀ is, s.look i = .ok is → ∃ ms, s.targets l = .ok ms := by
  cases t with
  | node sl =>
    cases hl
    exact ⟨_, rfl, fun _ _ => ⟨_, rfl⟩⟩
  | optNode sl =>
    obtain ⟨h, rfl, rfl⟩ := Option.map_eq_some_iff.mp hl
    exact ⟨_, rfl, fun _ _ => ⟨_, rfl⟩⟩
  | list sl =>
    obtain ⟨r, rfl, rfl⟩ := Option.map_eq_some_iff.mp hl
    refine ⟨_, rfl, fun is hlook => ?_⟩
    obtain ⟨hs, hr, -⟩ := map_eq_ok.mp hlook
    exact ⟨_, map_eq_ok.mpr ⟨hs, hr, rfl⟩⟩
  | entries =>
    cases hl
    refine ⟨_, rfl, fun is hlook => ?_⟩
    obtain ⟨es, hr, -⟩ := map_eq_ok.mp hlook
    exact ⟨_, map_eq_ok.mpr ⟨es, hr, rfl⟩⟩
  | text | scalar | optScalar => cases hl

/-- A node that a field refers to is met from the check of the field, in the slot
of the field. -/
theorem meets_of_follow {t : FieldType} {v : t.Value} {l : Link} {m : Node}
    (hl : t.link? v = some l) (hm : m ∈ s.follow l) :
    ∃ (i : Check) (sl : Slot) (x : Handle sl.kind),
      t.check? v = some i ∧ t.slot? = some sl ∧ x.node = m ∧ s.Meets i (.node sl x) := by
  cases t with
  | node sl =>
    cases hl
    exact ⟨_, sl, v, rfl, rfl, (List.mem_singleton.mp hm).symm, .refl⟩
  | optNode sl =>
    obtain ⟨h, rfl, rfl⟩ := Option.map_eq_some_iff.mp hl
    exact ⟨_, sl, h, rfl, rfl, (List.mem_singleton.mp hm).symm, .refl⟩
  | list sl =>
    obtain ⟨r, rfl, rfl⟩ := Option.map_eq_some_iff.mp hl
    cases hr : s.listAt sl.kind r with
    | error d => simp [follow, targets, hr, Except.map] at hm
    | ok hs =>
      rw [follow_list hr] at hm
      obtain ⟨x, hx, rfl⟩ := List.mem_map.mp hm
      refine ⟨_, sl, x, rfl, rfl, rfl, .single ?_⟩
      rw [under_eq (look_list hr)]
      exact List.mem_map_of_mem hx
  | entries =>
    cases hl
    cases hr : s.entriesAt v with
    | error d => simp [follow, targets, hr, Except.map] at hm
    | ok es =>
      rw [follow_entries hr] at hm
      obtain ⟨e, he, rfl⟩ := List.mem_map.mp hm
      refine ⟨_, .any .file, e.file, rfl, rfl, rfl, .single ?_⟩
      rw [under_eq (look_entries hr)]
      exact List.mem_flatMap.mpr ⟨e, he, by simp⟩
  | text | scalar | optScalar => cases hl

theorem meets_of_mem_symbolsIn : ∀ {t : FieldType} {v : t.Value} {y : Symbol},
    y ∈ s.symbolsIn t v → ∃ i, t.check? v = some i ∧ s.Meets i (.symbol y)
  | .text, _, _, hy => ⟨_, rfl, by rw [List.mem_singleton.mp hy]; exact .refl⟩
  | .entries, r, y, hy => by
    refine ⟨.entries r, rfl, .single ?_⟩
    simp only [symbolsIn] at hy
    split at hy
    · rename_i es hr
      obtain ⟨e, he, rfl⟩ := List.mem_map.mp hy
      rw [under_eq (look_entries hr)]
      exact List.mem_flatMap.mpr ⟨e, he, by simp⟩
    · cases hy
  | .node _, _, _, hy | .optNode _, _, _, hy | .list _, _, _, hy | .scalar _, _, _, hy
  | .optScalar _, _, _, hy => by simp [symbolsIn] at hy

/-- The check of a field is met from the node. -/
theorem meets_of_check {sl : Slot} {h : Handle sl.kind} {c : Content sl.kind}
    (hc : s.contentAt h = .ok c) {p : (f : Field) × f.type.Value} (hp : p ∈ c.values.toList)
    {i : Check} (hi : p.1.type.check? p.2 = some i) : s.Meets (.node sl h) i := by
  refine .single ?_
  rw [under_eq (look_node sl hc)]
  exact List.mem_filterMap.mpr ⟨p, hp, hi⟩

/-- A node is in order if nothing offends that is met from it. -/
theorem inOrder_of_offence {sl : Slot} {h : Handle sl.kind}
    (hnone : ∀ j, s.Meets (.node sl h) j → s.offence j = none) : s.InOrder h.node where
  node := by
    obtain ⟨is, hlook⟩ := look_of_offence (hnone _ .refl)
    obtain ⟨c, hc, -⟩ := map_eq_ok.mp hlook
    exact ⟨c, hc⟩
  links c hc l hl := by
    obtain ⟨p, hp, hlink⟩ := List.mem_filterMap.mp hl
    obtain ⟨i, hi, htargets⟩ := targets_of_check hlink
    obtain ⟨is, hlook⟩ := look_of_offence (hnone i (meets_of_check hc hp hi))
    exact htargets is hlook
  symbols c hc p hp y hy := by
    obtain ⟨i, hi, hmeets⟩ := meets_of_mem_symbolsIn hy
    obtain ⟨is, hlook⟩ := look_of_offence (hnone _ ((meets_of_check hc hp hi).trans hmeets))
    obtain ⟨text, htext, -⟩ := map_eq_ok.mp hlook
    exact ⟨text, htext⟩
  slots c hc p hp tag htag l hl m hm := by
    obtain ⟨i, sl', x, hi, hslot, rfl, hmeets⟩ := meets_of_follow hl hm
    have hoff := hnone _ ((meets_of_check hc hp hi).trans hmeets)
    obtain ⟨is, hlook⟩ := look_of_offence hoff
    obtain ⟨c', hc', -⟩ := map_eq_ok.mp hlook
    -- the slot is restricted to the tag, and it admits the node
    have hfield := Values.fst_mem_of_mem_toList hp
    have hone : sl'.tag? = some tag := by
      have := (Tag.mem_restricted_iff hfield).mp htag
      rwa [hslot] at this
    rw [offence_node sl' hc'] at hoff
    have hadm : sl'.admits c'.tag = true := by
      by_contra hno
      rw [if_neg hno] at hoff
      cases hoff
    rw [tag?_eq hc', Option.some.injEq]
    simpa [Slot.admits, hone] using hadm

/-- What is met from a node through references is met from it as checks. -/
theorem meets_of_reaches {n m : Node} (hm : s.Reaches n m) : ∀ {sl : Slot} {h : Handle sl.kind},
    h.node = n → ∃ (sl' : Slot) (x : Handle sl'.kind), x.node = m ∧
      s.Meets (.node sl h) (.node sl' x) := by
  intro sl h hn
  induction hm with
  | refl => exact ⟨sl, h, hn, .refl⟩
  | tail _ hstep ih =>
    obtain ⟨sl', x, rfl, hmeets⟩ := ih
    obtain ⟨l, hl, hfollow⟩ := List.mem_flatMap.mp hstep
    cases hc : s.contentAt x with
    | error d =>
      have hc' : s.contentAt x.node.handle = .error d := hc
      simp [linksOf, hc'] at hl
    | ok c =>
      rw [linksOf_eq hc] at hl
      obtain ⟨p, hp, hlink⟩ := List.mem_filterMap.mp hl
      obtain ⟨i, sl₂, y, hi, -, hy, hdown⟩ := meets_of_follow hlink hfollow
      exact ⟨sl₂, y, hy, hmeets.trans ((meets_of_check hc hp hi).trans hdown)⟩

/-- Where nothing offends, everything is in order. -/
theorem wellFormed_of_clean {sl : Slot} {h : Handle sl.kind} (hclean : s.Clean [.node sl h]) :
    s.WellFormed h.node := by
  intro n hn
  obtain ⟨sl', x, rfl, hmeets⟩ := meets_of_reaches hn rfl
  exact inOrder_of_offence fun j hj => hclean.offence_eq_none (hmeets.trans hj)

end
end Store

/-! ## Packages in place -/

namespace Store

/-- The entries of a package that unfolds have names and files. -/
theorem Unfolds.resolve_entries {s : Store} : ∀ {es : List Entry} {ts : List Tree},
    s.Unfolds .entries es ts → ∀ e ∈ es,
      (∃ name, s.textAt e.name = .ok name) ∧ ∃ content, s.contentAt e.file = .ok content
  | _, _, .entriesNil, _, he => by cases he
  | _, _, .entriesCons hn hf hes, e, he => by
    rcases List.mem_cons.mp he with rfl | he
    · cases hf with
      | node hc _ => exact ⟨⟨_, hn⟩, _, hc⟩
    · exact resolve_entries hes e he

theorem Unfolds.resolve_package {s : Store} {h : Handle .package} {t : Tree}
    (ht : s.Unfolds (.node .package) h t) :
    ∃ name text r es ts, s.contentAt h = .ok (packageContent name r) ∧ s.textAt name = .ok text ∧
      s.entriesAt r = .ok es ∧ s.Unfolds .entries es ts := by
  cases ht with
  | @node _ _ content _ hc hv =>
    obtain ⟨name, r, rfl⟩ := exists_packageContent content
    cases hv with
    | valuesCons hname hv =>
      cases hname with
      | text hy =>
        cases hv with
        | valuesCons hfiles _ =>
          cases hfiles with
          | package hr he => exact ⟨name, _, r, _, _, hc, hy, hr, he⟩

end Store

namespace Copy

theorem symbol_inPlace {c : Copier} {y : Symbol} {text : String} (hin : c.isInPlace = true)
    (hy : c.source.textAt y = .ok text) : symbol y c = .ok y c := by
  rw [symbol_eq hy, Store.intern_of_textAt (Copier.source_eq_dest hin ▸ hy)]

theorem entries_succeed (copy : NodeCopy) {c : Copier} (hin : c.isInPlace = true) :
    ∀ {es : List Entry}, (∀ e ∈ es, (∃ name, c.source.textAt e.name = .ok name) ∧
      ∃ content, c.source.contentAt e.file = .ok content) → es.mapM (entry copy) c = .ok es c
  | [], _ => rfl
  | e :: es, h => by
    obtain ⟨⟨name, hn⟩, content, hf⟩ := h e List.mem_cons_self
    have hentry : entry copy e c = .ok e c := by
      rw [entry, get_bind, if_pos hin, read_bind hf]
      exact map_ok.mpr ⟨e.name, symbol_inPlace hin hn, rfl⟩
    have hrest := entries_succeed copy hin fun x hx => h x (List.mem_cons_of_mem _ hx)
    exact mapM_cons_ok.mpr ⟨e, c, es, hentry, hrest, rfl⟩

/-- A package that unfolds is copied in place; its files are not read any further. -/
theorem within_package_succeeds {c : Copier} {h : Handle .package} {t : Tree} (d : Nat)
    (hin : c.isInPlace = true) (ht : c.source.Unfolds (.node .package) h t) :
    ∃ h' c', within (d + 1) .package h c = .ok h' c' := by
  obtain ⟨name, text, r, es, ts, hc, hname, hr, he⟩ := ht.resolve_package
  let r' := (c.dest.allocEntries es).1
  let c₁ : Copier := { c with dest := (c.dest.allocEntries es).2 }
  have hentries : entries (within d) r c = .ok r' c₁ :=
    (read_bind hr).trans (bind_ok.mpr ⟨es, c, entries_succeed _ hin he.resolve_entries, rfl⟩)
  have hnil : (Values.nil.mapM (value (within d)) : CopyM (Values [])) c₁ = .ok .nil c₁ := rfl
  have hvalues : (packageContent name r).values.mapM (value (within d)) c =
      .ok (packageContent name r').values c₁ :=
    values_cons_ok.mpr ⟨name, c, _, symbol_inPlace hin hname,
      values_cons_ok.mpr ⟨r', c₁, _, hentries, hnil, rfl⟩, rfl⟩
  -- once the fields are copied nothing fails any more
  have hrest : ∃ h' c', (do
      let copy ← add (packageContent name r')
      reportCopy c.copied h copy (packageContent name r')
      return copy : CopyM (Handle .package)) c₁ = .ok h' c' := ⟨_, _, rfl⟩
  obtain ⟨h', c', hrest⟩ := hrest
  exact ⟨h', c', bind_ok.mpr
    ⟨c, c, rfl, (read_bind hc).trans (bind_ok.mpr ⟨_, c₁, hvalues, hrest⟩)⟩⟩

/-! ## What fits is copied -/

/-- **Copying succeeds** for a node that unfolds to a tree that fits the slot asked for,
whichever copier reads the store, and also once the store has grown. -/
theorem perform_succeeds {A : Store} {r : CopyRequest} {sl : Slot} {h : Handle sl.kind} {t : Tree}
    (hr : r.root? = some ⟨sl, h⟩) (ht : A.Unfolds (.node sl.kind) h t)
    (hfit : t.fits (.node sl) = true) {c : Copier} (g : A.Grows c.source) :
    ∃ m c', perform r c = .ok (.node (some m)) c' := by
  by_cases hp : c.isInPlace = true ∧ sl.kind = .package
  · obtain ⟨hin, hk⟩ := hp
    obtain rfl := Slot.eq_any_of_kind hk
    cases ht.grows g with
    | node hc hv =>
      obtain ⟨log, hlog⟩ := perform_eq hc hr
      obtain ⟨h', c', hw⟩ := within_package_succeeds (c := { c with log := log })
        c.source.nodeCount hin (.node hc hv)
      rw [hlog]
      have hslot := (slot_any (c := { c with log := log }) hc).trans hw
      exact ⟨h'.node, c', map_ok.mpr ⟨h', hslot, rfl⟩⟩
  · have hacyclic : A.Acyclic h.node :=
      Store.acyclic_of_shallow (Store.shallow_of_unfold (Store.unfold_eq_ok.mpr ht))
    obtain ⟨js, hj, hsettle⟩ := makes_perform hacyclic hr
    have hclean : A.Clean [.node sl h] := (Store.Unfolds.slot ht).clean hfit
    rw [hclean.findSome?_eq_none hj] at hsettle
    -- a copier across stores succeeds, and the other goes in lockstep with it
    let twin : Copier := { Copier.across A c.dest with copied := c.copied }
    have htwins : Copier.Twins A A (!c.isInPlace) c twin :=
      ⟨g, .refl A, rfl, rfl, fun h => ⟨by simpa using h, rfl⟩⟩
    have hdeep : (!c.isInPlace) = false → sl.kind ≠ .package :=
      fun h hk => hp ⟨by simpa using h, hk⟩
    have hsame := agree_perform hr hr (ht.alike ht rfl) hdeep c twin htwins
    have htwin := hsettle twin rfl
    generalize hx : perform r c = x, perform r twin = y at hsame htwin
    cases hsame with
    | ok =>
      obtain ⟨h', -, rfl, -⟩ := copies_perform (fun hin hk => hp ⟨hin, hk⟩) hr hx
      exact ⟨_, _, rfl⟩
    | unsupported => cases htwin

end Copy

/-! ## Copies -/

/-- What a deep copy adds unfolds to trees that fit. -/
theorem Copies.fits_dest {c c' : Copier} {sl : Slot} {h h' : Handle sl.kind}
    (hcopies : Copies c (.value (.node sl)) h h' c') :
    ∃ t : Tree, c'.dest.Unfolds (.node sl.kind) h' t ∧ t.fits (.node sl) = true := by
  obtain ⟨t, ht, hfit⟩ := hcopies.fits
  obtain ⟨u, hu, hu'⟩ := hcopies.alike.exists_unfolds
  cases ht with
  | slot ht =>
    cases hu with
    | slot hu =>
      cases hu' with
      | slot hu' =>
        have htu := (Store.unfold_eq_ok.mpr ht).symm.trans (Store.unfold_eq_ok.mpr hu)
        cases htu
        exact ⟨t, hu', hfit⟩

/-- A request for a node of a store, in a slot that admits it. -/
def CopyRequest.AsksFor (r : CopyRequest) (s : Store) (n : Node) : Prop :=
  ∃ (sl : Slot) (x : Handle sl.kind), r.root? = some ⟨sl, x⟩ ∧ x.node = n ∧
    ∀ tag, s.tag? n = some tag → sl.admits tag = true

/-- A node that fits a slot can be asked for in every slot that admits it. -/
theorem Copier.perform_asked {A : Store} {sl : Slot} {h : Handle sl.kind} {t : Tree}
    (ht : A.Unfolds (.node sl.kind) h t) (hfit : t.fits (.node sl) = true) {r : CopyRequest}
    (hr : r.AsksFor A h.node) {c : Copier} (g : A.Grows c.source) :
    ∃ m, (c.perform r).1 = .ok (.node (some m)) := by
  obtain ⟨sl', x, hroot, hx, hadmits⟩ := hr
  have hx' : A.Unfolds (.node h.node.kind) h.node.handle t := ht
  rw [← hx] at hx'
  have hfit' : t.fits (.node sl') = true := by
    cases ht with
    | node hc _ =>
      simp only [Tree.fits, Bool.and_eq_true] at hfit ⊢
      exact ⟨hadmits _ (Store.tag?_eq hc), hfit.2⟩
  obtain ⟨m, c', hok⟩ := Copy.perform_succeeds hroot hx' hfit' g
  exact ⟨m, by rw [perform, hok]⟩

namespace Copier

/-- **Well-formed copies.** Whatever the source holds, the result of a request for a node
that succeeds is well formed in the destination and stands in the slot asked for, unless
it is the copy of a package in place. So every copier that reads the destination, in
place or across stores, now or later, copies the result again. -/
theorem perform_wellFormed {c c' : Copier} {r : CopyRequest} {sl : Slot} {h : Handle sl.kind}
    {a : CopyResult} (hr : r.root? = some ⟨sl, h⟩) (hp : c.isInPlace = true → sl.kind ≠ .package)
    (hok : c.perform r = (.ok a, c')) :
    ∃ m : Node, a = .node (some m) ∧ m.kind = sl.kind ∧ c'.dest.WellFormed m ∧
      (∀ tag, c'.dest.tag? m = some tag → sl.admits tag = true) ∧
      ∀ (d : Copier) (again : CopyRequest), c'.dest.Grows d.source → again.AsksFor c'.dest m →
        ∃ m', (d.perform again).1 = .ok (.node (some m')) := by
  unfold perform at hok
  split at hok
  · rename_i hperform
    cases hok
    obtain ⟨m, _, rfl, -, hcopies⟩ := copies_perform hp hr hperform
    obtain ⟨t, ht, hfit⟩ := hcopies.fits_dest
    have hclean : c'.dest.Clean [.node sl m] := (Store.Unfolds.slot ht).clean hfit
    refine ⟨m.node, rfl, rfl, Store.wellFormed_of_clean hclean, fun tag htag => ?_,
      fun d again g hagain => perform_asked ht hfit hagain g⟩
    cases ht with
    | node hc _ =>
      rw [Store.tag?_eq hc] at htag
      cases htag
      simp only [Tree.fits, Bool.and_eq_true] at hfit
      exact hfit.1
  · cases hok

end Copier

/-- A package out of a store that also holds a malformed selector: its copy is well formed
and is copied again, in place with its files shared, and back across stores. -/
theorem wellFormed_lonePackage :
    let src := Store.empty.addBadSelector.2.addLonePackage
    let out := (Copier.across src.2 .empty).perform (.node (some src.1.node))
    let copy : Node := ⟨.package, 0⟩
    out.1 = .ok (.node (some copy)) ∧ out.2.dest.WellFormed copy ∧
      (∃ m, ((Copier.inPlace out.2.dest).perform (.node (some copy))).1 = .ok (.node (some m))) ∧
      ∃ m, ((Copier.across out.2.dest src.2).perform (.slot (.any .package) (some ⟨0⟩))).1 =
        .ok (.node (some m)) := by
  intro src out copy
  have hroot : (CopyRequest.node (some src.1.node)).root? = some ⟨.any .package, src.1⟩ := rfl
  have hanswer : out.1 = .ok (.node (some copy)) := by decide +kernel
  have hok : (Copier.across src.2 .empty).perform (.node (some src.1.node)) =
      (.ok (.node (some copy)), out.2) := by rw [← hanswer]
  clear_value out
  obtain ⟨m, hm, -, hwell, -, hagain⟩ :=
    Copier.perform_wellFormed hroot (fun hin => by cases hin) hok
  cases hm
  have hsame : (CopyRequest.node (some copy)).AsksFor out.2.dest copy :=
    ⟨.any .package, ⟨0⟩, rfl, rfl, fun _ _ => rfl⟩
  have hslot : (CopyRequest.slot (.any .package) (some ⟨0⟩)).AsksFor out.2.dest copy :=
    ⟨.any .package, ⟨0⟩, rfl, rfl, fun _ _ => rfl⟩
  exact ⟨hanswer, hwell, hagain (.inPlace out.2.dest) _ (.refl _) hsame,
    hagain (.across out.2.dest src.2) _ (.refl _) hslot⟩

end GoTree
