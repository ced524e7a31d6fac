import GoTree.Proofs.Copy.Steps
/-!
# Copies that succeed

`Copies c p v w c'` says how a copier `c` gets, from the part `v` of its source,
the copy `w` and the state `c'`: one rule for each kind of field, with no bound
on the depth. It describes deep copies; the copy of a package in place, which
shares its files, is described apart.

* `copies_within`: every deep copy that succeeds follows the rules. A package is
  only met at the top, since no slot of the grammar takes one.
* `within_package_inPlace`: what a package copied in place leaves behind.
-/
namespace GoTree

/-! ## Computations that give a result -/

namespace Copy

variable {α β : Type}

theorem bind_ok {x : CopyM α} {f : α → CopyM β} {b : β} {c c' : Copier} :
    (x >>= f) c = .ok b c' ↔ ∃ a c₁, x c = .ok a c₁ ∧ f a c₁ = .ok b c' := by
  simp only [bind, EStateM.bind]
  cases x c with
  | ok a c₁ => simp
  | error e c₁ => simp

theorem pure_ok {a b : α} {c c' : Copier} :
    (pure a : CopyM α) c = .ok b c' ↔ a = b ∧ c = c' := by
  simp [pure, EStateM.pure]

theorem map_ok {x : CopyM α} {f : α → β} {b : β} {c c' : Copier} :
    (do return f (← x) : CopyM β) c = .ok b c' ↔ ∃ a, x c = .ok a c' ∧ f a = b := by
  simp only [bind_ok, pure_ok]
  constructor
  · rintro ⟨a, c₁, hx, hb, rfl⟩
    exact ⟨a, hx, hb⟩
  · rintro ⟨a, hx, hb⟩
    exact ⟨a, c', hx, hb, rfl⟩

theorem get_ok {a : Copier} {c c' : Copier} :
    (get : CopyM Copier) c = .ok a c' ↔ c = a ∧ c = c' := by
  constructor
  · intro h
    cases h
    exact ⟨rfl, rfl⟩
  · rintro ⟨rfl, rfl⟩
    rfl

theorem get_bind (f : Copier → CopyM α) (c : Copier) : (get >>= f) c = f c c := rfl

theorem read_ok {f : Store → Except Dangling α} {a : α} {c c' : Copier} :
    read f c = .ok a c' ↔ f c.source = .ok a ∧ c = c' := by
  unfold read
  cases f c.source <;> simp

theorem read_bind {f : Store → Except Dangling α} {k : α → CopyM β} {a : α} {c : Copier}
    (hf : f c.source = .ok a) : (read f >>= k) c = k a c := by
  simp only [bind, EStateM.bind, read, hf]

theorem mapM_cons_ok {f : α → CopyM β} {a : α} {as : List α} {bs : List β} {c c' : Copier} :
    (a :: as).mapM f c = .ok bs c' ↔
      ∃ b c₁ bs', f a c = .ok b c₁ ∧ as.mapM f c₁ = .ok bs' c' ∧ b :: bs' = bs := by
  simp only [List.mapM_cons, bind_ok, pure_ok]
  constructor
  · rintro ⟨b, c₁, hb, bs', c₂, hbs, hcons, rfl⟩
    exact ⟨b, c₁, bs', hb, hbs, hcons⟩
  · rintro ⟨b, c₁, bs', hb, hbs, hcons⟩
    exact ⟨b, c₁, hb, bs', c', hbs, hcons, rfl⟩

theorem values_cons_ok {f : (t : FieldType) → t.Value → CopyM t.Value} {g : Field}
    {fs : List Field} {v : g.type.Value} {vs : Values fs} {ws : Values (g :: fs)} {c c' : Copier} :
    (Values.cons v vs).mapM f c = .ok ws c' ↔
      ∃ w c₁ ws', f g.type v c = .ok w c₁ ∧ vs.mapM f c₁ = .ok ws' c' ∧ .cons w ws' = ws := by
  simp only [Values.mapM, bind_ok, pure_ok]
  constructor
  · rintro ⟨w, c₁, hw, ws', c₂, hws, hcons, rfl⟩
    exact ⟨w, c₁, ws', hw, hws, hcons⟩
  · rintro ⟨w, c₁, ws', hw, hws, hcons⟩
    exact ⟨w, c₁, hw, ws', c', hws, hcons, rfl⟩

theorem add_ok {k : Kind} {content : Content k} {h : Handle k} {c c' : Copier}
    (ha : add content c = .ok h c') :
    h = (c.dest.alloc content Span.none).1 ∧ c'.dest = (c.dest.alloc content Span.none).2 := by
  cases ha
  exact ⟨rfl, rfl⟩

theorem addList_ok {k : Kind} {hs : List (Handle k)} {r : ListRef} {c c' : Copier}
    (ha : addList k hs c = .ok r c') :
    r = (c.dest.allocList k hs).1 ∧ c'.dest = (c.dest.allocList k hs).2 := by
  cases ha
  exact ⟨rfl, rfl⟩

theorem addEntries_ok {es : List Entry} {r : ListRef} {c c' : Copier}
    (ha : addEntries es c = .ok r c') :
    r = (c.dest.allocEntries es).1 ∧ c'.dest = (c.dest.allocEntries es).2 := by
  cases ha
  exact ⟨rfl, rfl⟩

/-- In place a symbol stays; across stores its text is interned. -/
theorem symbol_ok {y y' : Symbol} {c c' : Copier} (hy : symbol y c = .ok y' c') :
    ∃ text, c.source.textAt y = .ok text ∧
      (c.isInPlace = true ∧ y' = y ∧ c' = c ∨
        c.isInPlace = false ∧ y' = (c.dest.intern text).1 ∧
          c'.dest = (c.dest.intern text).2) := by
  obtain ⟨text, c₁, hread, hy⟩ := bind_ok.mp hy
  obtain ⟨htext, rfl⟩ := read_ok.mp hread
  refine ⟨text, htext, ?_⟩
  cases hin : c.isInPlace with
  | true =>
    simp only [hin, if_true, EStateM.Result.ok.injEq] at hy
    exact .inl ⟨rfl, hy.1.symm, hy.2.symm⟩
  | false =>
    simp only [hin, Bool.false_eq_true, if_false, EStateM.Result.ok.injEq] at hy
    obtain ⟨rfl, rfl⟩ := hy
    exact .inr ⟨rfl, rfl, rfl⟩

/-- A slot is copied if it admits what is in it. -/
theorem slot_ok {copy : NodeCopy} {sl : Slot} {h h' : Handle sl.kind} {c c' : Copier}
    (hs : slot copy sl h c = .ok h' c') :
    ∃ content, c.source.contentAt h = .ok content ∧ sl.admits content.tag = true ∧
      copy sl.kind h c = .ok h' c' := by
  obtain ⟨content, c₁, hread, hs⟩ := bind_ok.mp hs
  obtain ⟨hc, rfl⟩ := read_ok.mp hread
  split at hs
  · rename_i ha
    exact ⟨content, hc, ha, hs⟩
  · cases hs

/-- A node of any kind is copied after it was reported. -/
theorem node_ok {n m : Node} {c c' : Copier} (h : node n c = .ok m c') :
    ∃ d h', within d n.kind n.handle { c with log := c.log.push (.node n) } = .ok h' c' ∧
      h'.node = m := by
  obtain ⟨_, c₁, hreport, h⟩ := bind_ok.mp h
  obtain ⟨d, c₂, hdepth, h⟩ := bind_ok.mp h
  cases hreport
  cases hdepth
  exact ⟨_, map_ok.mp h⟩

theorem reportCopy_eq (before : Nat) {k : Kind} (h copy : Handle k) (content : Content k)
    (c : Copier) : ∃ log, reportCopy before h copy content c = .ok () { c with log := log } := by
  cases k <;> exact ⟨_, rfl⟩

/-- Reporting a copy leaves the destination alone. -/
theorem reportCopy_ok {before : Nat} {k : Kind} {h copy : Handle k} {content : Content k}
    {u : Unit} {c c' : Copier} (hr : reportCopy before h copy content c = .ok u c') :
    c'.dest = c.dest := by
  cases k <;> cases hr <;> rfl

/-- A node is copied field by field, then added and reported. -/
theorem within_succ_ok {d : Nat} {k : Kind} {h h' : Handle k} {c c' : Copier}
    (hw : within (d + 1) k h c = .ok h' c') :
    ∃ content ws c₁ c₂, c.source.contentAt h = .ok content ∧
      content.values.mapM (value (within d)) c = .ok ws c₁ ∧
      add { content with values := ws } c₁ = .ok h' c₂ ∧
      reportCopy c.copied h h' { content with values := ws } c₂ = .ok () c' := by
  obtain ⟨_, _, hget, hw⟩ := bind_ok.mp hw
  obtain ⟨rfl, rfl⟩ := get_ok.mp hget
  obtain ⟨content, _, hread, hw⟩ := bind_ok.mp hw
  obtain ⟨hc, rfl⟩ := read_ok.mp hread
  obtain ⟨ws, c₁, hv, hw⟩ := bind_ok.mp hw
  obtain ⟨_, c₂, ha, hw⟩ := bind_ok.mp hw
  obtain ⟨_, _, hr, hw⟩ := bind_ok.mp hw
  obtain ⟨rfl, rfl⟩ := pure_ok.mp hw
  exact ⟨content, ws, c₁, c₂, hc, hv, ha, hr⟩

theorem Stepwise.steps {x : CopyM α} (hx : Stepwise x) {a : α} {c c' : Copier}
    (h : x c = .ok a c') : c.Steps c' := by
  have := hx c
  rwa [after, h] at this

end Copy

/-! ## Deep copies -/

/-- The copy of a part, with the copier before and after. -/
inductive Copies : Copier → (p : Part) → p.Value → p.Value → Copier → Prop where
  | node {c c₁ c₂ c' : Copier} {k : Kind} {h h' : Handle k} {tag : Tag} {hk : tag.kind = k}
      {vs ws : Values tag.fields} (hc : c.source.contentAt h = .ok ⟨tag, vs, hk⟩)
      (hv : Copies c (.values tag.fields) vs ws c₁) (ha : Copy.add ⟨tag, ws, hk⟩ c₁ = .ok h' c₂)
      (hr : Copy.reportCopy c.copied h h' ⟨tag, ws, hk⟩ c₂ = .ok () c') :
      Copies c (.node k) h h' c'
  | slot {c c' : Copier} {sl : Slot} {h h' : Handle sl.kind} {content : Content sl.kind}
      (hc : c.source.contentAt h = .ok content) (ha : sl.admits content.tag = true)
      (hn : Copies c (.node sl.kind) h h' c') : Copies c (.value (.node sl)) h h' c'
  | optNone {c : Copier} {sl : Slot} : Copies c (.value (.optNode sl)) none none c
  | optSome {c c' : Copier} {sl : Slot} {h h' : Handle sl.kind}
      (hn : Copies c (.value (.node sl)) h h' c') :
      Copies c (.value (.optNode sl)) (some h) (some h') c'
  | listNone {c : Copier} {sl : Slot} : Copies c (.value (.list sl)) none none c
  | listSome {c c₁ c' : Copier} {sl : Slot} {r r' : ListRef} {hs hs' : List (Handle sl.kind)}
      (hr : c.source.listAt sl.kind r = .ok hs) (hi : Copies c (.items sl) hs hs' c₁)
      (ha : Copy.addList sl.kind hs' c₁ = .ok r' c') :
      Copies c (.value (.list sl)) (some r) (some r') c'
  | package {c c₁ c' : Copier} {r r' : ListRef} {es es' : List Entry}
      (hr : c.source.entriesAt r = .ok es) (he : Copies c .entries es es' c₁)
      (ha : Copy.addEntries es' c₁ = .ok r' c') : Copies c (.value .entries) r r' c'
  | text {c c' : Copier} {y y' : Symbol} (hy : Copy.symbol y c = .ok y' c') :
      Copies c (.value .text) y y' c'
  | scalar {c : Copier} {t : ScalarType} (v : t.Value) : Copies c (.value (.scalar t)) v v c
  | optScalar {c : Copier} {t : ScalarType} (v : Option t.Value) :
      Copies c (.value (.optScalar t)) v v c
  | valuesNil {c : Copier} : Copies c (.values []) .nil .nil c
  | valuesCons {c c₁ c' : Copier} {f : Field} {fs : List Field} {v w : f.type.Value}
      {vs ws : Values fs} (hv : Copies c (.value f.type) v w c₁)
      (hvs : Copies c₁ (.values fs) vs ws c') :
      Copies c (.values (f :: fs)) (.cons v vs) (.cons w ws) c'
  | itemsNil {c : Copier} {sl : Slot} : Copies c (.items sl) [] [] c
  | itemsCons {c c₁ c' : Copier} {sl : Slot} {h h' : Handle sl.kind}
      {hs hs' : List (Handle sl.kind)} (hn : Copies c (.value (.node sl)) h h' c₁)
      (hi : Copies c₁ (.items sl) hs hs' c') : Copies c (.items sl) (h :: hs) (h' :: hs') c'
  | entriesNil {c : Copier} : Copies c .entries [] [] c
  | entriesCons {c c₁ c₂ c' : Copier} {e : Entry} {es es' : List Entry} {name : Symbol}
      {file : Handle .file} (hn : Copy.symbol e.name c = .ok name c₁)
      (hf : Copies c₁ (.node .file) e.file file c₂) (he : Copies c₂ .entries es es' c') :
      Copies c .entries (e :: es) (⟨name, file⟩ :: es') c'

theorem Copies.steps {c c' : Copier} {p : Part} {v w : p.Value} (h : Copies c p v w c') :
    c.Steps c' := by
  induction h with
  | node _ _ ha hr ih =>
    have hadd := (Copy.stepwise_add _).steps ha
    exact ih.trans (hadd.trans ((Copy.stepwise_reportCopy _ _ _ _).steps hr))
  | slot _ _ _ ih => exact ih
  | optSome _ ih => exact ih
  | listSome _ _ ha ih => exact ih.trans ((Copy.stepwise_addList _ _).steps ha)
  | package _ _ ha ih => exact ih.trans ((Copy.stepwise_addEntries _).steps ha)
  | text hy => exact (Copy.stepwise_symbol _).steps hy
  | valuesCons _ _ ih ihs => exact ih.trans ihs
  | itemsCons _ _ ih ihs => exact ih.trans ihs
  | entriesCons hn _ _ ih ihs => exact ((Copy.stepwise_symbol _).steps hn).trans (ih.trans ihs)
  | optNone | listNone | scalar | optScalar | valuesNil | itemsNil | entriesNil => exact .refl

/-! ## Fields without packages -/

/-- Whether a field refers neither to a package nor to the entries of one. -/
def FieldType.packageFree : FieldType → Bool
  | .node sl | .optNode sl | .list sl => sl.kind ≠ .package
  | .entries => false
  | .text | .scalar _ | .optScalar _ => true

/-- Only a package has fields that lead to packages. -/
theorem Tag.packageFree_of_kind_ne {t : Tag} (h : t.kind ≠ .package) :
    ∀ f ∈ t.fields, f.type.packageFree = true := by
  have key : ∀ t ∈ Tag.all, t.kind ≠ .package → ∀ f ∈ t.fields, f.type.packageFree = true := by
    decide +kernel
  exact key t t.mem_all h

theorem Copier.Steps.isInPlace_eq {c c' : Copier} (h : c.Steps c') :
    c'.isInPlace = c.isInPlace := by
  rw [isInPlace, isInPlace, h.source?_eq]

theorem Copier.source_eq_dest {c : Copier} (h : c.isInPlace = true) : c.source = c.dest := by
  unfold isInPlace at h
  simp [source, Option.isNone_iff_eq_none.mp h]

/-! ## A copy that succeeds follows the rules -/

section
variable {copy : Copy.NodeCopy}
  (hcopy : ∀ {c c' : Copier} {k : Kind} {h h' : Handle k}, copy k h c = .ok h' c' →
    (c.isInPlace = true → k ≠ .package) → Copies c (.node k) h h' c')
include hcopy

theorem copies_slot {c c' : Copier} {sl : Slot} {h h' : Handle sl.kind}
    (hs : Copy.slot copy sl h c = .ok h' c') (hp : c.isInPlace = true → sl.kind ≠ .package) :
    Copies c (.value (.node sl)) h h' c' := by
  obtain ⟨content, hc, ha, hn⟩ := Copy.slot_ok hs
  exact .slot hc ha (hcopy hn hp)

theorem copies_items {sl : Slot} :
    ∀ {c c' : Copier} {hs hs' : List (Handle sl.kind)},
      hs.mapM (Copy.slot copy sl) c = .ok hs' c' →
      (c.isInPlace = true → sl.kind ≠ .package) → Copies c (.items sl) hs hs' c'
  | _, _, [], _, h, _ => by
    obtain ⟨rfl, rfl⟩ := Copy.pure_ok.mp h
    exact .itemsNil
  | _, _, _ :: _, _, h, hp => by
    obtain ⟨h', c₁, hs', hh, hhs, rfl⟩ := Copy.mapM_cons_ok.mp h
    have hn := copies_slot hcopy hh hp
    exact .itemsCons hn (copies_items hhs (by rwa [hn.steps.isInPlace_eq]))

theorem copies_entries :
    ∀ {c c' : Copier} {es es' : List Entry}, es.mapM (Copy.entry copy) c = .ok es' c' →
      c.isInPlace = false → Copies c .entries es es' c'
  | _, _, [], _, h, _ => by
    obtain ⟨rfl, rfl⟩ := Copy.pure_ok.mp h
    exact .entriesNil
  | _, _, _ :: _, _, h, hp => by
    obtain ⟨e', c₁, es', he, hes, rfl⟩ := Copy.mapM_cons_ok.mp h
    obtain ⟨_, _, hget, he⟩ := Copy.bind_ok.mp he
    obtain ⟨rfl, rfl⟩ := Copy.get_ok.mp hget
    simp only [hp, Bool.false_eq_true, if_false] at he
    obtain ⟨name, c₂, hn, he⟩ := Copy.bind_ok.mp he
    obtain ⟨file, hf, rfl⟩ := Copy.map_ok.mp he
    have hp₂ := ((Copy.stepwise_symbol _).steps hn).isInPlace_eq
    have hfile := hcopy hf (by simp)
    refine .entriesCons hn hfile (copies_entries hes ?_)
    rw [hfile.steps.isInPlace_eq, hp₂, hp]

theorem copies_value : ∀ {c c' : Copier} {t : FieldType} {v w : t.Value},
    Copy.value copy t v c = .ok w c' → (c.isInPlace = true → t.packageFree = true) →
      Copies c (.value t) v w c'
  | _, _, .node _, _, _, h, hp => copies_slot hcopy h (by simpa [FieldType.packageFree] using hp)
  | _, _, .optNode _, none, _, h, _ => by
    obtain ⟨rfl, rfl⟩ := Copy.pure_ok.mp h
    exact .optNone
  | _, _, .optNode _, some _, _, h, hp => by
    obtain ⟨h', hs, rfl⟩ := Copy.map_ok.mp h
    exact .optSome (copies_slot hcopy hs (by simpa [FieldType.packageFree] using hp))
  | _, _, .list _, none, _, h, _ => by
    obtain ⟨rfl, rfl⟩ := Copy.pure_ok.mp h
    exact .listNone
  | _, _, .list _, some _, _, h, hp => by
    obtain ⟨r', hr', rfl⟩ := Copy.map_ok.mp h
    obtain ⟨hs, _, hread, hr'⟩ := Copy.bind_ok.mp hr'
    obtain ⟨hr, rfl⟩ := Copy.read_ok.mp hread
    obtain ⟨hs', c₁, hi, ha⟩ := Copy.bind_ok.mp hr'
    exact .listSome hr (copies_items hcopy hi (by simpa [FieldType.packageFree] using hp)) ha
  | c, _, .entries, _, _, h, hp => by
    obtain ⟨es, _, hread, h⟩ := Copy.bind_ok.mp h
    obtain ⟨hr, rfl⟩ := Copy.read_ok.mp hread
    obtain ⟨es', c₁, he, ha⟩ := Copy.bind_ok.mp h
    exact .package hr (copies_entries hcopy he (by simpa [FieldType.packageFree] using hp)) ha
  | _, _, .text, _, _, h, _ => .text h
  | _, _, .scalar _, v, _, h, _ => by
    obtain ⟨rfl, rfl⟩ := Copy.pure_ok.mp h
    exact .scalar v
  | _, _, .optScalar _, v, _, h, _ => by
    obtain ⟨rfl, rfl⟩ := Copy.pure_ok.mp h
    exact .optScalar v

theorem copies_values : ∀ {c c' : Copier} {fs : List Field} {vs ws : Values fs},
    vs.mapM (Copy.value copy) c = .ok ws c' →
      (c.isInPlace = true → ∀ f ∈ fs, f.type.packageFree = true) →
      Copies c (.values fs) vs ws c'
  | _, _, _, .nil, _, h, _ => by
    obtain ⟨rfl, rfl⟩ := Copy.pure_ok.mp h
    exact .valuesNil
  | _, _, f :: fs, .cons _ _, _, h, hp => by
    obtain ⟨w, c₁, ws, hw, hws, rfl⟩ := Copy.values_cons_ok.mp h
    have hv := copies_value hcopy hw fun hin => hp hin f (by simp)
    refine .valuesCons hv (copies_values hws ?_)
    rw [hv.steps.isInPlace_eq]
    exact fun hin g hg => hp hin g (List.mem_cons_of_mem _ hg)

end

/-- **Deep copies.** A copy that succeeds follows the rules, unless it is the copy
of a package in place. -/
theorem copies_within : ∀ {d : Nat} {c c' : Copier} {k : Kind} {h h' : Handle k},
    Copy.within d k h c = .ok h' c' → (c.isInPlace = true → k ≠ .package) →
      Copies c (.node k) h h' c'
  | 0, _, _, _, _, _, h, _ => by cases h
  | d + 1, c, _, _, _, _, h, hp => by
    obtain ⟨⟨tag, vs, hk⟩, ws, c₁, c₂, hc, hv, ha, hr⟩ := Copy.within_succ_ok h
    subst hk
    -- in place this is no package, so none of its fields leads to one
    exact .node hc (copies_values copies_within hv fun hin => Tag.packageFree_of_kind_ne (hp hin))
      ha hr

/-! ## Packages in place -/

/-- The content of a package. -/
def packageContent (name : Symbol) (r : ListRef) : Content .package :=
  .of .package (.cons name (.cons r .nil))

theorem exists_packageContent (c : Content .package) : ∃ name r, c = packageContent name r := by
  obtain ⟨tag, vs, hk⟩ := c
  have htag : tag = .package := by
    have key : ∀ t ∈ Tag.all, t.kind = .package → t = .package := by decide
    exact key tag tag.mem_all hk
  subst htag
  match vs with
  | .cons name (.cons r .nil) => exact ⟨name, r, rfl⟩

theorem entry_inPlace {copy : Copy.NodeCopy} {c c' : Copier} {e e' : Entry}
    (hin : c.isInPlace = true) (h : Copy.entry copy e c = .ok e' c') : e = e' ∧ c = c' := by
  obtain ⟨_, _, hget, h⟩ := Copy.bind_ok.mp h
  obtain ⟨rfl, rfl⟩ := Copy.get_ok.mp hget
  simp only [hin, if_true] at h
  obtain ⟨_, c₁, hread, h⟩ := Copy.bind_ok.mp h
  obtain ⟨-, rfl⟩ := Copy.read_ok.mp hread
  obtain ⟨name, hn, rfl⟩ := Copy.map_ok.mp h
  obtain ⟨text, -, ⟨-, rfl, rfl⟩ | ⟨hacross, -⟩⟩ := Copy.symbol_ok hn
  · exact ⟨rfl, rfl⟩
  · simp [hin] at hacross

theorem entries_inPlace {copy : Copy.NodeCopy} {c : Copier} (hin : c.isInPlace = true) :
    ∀ {c' : Copier} {es es' : List Entry}, es.mapM (Copy.entry copy) c = .ok es' c' →
      es = es' ∧ c = c'
  | _, [], _, h => Copy.pure_ok.mp h
  | _, _ :: _, _, h => by
    obtain ⟨e', c₁, es', he, hes, rfl⟩ := Copy.mapM_cons_ok.mp h
    obtain ⟨rfl, rfl⟩ := entry_inPlace hin he
    obtain ⟨rfl, rfl⟩ := entries_inPlace hin hes
    exact ⟨rfl, rfl⟩

/-- **Packages in place.** The copy of a package in place is one new node with the
same name and with a new range that holds the same entries. -/
theorem within_package_inPlace {d : Nat} {c c' : Copier} {h h' : Handle .package}
    (hin : c.isInPlace = true) (hw : Copy.within d .package h c = .ok h' c') :
    ∃ name r es, c.dest.contentAt h = .ok (packageContent name r) ∧ c.dest.entriesAt r = .ok es ∧
      h' = ((c.dest.allocEntries es).2.alloc
        (packageContent name (c.dest.allocEntries es).1) Span.none).1 ∧
      c'.dest = ((c.dest.allocEntries es).2.alloc
        (packageContent name (c.dest.allocEntries es).1) Span.none).2 := by
  have hsource := Copier.source_eq_dest hin
  cases d with
  | zero => cases hw
  | succ d =>
    obtain ⟨content, ws, c₁, c₂, hc, hv, ha, hrep⟩ := Copy.within_succ_ok hw
    obtain ⟨name, r, rfl⟩ := exists_packageContent content
    obtain ⟨name', _, _, hn, hfiles, rfl⟩ := Copy.values_cons_ok.mp hv
    obtain ⟨r', _, _, hr, hnil, rfl⟩ := Copy.values_cons_ok.mp hfiles
    obtain ⟨rfl, rfl⟩ := Copy.pure_ok.mp hnil
    obtain ⟨text, -, ⟨-, rfl, rfl⟩ | ⟨hacross, -⟩⟩ := Copy.symbol_ok hn
    · obtain ⟨es, _, hread, hr⟩ := Copy.bind_ok.mp hr
      obtain ⟨hes, rfl⟩ := Copy.read_ok.mp hread
      obtain ⟨es', _, hmap, hadd⟩ := Copy.bind_ok.mp hr
      obtain ⟨rfl, rfl⟩ := entries_inPlace hin hmap
      obtain ⟨rfl, hdest⟩ := Copy.addEntries_ok hadd
      obtain ⟨rfl, hdest'⟩ := Copy.add_ok ha
      rw [Copy.reportCopy_ok hrep, hdest', hdest]
      exact ⟨_, r, es, hsource ▸ hc, hsource ▸ hes, rfl, rfl⟩
    · simp [hin] at hacross

end GoTree
