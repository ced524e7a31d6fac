import Mathlib.Data.Finset.Card
import Mathlib.Order.Monotone.Basic
import GoTree.Proofs.Store.Growth
import GoTree.Tree.Printer
/-!
# Unfolding without a depth

`Store.unfold` follows handles at most as deep as the store has nodes.
`Store.Unfolds` is the same reading as a set of rules, one for each kind of
field, with no bound on the depth: its derivations are finite, so a node that
lies below itself has none.

A rule is about one `Part` of the reading: a node, the value of one field, the
values of several fields, the items of a list, the entries of a package.

* `unfold_eq_ok`: the bounded reading succeeds exactly where there is a
  derivation. The depth allowed is enough because the set of nodes that unfold
  within depth `d` grows with `d`, stops growing for good as soon as it does not
  grow once, and never holds more nodes than the store.
* `dump_eq_ok`: a dump is the printed form of the tree that is derived.
* `Unfolds.grows`: a derivation stays valid while the store grows.
-/
namespace GoTree

/-! ## Computations that give a result -/

theorem bind_eq_ok {ε α β : Type} {x : Except ε α} {f : α → Except ε β} {b : β} :
    (x >>= f) = .ok b ↔ ∃ a, x = .ok a ∧ f a = .ok b := by
  cases x <;> simp [bind, Except.bind]

theorem map_eq_ok {ε α β : Type} {x : Except ε α} {f : α → β} {b : β} :
    x.map f = .ok b ↔ ∃ a, x = .ok a ∧ f a = b := by
  cases x <;> simp [Except.map]

theorem pure_eq_ok {ε α : Type} {a b : α} : (pure a : Except ε α) = .ok b ↔ a = b := by
  simp [pure, Except.pure]

theorem orFault_eq_ok {α : Type} {x : Except Dangling α} {a : α} :
    orFault x = .ok a ↔ x = .ok a := by
  cases x <;> simp [orFault]

theorem mapM_cons_eq_ok {ε α β : Type} {f : α → Except ε β} {a : α} {as : List α} {bs : List β} :
    (a :: as).mapM f = .ok bs ↔
      ∃ b bs', f a = .ok b ∧ as.mapM f = .ok bs' ∧ bs = b :: bs' := by
  simp only [List.mapM_cons, bind_eq_ok, pure_eq_ok]
  constructor
  · rintro ⟨b, hb, bs', hbs, rfl⟩
    exact ⟨b, bs', hb, hbs, rfl⟩
  · rintro ⟨b, bs', hb, hbs, rfl⟩
    exact ⟨b, hb, bs', hbs, rfl⟩

/-- A step that succeeds wherever another does lets the whole list succeed. -/
theorem mapM_mono {ε α β : Type} {f g : α → Except ε β} :
    ∀ {as : List α} {bs : List β}, (∀ a ∈ as, ∀ b, f a = .ok b → g a = .ok b) →
      as.mapM f = .ok bs → as.mapM g = .ok bs
  | [], _, _, h => h
  | a :: as, _, hfg, h => by
    obtain ⟨b, bs', hb, hbs, rfl⟩ := mapM_cons_eq_ok.mp h
    exact mapM_cons_eq_ok.mpr ⟨b, bs', hfg a (by simp) b hb,
      mapM_mono (fun a' ha' => hfg a' (List.mem_cons_of_mem _ ha')) hbs, rfl⟩

/-! ## Parts -/

/-- What a traversal of a store is at. -/
inductive Part where
  | node (k : Kind)
  | value (t : FieldType)
  | values (fs : List Field)
  | items (slot : Slot)
  | entries

/-- What the store holds for a part. -/
def Part.Value : Part → Type
  | node k => Handle k
  | value t => t.Value
  | values fs => Values fs
  | items slot => List (Handle slot.kind)
  | entries => List Entry

/-- What a part stands for: one tree, or a row of them. -/
def Part.Shape : Part → Type
  | node _ | value _ => Tree
  | values _ | items _ | entries => List Tree

/-- The references of a part. -/
def Part.links : (p : Part) → p.Value → List Link
  | .node _, h => [.node (Handle.node h)]
  | .value t, v => (t.link? v).toList
  | .values _, vs => (Values.toList vs).filterMap fun p => p.1.type.link? p.2
  | .items _, hs => List.map (fun h => .node h.node) hs
  | .entries, es => List.map (fun e => .node e.file.node) es

theorem Part.links_values_cons {f : Field} {fs : List Field} (v : f.type.Value) (vs : Values fs) :
    (Part.values (f :: fs)).links (.cons v vs) =
      (Part.value f.type).links v ++ (Part.values fs).links vs := by
  simp only [Part.links, Values.toList, List.filterMap_cons]
  cases f.type.link? v <;> simp

namespace Store

/-- The trees that a part of the store stands for. -/
inductive Unfolds (s : Store) : (p : Part) → p.Value → p.Shape → Prop where
  | node {k : Kind} {h : Handle k} {c : Content k} {ts : List Tree} (hc : s.contentAt h = .ok c)
      (hv : Unfolds s (.values c.tag.fields) c.values ts) :
      Unfolds s (.node k) h (.node c.tag ts)
  | slot {sl : Slot} {h : Handle sl.kind} {t : Tree} (ht : Unfolds s (.node sl.kind) h t) :
      Unfolds s (.value (.node sl)) h t
  | optNone {sl : Slot} : Unfolds s (.value (.optNode sl)) none .absent
  | optSome {sl : Slot} {h : Handle sl.kind} {t : Tree} (ht : Unfolds s (.node sl.kind) h t) :
      Unfolds s (.value (.optNode sl)) (some h) t
  | listNone {sl : Slot} : Unfolds s (.value (.list sl)) none .absent
  | listSome {sl : Slot} {r : ListRef} {hs : List (Handle sl.kind)} {ts : List Tree}
      (hr : s.listAt sl.kind r = .ok hs) (hi : Unfolds s (.items sl) hs ts) :
      Unfolds s (.value (.list sl)) (some r) (.list ts)
  | package {r : ListRef} {es : List Entry} {ts : List Tree} (hr : s.entriesAt r = .ok es)
      (he : Unfolds s .entries es ts) : Unfolds s (.value .entries) r (.list ts)
  | text {y : Symbol} {text : String} (hy : s.textAt y = .ok text) :
      Unfolds s (.value .text) y (.text text)
  | scalar {t : ScalarType} (v : t.Value) : Unfolds s (.value (.scalar t)) v (.word (t.name v))
  | optScalarNone {t : ScalarType} : Unfolds s (.value (.optScalar t)) none .absent
  | optScalarSome {t : ScalarType} (v : t.Value) :
      Unfolds s (.value (.optScalar t)) (some v) (.word (t.name v))
  | valuesNil : Unfolds s (.values []) .nil []
  | valuesCons {f : Field} {fs : List Field} {v : f.type.Value} {vs : Values fs} {t : Tree}
      {ts : List Tree} (hv : Unfolds s (.value f.type) v t) (hvs : Unfolds s (.values fs) vs ts) :
      Unfolds s (.values (f :: fs)) (.cons v vs) (t :: ts)
  | itemsNil {sl : Slot} : Unfolds s (.items sl) [] []
  | itemsCons {sl : Slot} {h : Handle sl.kind} {hs : List (Handle sl.kind)} {t : Tree}
      {ts : List Tree} (ht : Unfolds s (.node sl.kind) h t) (hts : Unfolds s (.items sl) hs ts) :
      Unfolds s (.items sl) (h :: hs) (t :: ts)
  | entriesNil : Unfolds s .entries [] []
  | entriesCons {e : Entry} {es : List Entry} {name : String} {file : Tree} {ts : List Tree}
      (hn : s.textAt e.name = .ok name) (hf : Unfolds s (.node .file) e.file file)
      (he : Unfolds s .entries es ts) : Unfolds s .entries (e :: es) (.entry name file :: ts)

/-- A derivation stays valid while the store grows. -/
theorem Unfolds.grows {s t : Store} (g : s.Grows t) {p : Part} {v : p.Value} {x : p.Shape}
    (h : s.Unfolds p v x) : t.Unfolds p v x := by
  induction h with
  | node hc _ ih => exact .node (g.contentAt hc) ih
  | slot _ ih => exact .slot ih
  | optNone => exact .optNone
  | optSome _ ih => exact .optSome ih
  | listNone => exact .listNone
  | listSome hr _ ih => exact .listSome (g.listAt hr) ih
  | package hr _ ih => exact .package (g.entriesAt hr) ih
  | text hy => exact .text (g.textAt hy)
  | scalar v => exact .scalar v
  | optScalarNone => exact .optScalarNone
  | optScalarSome v => exact .optScalarSome v
  | valuesNil => exact .valuesNil
  | valuesCons _ _ ih ihs => exact .valuesCons ih ihs
  | itemsNil => exact .itemsNil
  | itemsCons _ _ ih ihs => exact .itemsCons ih ihs
  | entriesNil => exact .entriesNil
  | entriesCons hn _ _ ih ihs => exact .entriesCons (g.textAt hn) ih ihs

/-! ## The bounded reading follows the rules -/

/-- The reading of a part, given how to read a node. -/
def unfoldPart (s : Store) (child : Node → Except Fault Tree) :
    (p : Part) → p.Value → Except Fault p.Shape
  | .node _, h => child (Handle.node h)
  | .value t, v => s.unfoldValue child t v
  | .values _, vs => (Values.toList vs).mapM fun p => s.unfoldValue child p.1.type p.2
  | .items _, hs => List.mapM (fun h => child h.node) hs
  | .entries, es => List.mapM (s.unfoldEntry child) es

theorem unfoldEntry_eq_ok {s : Store} {child : Node → Except Fault Tree} {e : Entry} {t : Tree} :
    s.unfoldEntry child e = .ok t ↔
      ∃ name file, s.textAt e.name = .ok name ∧ child e.file.node = .ok file ∧
        t = .entry name file := by
  simp only [unfoldEntry, bind_eq_ok, orFault_eq_ok, pure_eq_ok]
  constructor
  · rintro ⟨name, hn, file, hf, rfl⟩
    exact ⟨name, file, hn, hf, rfl⟩
  · rintro ⟨name, file, hn, hf, rfl⟩
    exact ⟨name, hn, file, hf, rfl⟩

theorem unfoldWithin_succ_eq_ok {s : Store} {d : Nat} {n : Node} {t : Tree} :
    s.unfoldWithin (d + 1) n = .ok t ↔
      ∃ c ts, s.contentAt n.handle = .ok c ∧
        s.unfoldPart (s.unfoldWithin d) (.values c.tag.fields) c.values = .ok ts ∧
        t = .node c.tag ts := by
  simp only [unfoldWithin, bind_eq_ok, orFault_eq_ok, pure_eq_ok, unfoldPart]
  constructor
  · rintro ⟨c, hc, ts, hts, rfl⟩
    exact ⟨c, ts, hc, hts, rfl⟩
  · rintro ⟨c, ts, hc, hts, rfl⟩
    exact ⟨c, hc, ts, hts, rfl⟩

theorem unfoldValue_list_eq_ok {s : Store} {child : Node → Except Fault Tree} {sl : Slot}
    {r : ListRef} {t : Tree} :
    s.unfoldValue child (.list sl) (some r) = .ok t ↔
      ∃ hs ts, s.listAt sl.kind r = .ok hs ∧ s.unfoldPart child (.items sl) hs = .ok ts ∧
        t = .list ts := by
  simp only [unfoldPart, unfoldValue, bind_eq_ok, orFault_eq_ok, pure_eq_ok]
  constructor
  · rintro ⟨hs, hr, ts, hts, rfl⟩
    exact ⟨hs, ts, hr, hts, rfl⟩
  · rintro ⟨hs, ts, hr, hts, rfl⟩
    exact ⟨hs, hr, ts, hts, rfl⟩

theorem unfoldValue_entries_eq_ok {s : Store} {child : Node → Except Fault Tree} {r : ListRef}
    {t : Tree} :
    s.unfoldValue child .entries r = .ok t ↔
      ∃ es ts, s.entriesAt r = .ok es ∧ s.unfoldPart child .entries es = .ok ts ∧
        t = .list ts := by
  simp only [unfoldPart, unfoldValue, bind_eq_ok, orFault_eq_ok, pure_eq_ok]
  constructor
  · rintro ⟨es, hr, ts, hts, rfl⟩
    exact ⟨es, ts, hr, hts, rfl⟩
  · rintro ⟨es, ts, hr, hts, rfl⟩
    exact ⟨es, hr, ts, hts, rfl⟩

section
variable {s : Store} {child : Node → Except Fault Tree}
  (hchild : ∀ {k : Kind} {h : Handle k} {t : Tree}, child h.node = .ok t → s.Unfolds (.node k) h t)
include hchild

theorem unfolds_items {sl : Slot} : ∀ {hs : List (Handle sl.kind)} {ts : List Tree},
    s.unfoldPart child (.items sl) hs = .ok ts → s.Unfolds (.items sl) hs ts
  | [], _, h => by
    obtain rfl := pure_eq_ok.mp h
    exact .itemsNil
  | _ :: _, _, h => by
    obtain ⟨t, ts, ht, hts, rfl⟩ := mapM_cons_eq_ok.mp h
    exact .itemsCons (hchild ht) (unfolds_items hts)

theorem unfolds_entries : ∀ {es : List Entry} {ts : List Tree},
    s.unfoldPart child .entries es = .ok ts → s.Unfolds .entries es ts
  | [], _, h => by
    obtain rfl := pure_eq_ok.mp h
    exact .entriesNil
  | _ :: _, _, h => by
    obtain ⟨t, ts, ht, hts, rfl⟩ := mapM_cons_eq_ok.mp h
    obtain ⟨name, file, hn, hf, rfl⟩ := unfoldEntry_eq_ok.mp ht
    exact .entriesCons hn (hchild hf) (unfolds_entries hts)

theorem unfolds_value : ∀ {ft : FieldType} {v : ft.Value} {t : Tree},
    s.unfoldPart child (.value ft) v = .ok t → s.Unfolds (.value ft) v t
  | .node _, _, _, h => .slot (hchild h)
  | .optNode _, none, _, h => by
    obtain rfl := pure_eq_ok.mp h
    exact .optNone
  | .optNode _, some _, _, h => .optSome (hchild h)
  | .list _, none, _, h => by
    obtain rfl := pure_eq_ok.mp h
    exact .listNone
  | .list _, some _, _, h => by
    obtain ⟨hs, ts, hr, hts, rfl⟩ := unfoldValue_list_eq_ok.mp h
    exact .listSome hr (unfolds_items hchild hts)
  | .entries, _, _, h => by
    obtain ⟨es, ts, hr, hts, rfl⟩ := unfoldValue_entries_eq_ok.mp h
    exact .package hr (unfolds_entries hchild hts)
  | .text, _, _, h => by
    obtain ⟨text, hy, rfl⟩ := map_eq_ok.mp h
    exact .text (orFault_eq_ok.mp hy)
  | .scalar _, v, _, h => by
    obtain rfl := pure_eq_ok.mp h
    exact .scalar v
  | .optScalar _, none, _, h => by
    obtain rfl := pure_eq_ok.mp h
    exact .optScalarNone
  | .optScalar _, some v, _, h => by
    obtain rfl := pure_eq_ok.mp h
    exact .optScalarSome v

theorem unfolds_values : ∀ {fs : List Field} {vs : Values fs} {ts : List Tree},
    s.unfoldPart child (.values fs) vs = .ok ts → s.Unfolds (.values fs) vs ts
  | _, .nil, _, h => by
    obtain rfl := pure_eq_ok.mp h
    exact .valuesNil
  | _, .cons _ _, _, h => by
    obtain ⟨t, ts, ht, hts, rfl⟩ := mapM_cons_eq_ok.mp h
    exact .valuesCons (unfolds_value hchild ht) (unfolds_values hts)

end

theorem unfolds_of_unfoldWithin {s : Store} : ∀ {d : Nat} {k : Kind} {h : Handle k} {t : Tree},
    s.unfoldWithin d h.node = .ok t → s.Unfolds (.node k) h t
  | 0, _, _, _, h => by cases h
  | d + 1, _, _, _, h => by
    obtain ⟨c, ts, hc, hts, rfl⟩ := unfoldWithin_succ_eq_ok.mp h
    exact .node hc (unfolds_values unfolds_of_unfoldWithin hts)

/-! ## The depth is enough -/

/-- A reading of nodes that succeeds wherever another does lets every part
succeed that the other lets succeed. -/
theorem unfoldValue_mono {s : Store} {child child' : Node → Except Fault Tree}
    (hc : ∀ n t, child n = .ok t → child' n = .ok t) :
    ∀ {ft : FieldType} {v : ft.Value} {t : Tree},
      s.unfoldValue child ft v = .ok t → s.unfoldValue child' ft v = .ok t
  | .node _, _, _, h => hc _ _ h
  | .optNode _, none, _, h => h
  | .optNode _, some _, _, h => hc _ _ h
  | .list _, none, _, h => h
  | .list _, some _, _, h => by
    obtain ⟨hs, ts, hr, hts, rfl⟩ := unfoldValue_list_eq_ok.mp h
    exact unfoldValue_list_eq_ok.mpr ⟨hs, ts, hr, mapM_mono (fun _ _ => hc _) hts, rfl⟩
  | .entries, _, _, h => by
    obtain ⟨es, ts, hr, hts, rfl⟩ := unfoldValue_entries_eq_ok.mp h
    refine unfoldValue_entries_eq_ok.mpr ⟨es, ts, hr, mapM_mono ?_ hts, rfl⟩
    intro e _ t ht
    obtain ⟨name, file, hn, hf, rfl⟩ := unfoldEntry_eq_ok.mp ht
    exact unfoldEntry_eq_ok.mpr ⟨name, file, hn, hc _ _ hf, rfl⟩
  | .text, _, _, h => h
  | .scalar _, _, _, h => h
  | .optScalar _, none, _, h => h
  | .optScalar _, some _, _, h => h

theorem unfoldPart_mono {s : Store} {child child' : Node → Except Fault Tree}
    (hc : ∀ n t, child n = .ok t → child' n = .ok t) {p : Part} {v : p.Value}
    {x : p.Shape} (h : s.unfoldPart child p v = .ok x) : s.unfoldPart child' p v = .ok x := by
  cases p with
  | node k => exact hc _ _ h
  | value ft => exact unfoldValue_mono hc h
  | values fs => exact mapM_mono (fun _ _ _ => unfoldValue_mono hc) h
  | items sl => exact mapM_mono (fun _ _ => hc _) h
  | entries =>
    refine mapM_mono (fun e _ t ht => ?_) h
    obtain ⟨name, file, hn, hf, rfl⟩ := unfoldEntry_eq_ok.mp ht
    exact unfoldEntry_eq_ok.mpr ⟨name, file, hn, hc _ _ hf, rfl⟩

theorem unfoldWithin_succ {s : Store} : ∀ {d : Nat} {n : Node} {t : Tree},
    s.unfoldWithin d n = .ok t → s.unfoldWithin (d + 1) n = .ok t
  | 0, _, _, h => by cases h
  | d + 1, _, _, h => by
    obtain ⟨c, ts, hc, hts, rfl⟩ := unfoldWithin_succ_eq_ok.mp h
    have hts' := unfoldPart_mono (fun _ _ => unfoldWithin_succ) hts
    exact unfoldWithin_succ_eq_ok.mpr ⟨c, ts, hc, hts', rfl⟩

theorem unfoldWithin_mono {s : Store} {d e : Nat} (hde : d ≤ e) {n : Node} {t : Tree}
    (h : s.unfoldWithin d n = .ok t) : s.unfoldWithin e n = .ok t := by
  induction hde with
  | refl => exact h
  | step _ ih => exact unfoldWithin_succ ih

theorem unfoldPart_max_left {s : Store} {d : Nat} (e : Nat) {p : Part} {v : p.Value} {x : p.Shape}
    (h : s.unfoldPart (s.unfoldWithin d) p v = .ok x) :
    s.unfoldPart (s.unfoldWithin (max d e)) p v = .ok x :=
  unfoldPart_mono (fun _ _ => unfoldWithin_mono (Nat.le_max_left d e)) h

theorem unfoldPart_max_right {s : Store} (d : Nat) {e : Nat} {p : Part} {v : p.Value} {x : p.Shape}
    (h : s.unfoldPart (s.unfoldWithin e) p v = .ok x) :
    s.unfoldPart (s.unfoldWithin (max d e)) p v = .ok x :=
  unfoldPart_mono (fun _ _ => unfoldWithin_mono (Nat.le_max_right d e)) h

/-- What the rules derive is read at some depth. -/
theorem Unfolds.exists_depth {s : Store} {p : Part} {v : p.Value} {x : p.Shape}
    (h : s.Unfolds p v x) : ∃ d, s.unfoldPart (s.unfoldWithin d) p v = .ok x := by
  induction h with
  | node hc _ ih =>
    obtain ⟨d, hd⟩ := ih
    exact ⟨d + 1, unfoldWithin_succ_eq_ok.mpr ⟨_, _, hc, hd, rfl⟩⟩
  | slot _ ih => exact ih
  | optNone => exact ⟨0, rfl⟩
  | optSome _ ih => exact ih
  | listNone => exact ⟨0, rfl⟩
  | listSome hr _ ih =>
    obtain ⟨d, hd⟩ := ih
    exact ⟨d, unfoldValue_list_eq_ok.mpr ⟨_, _, hr, hd, rfl⟩⟩
  | package hr _ ih =>
    obtain ⟨d, hd⟩ := ih
    exact ⟨d, unfoldValue_entries_eq_ok.mpr ⟨_, _, hr, hd, rfl⟩⟩
  | text hy => exact ⟨0, map_eq_ok.mpr ⟨_, orFault_eq_ok.mpr hy, rfl⟩⟩
  | scalar v => exact ⟨0, rfl⟩
  | optScalarNone => exact ⟨0, rfl⟩
  | optScalarSome v => exact ⟨0, rfl⟩
  | valuesNil => exact ⟨0, rfl⟩
  | valuesCons _ _ ih ihs =>
    obtain ⟨d, hd⟩ := ih
    obtain ⟨e, he⟩ := ihs
    exact ⟨max d e, mapM_cons_eq_ok.mpr
      ⟨_, _, unfoldPart_max_left e hd, unfoldPart_max_right d he, rfl⟩⟩
  | itemsNil => exact ⟨0, rfl⟩
  | itemsCons _ _ ih ihs =>
    obtain ⟨d, hd⟩ := ih
    obtain ⟨e, he⟩ := ihs
    exact ⟨max d e, mapM_cons_eq_ok.mpr
      ⟨_, _, unfoldPart_max_left e hd, unfoldPart_max_right d he, rfl⟩⟩
  | entriesNil => exact ⟨0, rfl⟩
  | entriesCons hn _ _ ih ihs =>
    obtain ⟨d, hd⟩ := ih
    obtain ⟨e, he⟩ := ihs
    exact ⟨max d e, mapM_cons_eq_ok.mpr
      ⟨_, _, unfoldEntry_eq_ok.mpr ⟨_, _, hn, unfoldPart_max_left e hd, rfl⟩,
        unfoldPart_max_right d he, rfl⟩⟩

/-- The nodes that unfold within a depth. -/
def unfolded (s : Store) (d : Nat) : Finset Node :=
  (empty.added s).toFinset.filter fun n => (s.unfoldWithin d n).isOk

theorem mem_unfolded {s : Store} {d : Nat} {n : Node} :
    n ∈ s.unfolded d ↔ ∃ t, s.unfoldWithin d n = .ok t := by
  have hok : (s.unfoldWithin d n).isOk = true ↔ ∃ t, s.unfoldWithin d n = .ok t := by
    cases s.unfoldWithin d n <;> simp [Except.isOk, Except.toBool]
  simp only [unfolded, Finset.mem_filter, List.mem_toFinset, hok, and_iff_right_iff_imp]
  rintro ⟨t, ht⟩
  cases d with
  | zero => cases ht
  | succ d =>
    obtain ⟨c, -, hc, -, -⟩ := unfoldWithin_succ_eq_ok.mp ht
    exact mem_added_of_contentAt hc

theorem unfolded_subset (s : Store) {d e : Nat} (hde : d ≤ e) : s.unfolded d ⊆ s.unfolded e := by
  intro n hn
  obtain ⟨t, ht⟩ := mem_unfolded.mp hn
  exact mem_unfolded.mpr ⟨t, unfoldWithin_mono hde ht⟩

/-- If one more level of depth unfolds no new node, neither does another. -/
theorem unfolded_stable {s : Store} {d : Nat} (h : s.unfolded (d + 1) ⊆ s.unfolded d) :
    s.unfolded (d + 2) ⊆ s.unfolded (d + 1) := by
  intro n hn
  obtain ⟨t, ht⟩ := mem_unfolded.mp hn
  obtain ⟨c, ts, hc, hts, rfl⟩ := unfoldWithin_succ_eq_ok.mp ht
  have hback : ∀ m u, s.unfoldWithin (d + 1) m = .ok u → s.unfoldWithin d m = .ok u := by
    intro m u hu
    obtain ⟨u', hu'⟩ := mem_unfolded.mp (h (mem_unfolded.mpr ⟨u, hu⟩))
    rw [hu', ← hu, unfoldWithin_succ hu']
  exact mem_unfolded.mpr
    ⟨_, unfoldWithin_succ_eq_ok.mpr ⟨c, ts, hc, unfoldPart_mono hback hts, rfl⟩⟩

/-- No depth unfolds more nodes than the depth of the store. -/
theorem unfolded_subset_depth (s : Store) (d : Nat) : s.unfolded d ⊆ s.unfolded s.depth := by
  have hcard : ∀ e, (s.unfolded e).card ≤ s.nodeCount := by
    intro e
    calc (s.unfolded e).card ≤ (empty.added s).toFinset.card := Finset.card_filter_le _ _
      _ ≤ (empty.added s).length := List.toFinset_card_le _
      _ = s.nodeCount := length_added_empty s
  have hstab : ∀ e, (s.unfolded e).card = (s.unfolded (e + 1)).card →
      (s.unfolded (e + 1)).card = (s.unfolded (e + 2)).card := by
    intro e he
    have heq := Finset.eq_of_subset_of_card_le (unfolded_subset s (Nat.le_succ e)) he.ge
    have hsub := unfolded_stable (s := s) (d := e) (by rw [← heq])
    rw [(unfolded_subset s (Nat.le_succ (e + 1))).antisymm hsub]
  -- a bounded sequence that stops for good once it stops has stopped at the bound
  have hmono : Monotone fun e => (s.unfolded e).card :=
    fun _ _ hde => Finset.card_le_card (unfolded_subset s hde)
  have hmax := Nat.stabilises_of_monotone hmono hcard hstab
    (show s.nodeCount ≤ max d s.depth from by simp [depth])
  have hdepth := Nat.stabilises_of_monotone hmono hcard hstab
    (show s.nodeCount ≤ s.depth from Nat.le_succ _)
  have heq := Finset.eq_of_subset_of_card_le (unfolded_subset s (Nat.le_max_right d s.depth))
    (by rw [hmax, hdepth])
  exact (unfolded_subset s (Nat.le_max_left d s.depth)).trans heq.ge

/-- **Unfolding.** The bounded reading succeeds exactly where the rules derive a
tree, with that tree. -/
theorem unfold_eq_ok {s : Store} {k : Kind} {h : Handle k} {t : Tree} :
    s.unfold h.node = .ok t ↔ s.Unfolds (.node k) h t := by
  constructor
  · exact unfolds_of_unfoldWithin
  · intro ht
    obtain ⟨d, hd⟩ := ht.exists_depth
    change s.unfoldWithin d h.node = .ok t at hd
    obtain ⟨u, hu⟩ := mem_unfolded.mp (unfolded_subset_depth s d (mem_unfolded.mpr ⟨t, hd⟩))
    have h1 := unfoldWithin_mono (Nat.le_max_left d s.depth) hd
    have h2 := unfoldWithin_mono (Nat.le_max_right d s.depth) hu
    rw [h1] at h2
    cases h2
    exact hu

/-- A dump is the printed form of the tree that is derived. -/
theorem dump_eq_ok {s : Store} {k : Kind} {h : Handle k} {text : String} :
    s.dump h.node = .ok text ↔ ∃ t : Tree, s.Unfolds (.node k) h t ∧ t.print = text := by
  simp only [dump_eq_print, map_eq_ok, unfold_eq_ok]

end Store
end GoTree
