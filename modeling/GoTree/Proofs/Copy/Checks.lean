import GoTree.Copy.Error
import GoTree.Proofs.Store.Acyclic
/-!
# What a deep copy relies on

A copy needs every handle, range and symbol under its root to resolve, and every
slot to hold what it admits. A `Check` is one of these demands. `Store.under`
lists the checks that come right below one, in declared order, and
`Store.Traverses` is the depth-first traversal that this gives: each check before
those under it, and those before the next one. `Store.offence` says what is wrong
with a check, if anything is.

The same demands can be read off the unfolded tree: that it exists means that
everything resolves, and `Tree.fits` says that its slots are filled as they should
be.

* `Traverses.unique`: there is one traversal at most.
* `Traverses.mem_of_meets`: it meets all that can be met.
* `Unfolds.clean`: under a root whose tree exists and fits, nothing offends.
-/
namespace GoTree

/-! ## Checks -/

/-- One thing that has to hold: a handle resolves, to a node that its slot admits,
or a range or a symbol resolves. -/
inductive Check where
  | node (sl : Slot) (h : Handle sl.kind)
  | list (sl : Slot) (r : ListRef)
  | entries (r : ListRef)
  | symbol (y : Symbol)

/-- The check of a field, if there is something to check. -/
def FieldType.check? : (t : FieldType) → t.Value → Option Check
  | .node sl, h => some (.node sl h)
  | .optNode sl, h? => h?.map (.node sl)
  | .list sl, r? => r?.map (.list sl)
  | .entries, r => some (.entries r)
  | .text, y => some (.symbol y)
  | .scalar _, _ => none
  | .optScalar _, _ => none

/-- The checks of a part, in order. A package entry is its name, then its file. -/
def Part.checks : (p : Part) → p.Value → List Check
  | .node k, h => [.node (.any k) h]
  | .value t, v => (t.check? v).toList
  | .values _, vs => (Values.toList vs).filterMap fun p => p.1.type.check? p.2
  | .items sl, hs => List.map (.node sl) hs
  | .entries, es => List.flatMap (fun e => [.symbol e.name, .node (.any .file) e.file]) es

theorem Part.checks_values_cons {f : Field} {fs : List Field} (v : f.type.Value) (vs : Values fs) :
    (Part.values (f :: fs)).checks (.cons v vs) =
      (Part.value f.type).checks v ++ (Part.values fs).checks vs := by
  simp only [Part.checks, Values.toList, List.filterMap_cons]
  cases f.type.check? v <;> simp

namespace Store

/-- The checks right below a check: those of the fields of a node, of the items of
a list, of the entries of a package. A check that does not resolve has none. -/
def look (s : Store) : Check → Except Dangling (List Check)
  | .node _ h => (s.contentAt h).map fun c => (Part.values c.tag.fields).checks c.values
  | .list sl r => (s.listAt sl.kind r).map (Part.items sl).checks
  | .entries r => (s.entriesAt r).map Part.entries.checks
  | .symbol y => (s.textAt y).map fun _ => []

def under (s : Store) (i : Check) : List Check :=
  match s.look i with
  | .ok is => is
  | .error _ => []

/-- The node of a check that its slot does not admit. -/
def misplaced? (s : Store) : Check → Option CopyError
  | .node sl h =>
    (s.tag? h.node).bind fun tag => if sl.admits tag then none else some (.unsupported tag sl)
  | .list _ _ | .entries _ | .symbol _ => none

/-- What is wrong with a check: it does not resolve, or else its slot does not
admit the node. -/
def offence (s : Store) (i : Check) : Option CopyError :=
  match s.look i with
  | .ok _ => s.misplaced? i
  | .error d => some (.fault (.dangling d))

/-! ## Traversals -/

/-- The checks met from a row of checks, depth first. -/
inductive Traverses (s : Store) : List Check → List Check → Prop where
  | nil : Traverses s [] []
  | cons {i : Check} {is below later : List Check} (hb : Traverses s (s.under i) below)
      (hl : Traverses s is later) : Traverses s (i :: is) (i :: (below ++ later))

/-- The checks that can be met from a check, itself included. -/
def Meets (s : Store) : Check → Check → Prop :=
  Relation.ReflTransGen fun i j => j ∈ s.under i

theorem Traverses.unique {s : Store} {is js ks : List Check} (hj : s.Traverses is js)
    (hk : s.Traverses is ks) : js = ks := by
  induction hj generalizing ks with
  | nil => cases hk; rfl
  | cons _ _ ihb ihl =>
    cases hk with
    | cons hb hl => rw [ihb hb, ihl hl]

theorem Traverses.append {s : Store} {is js is' js' : List Check} (h : s.Traverses is js)
    (h' : s.Traverses is' js') : s.Traverses (is ++ is') (js ++ js') := by
  induction h with
  | nil => exact h'
  | cons hb _ _ ihl =>
    rw [List.cons_append, List.cons_append, List.append_assoc]
    exact .cons hb ihl

theorem Traverses.singleton {s : Store} {i : Check} {js : List Check}
    (h : s.Traverses (s.under i) js) : s.Traverses [i] (i :: js) := by
  simpa using Traverses.cons h .nil

/-- A traversal meets all that can be met from where it starts. -/
theorem Traverses.mem_of_meets {s : Store} {is js : List Check} (h : s.Traverses is js) :
    ∀ {i j : Check}, i ∈ is → s.Meets i j → j ∈ js := by
  induction h with
  | nil => intro i j hi; cases hi
  | cons _ _ ihb ihl =>
    intro i' j hi hm
    rcases List.mem_cons.mp hi with rfl | hi
    · rcases Relation.ReflTransGen.cases_head hm with rfl | ⟨x, hx, hm⟩
      · exact List.mem_cons_self
      · exact List.mem_cons_of_mem _ (List.mem_append_left _ (ihb hx hm))
    · exact List.mem_cons_of_mem _ (List.mem_append_right _ (ihl hi hm))

/-! ## What a check gives -/

section
variable {s : Store}

theorem under_eq {i : Check} {is : List Check} (h : s.look i = .ok is) : s.under i = is := by
  rw [under, h]

theorem under_eq_nil {i : Check} {d : Dangling} (h : s.look i = .error d) : s.under i = [] := by
  rw [under, h]

theorem offence_eq_dangling {i : Check} {d : Dangling} (h : s.look i = .error d) :
    s.offence i = some (.fault (.dangling d)) := by
  rw [offence, h]

theorem look_node (sl : Slot) {h : Handle sl.kind} {c : Content sl.kind}
    (hc : s.contentAt h = .ok c) :
    s.look (.node sl h) = .ok ((Part.values c.tag.fields).checks c.values) := by
  rw [look, hc]
  rfl

theorem look_node_error (sl : Slot) {h : Handle sl.kind} {d : Dangling}
    (hc : s.contentAt h = .error d) : s.look (.node sl h) = .error d := by
  rw [look, hc]
  rfl

theorem look_list {sl : Slot} {r : ListRef} {hs : List (Handle sl.kind)}
    (hr : s.listAt sl.kind r = .ok hs) :
    s.look (.list sl r) = .ok ((Part.items sl).checks hs) := by
  rw [look, hr]
  rfl

theorem look_entries {r : ListRef} {es : List Entry} (hr : s.entriesAt r = .ok es) :
    s.look (.entries r) = .ok (Part.entries.checks es) := by
  rw [look, hr]
  rfl

theorem look_symbol {y : Symbol} {text : String} (hy : s.textAt y = .ok text) :
    s.look (.symbol y) = .ok [] := by
  rw [look, hy]
  rfl

theorem offence_node (sl : Slot) {h : Handle sl.kind} {c : Content sl.kind}
    (hc : s.contentAt h = .ok c) :
    s.offence (.node sl h) = if sl.admits c.tag then none else some (.unsupported c.tag sl) := by
  rw [offence, look_node sl hc]
  simp [misplaced?, tag?_eq hc]

theorem offence_any {k : Kind} {h : Handle k} {c : Content k} (hc : s.contentAt h = .ok c) :
    s.offence (.node (.any k) h) = none :=
  offence_node (.any k) hc

end

/-! ## Traversals in which nothing offends -/

/-- Nothing that is met from a row of checks is wrong. -/
def Clean (s : Store) (is : List Check) : Prop :=
  ∃ js, s.Traverses is js ∧ ∀ j ∈ js, s.offence j = none

section
variable {s : Store}

theorem clean_nil : s.Clean [] := ⟨[], .nil, by simp⟩

theorem Clean.append {is js : List Check} (h : s.Clean is) (h' : s.Clean js) :
    s.Clean (is ++ js) := by
  obtain ⟨ks, hk, hks⟩ := h
  obtain ⟨ls, hl, hls⟩ := h'
  refine ⟨ks ++ ls, hk.append hl, fun j hj => ?_⟩
  rcases List.mem_append.mp hj with hj | hj
  · exact hks j hj
  · exact hls j hj

theorem clean_singleton {i : Check} {is : List Check} (hlook : s.look i = .ok is)
    (hi : s.misplaced? i = none) (h : s.Clean is) : s.Clean [i] := by
  obtain ⟨js, hj, hjs⟩ := h
  refine ⟨i :: js, .singleton (by rwa [under_eq hlook]), fun j hj => ?_⟩
  rcases List.mem_cons.mp hj with rfl | hj
  · rw [offence, hlook]
    exact hi
  · exact hjs j hj

theorem Clean.below {i : Check} (h : s.Clean [i]) : s.Clean (s.under i) := by
  obtain ⟨_, hj, hjs⟩ := h
  cases hj with
  | cons hb _ => exact ⟨_, hb, fun j hj => hjs j (by simp [hj])⟩

theorem clean_node (sl : Slot) {h : Handle sl.kind} {c : Content sl.kind}
    (hc : s.contentAt h = .ok c) (ha : sl.admits c.tag = true)
    (hv : s.Clean ((Part.values c.tag.fields).checks c.values)) : s.Clean [.node sl h] :=
  clean_singleton (look_node sl hc) (by simp [misplaced?, tag?_eq hc, ha]) hv

end

end Store

/-! ## Slots of a tree -/

/-- Whether a node with a given tag may stand in a field. -/
def FieldType.admits : FieldType → Tag → Bool
  | .node sl, tag | .optNode sl, tag | .list sl, tag => sl.admits tag
  | .entries, _ | .text, _ | .scalar _, _ | .optScalar _, _ => true

namespace Tree

mutual

/-- Whether a tree may stand in a field, with every slot below it holding what it
admits. -/
def fits (type : FieldType) : Tree → Bool
  | .node tag ts => type.admits tag && fitsFields tag.fields ts
  | .list ts => fitsItems type ts
  | .entry _ file => fits type file
  | .absent | .text _ | .word _ => true

def fitsFields : List Field → List Tree → Bool
  | f :: fs, t :: ts => fits f.type t && fitsFields fs ts
  | _, _ => true

def fitsItems (type : FieldType) : List Tree → Bool
  | [] => true
  | t :: ts => fits type t && fitsItems type ts

end

end Tree

/-- Whether what a part stands for has every slot holding what it admits. -/
def Part.fits : (p : Part) → p.Shape → Bool
  | .node k, t => Tree.fits (.node (.any k)) t
  | .value ft, t => Tree.fits ft t
  | .values fs, ts => Tree.fitsFields fs ts
  | .items sl, ts => Tree.fitsItems (.list sl) ts
  | .entries, ts => Tree.fitsItems .entries ts

namespace Store

/-- What is in order in a slot that admits every node is so in each slot that
admits it. -/
theorem clean_slot {s : Store} {sl : Slot} {h : Handle sl.kind} {type : FieldType} {t : Tree}
    (ht : s.Unfolds (.node sl.kind) h t) (htype : ∀ tag, type.admits tag = sl.admits tag)
    (hfit : t.fits type = true)
    (hclean : (Part.node sl.kind).fits t = true → s.Clean [.node (.any sl.kind) h]) :
    s.Clean [.node sl h] := by
  cases ht with
  | @node _ _ c ts hc _ =>
    simp only [Tree.fits, htype, Bool.and_eq_true] at hfit
    have hany : (Part.node sl.kind).fits (Tree.node c.tag ts) = true := by
      simpa [Part.fits, Tree.fits, FieldType.admits, Slot.admits, Slot.tag?] using hfit.2
    have hunder := (hclean hany).below
    rw [under_eq (look_node (.any sl.kind) hc)] at hunder
    exact clean_node sl hc hfit.1 hunder

/-- **Nothing offends** under a part whose trees exist and fit. -/
theorem Unfolds.clean {s : Store} {p : Part} {v : p.Value} {x : p.Shape} (h : s.Unfolds p v x)
    (hfit : p.fits x = true) : s.Clean (p.checks v) := by
  induction h with
  | @node k _ _ _ hc _ ih =>
    simp only [Part.fits, Tree.fits, Bool.and_eq_true] at hfit
    exact clean_node (.any k) hc rfl (ih hfit.2)
  | slot ht ih => exact clean_slot ht (fun _ => rfl) hfit ih
  | optSome ht ih => exact clean_slot ht (fun _ => rfl) hfit ih
  | listSome hr _ ih => exact clean_singleton (look_list hr) rfl (ih hfit)
  | package hr _ ih => exact clean_singleton (look_entries hr) rfl (ih hfit)
  | text hy => exact clean_singleton (look_symbol hy) rfl clean_nil
  | valuesCons _ _ ih ihs =>
    simp only [Part.fits, Tree.fitsFields, Bool.and_eq_true] at hfit
    rw [Part.checks_values_cons]
    exact (ih hfit.1).append (ihs hfit.2)
  | itemsCons ht _ ih ihs =>
    simp only [Part.fits, Tree.fitsItems, Bool.and_eq_true] at hfit
    exact (clean_slot ht (fun _ => rfl) hfit.1 ih).append (ihs hfit.2)
  | @entriesCons e _ _ _ _ hn hf _ ih ihs =>
    simp only [Part.fits, Tree.fitsItems, Tree.fits, Bool.and_eq_true] at hfit
    have hname : s.Clean [.symbol e.name] := clean_singleton (look_symbol hn) rfl clean_nil
    have hfile : s.Clean [.node (.any .file) e.file] :=
      clean_slot hf (fun _ => rfl) hfit.1 ih
    exact (hname.append hfile).append (ihs hfit.2)
  | optNone | listNone | scalar | optScalarNone | optScalarSome | valuesNil | itemsNil
  | entriesNil => exact clean_nil

end Store
end GoTree
