import GoTree.Proofs.Copy.Checks
import GoTree.Proofs.Copy.Content
/-!
# When a copy across stores fails

Across stores the source stays as it is while it is read, so what a copy answers
is a matter of the source alone. It makes the checks under its root in the order
of a depth-first traversal and fails with the first one that is wrong. It succeeds
if there is none, which is when the root unfolds to a tree whose slots all hold
what they admit.

* `makes_within`: copying a node makes the checks under it.
* `Copies.fits`: what was copied unfolds to a tree that fits.
* `run_perform_outcome`: the answer to a request for a node, whatever the destination
  holds and whatever was asked for before.
-/
namespace GoTree

open Store (Traverses)

/-! ## Answers that depend on the source alone -/

namespace Copy

variable {α β γ : Type} {s : Store}

/-- From every copier that reads the store `s`, the computation fails with the
given error, or does not fail if there is none. -/
def Settles (s : Store) (x : CopyM α) (o : Option CopyError) : Prop :=
  ∀ c : Copier, c.source? = some s →
    match x c with
    | .ok _ c' => o = none ∧ c'.source? = some s
    | .error e _ => o = some e

theorem settles_pure (a : α) : Settles s (pure a) none := fun _ hc => ⟨rfl, hc⟩

theorem settles_throw (e : CopyError) : Settles s (throw e : CopyM α) (some e) := fun _ _ => rfl

theorem settles_get : Settles s get none := fun _ hc => ⟨rfl, hc⟩

theorem settles_bind {x : CopyM α} {f : α → CopyM β} {o o' : Option CopyError}
    (hx : Settles s x o) (hf : ∀ a, Settles s (f a) o') : Settles s (x >>= f) (o.or o') := by
  intro c hc
  have hxc := hx c hc
  simp only [bind, EStateM.bind]
  cases h : x c with
  | ok a c₁ =>
    rw [h] at hxc
    obtain ⟨rfl, hc₁⟩ := hxc
    exact hf a c₁ hc₁
  | error e c₁ =>
    rw [h] at hxc
    simp only at hxc ⊢
    rw [hxc, Option.some_or]

theorem settles_read {f : Store → Except Dangling α} {k : α → CopyM β} {a : α}
    {o : Option CopyError} (hf : f s = .ok a) (hk : Settles s (k a) o) :
    Settles s (read f >>= k) o := by
  intro c hc
  have hsource : f c.source = .ok a := by rw [Copier.source, hc]; exact hf
  rw [read_bind hsource]
  exact hk c hc

theorem settles_read_error {f : Store → Except Dangling α} {k : α → CopyM β} {d : Dangling}
    (hf : f s = .error d) : Settles s (read f >>= k) (some (.fault (.dangling d))) := by
  intro c hc
  have hsource : f c.source = .error d := by rw [Copier.source, hc]; exact hf
  have hread : read f c = .error (.fault (.dangling d)) c := by simp only [read, hsource]
  simp only [bind, EStateM.bind, hread]

theorem settles_add {k : Kind} (content : Content k) : Settles s (add content) none :=
  fun _ hc => ⟨rfl, hc⟩

theorem settles_addList (k : Kind) (items : List (Handle k)) : Settles s (addList k items) none :=
  fun _ hc => ⟨rfl, hc⟩

theorem settles_addEntries (items : List Entry) : Settles s (addEntries items) none :=
  fun _ hc => ⟨rfl, hc⟩

theorem settles_report (e : CopyEvent) : Settles s (report e) none := fun _ hc => ⟨rfl, hc⟩

theorem settles_reportCopy (before : Nat) {k : Kind} (h copy : Handle k) (content : Content k) :
    Settles s (reportCopy before h copy content) none := by
  intro c hc
  obtain ⟨log, hlog⟩ := reportCopy_eq before h copy content c
  rw [hlog]
  exact ⟨rfl, hc⟩

/-! ## Computations that make checks -/

/-- The computation makes the checks `is` and those under them, depth first, and
fails with the first that is wrong. -/
def Makes (s : Store) (x : CopyM α) (is : List Check) : Prop :=
  ∃ js, s.Traverses is js ∧ Settles s x (js.findSome? s.offence)

theorem makes_nil {x : CopyM α} (hx : Settles s x none) : Makes s x [] := ⟨[], .nil, hx⟩

/-- Two computations in a row make the checks of both. -/
theorem makes_seq {x : CopyM α} {y : CopyM β} {is js : List Check} (f : α → β → γ)
    (hx : Makes s x is) (hy : Makes s y js) :
    Makes s (do let a ← x; let b ← y; return f a b) (is ++ js) := by
  obtain ⟨ks, hk, hxk⟩ := hx
  obtain ⟨ls, hl, hyl⟩ := hy
  refine ⟨ks ++ ls, hk.append hl, ?_⟩
  rw [List.findSome?_append]
  refine settles_bind hxk fun a => ?_
  have := settles_bind hyl fun b => settles_pure (s := s) (f a b)
  rwa [Option.or_none] at this

/-- What comes after the checks may not fail any more. -/
theorem makes_then {x : CopyM α} {f : α → CopyM β} {is : List Check} (hx : Makes s x is)
    (hf : ∀ a, Settles s (f a) none) : Makes s (x >>= f) is := by
  obtain ⟨js, hj, hxj⟩ := hx
  refine ⟨js, hj, ?_⟩
  have := settles_bind hxj hf
  rwa [Option.or_none] at this

theorem makes_map {x : CopyM α} {is : List Check} (f : α → β) (hx : Makes s x is) :
    Makes s (do return f (← x)) is :=
  makes_then hx fun a => settles_pure (f a)

/-- A check that is in order, then the checks under it. -/
theorem makes_below {x : CopyM α} {i : Check} {is : List Check} (hlook : s.look i = .ok is)
    (hi : s.offence i = none) (hx : Makes s x is) : Makes s x [i] := by
  obtain ⟨js, hj, hxj⟩ := hx
  refine ⟨i :: js, .singleton (by rwa [Store.under_eq hlook]), ?_⟩
  rwa [List.findSome?_cons, hi]

/-- A check that is wrong. -/
theorem makes_wrong {x : CopyM α} {i : Check} {js : List Check} {e : CopyError}
    (hj : s.Traverses (s.under i) js) (hi : s.offence i = some e) (hx : Settles s x (some e)) :
    Makes s x [i] := by
  refine ⟨i :: js, .singleton hj, ?_⟩
  rwa [List.findSome?_cons, hi]

/-- A check that does not resolve. -/
theorem makes_dangling {x : CopyM α} {i : Check} {d : Dangling} (hlook : s.look i = .error d)
    (hx : Settles s x (some (.fault (.dangling d)))) : Makes s x [i] :=
  makes_wrong (by rw [Store.under_eq_nil hlook]; exact .nil) (Store.offence_eq_dangling hlook) hx

theorem makes_read {f : Store → Except Dangling α} {k : α → CopyM β} {a : α} {is : List Check}
    (hf : f s = .ok a) (hk : Makes s (k a) is) : Makes s (read f >>= k) is := by
  obtain ⟨js, hj, hkj⟩ := hk
  exact ⟨js, hj, settles_read hf hkj⟩

/-- What makes a check that is in order makes those under it. -/
theorem Makes.below {x : CopyM α} {i : Check} {is : List Check} (hlook : s.look i = .ok is)
    (hi : s.offence i = none) (hx : Makes s x [i]) : Makes s x is := by
  obtain ⟨_, hj, hxj⟩ := hx
  cases hj with
  | @cons _ _ below _ hb hl =>
    cases hl
    rw [Store.under_eq hlook] at hb
    refine ⟨below, hb, ?_⟩
    rwa [List.append_nil, List.findSome?_cons, hi] at hxj

/-! ## A copy makes the checks under its root -/

theorem makes_symbol (y : Symbol) : Makes s (symbol y) [.symbol y] := by
  cases hy : s.textAt y with
  | ok text =>
    have hlook := Store.look_symbol hy
    refine makes_below hlook (by rw [Store.offence, hlook]; rfl) (makes_nil (settles_read hy ?_))
    intro c hc
    have hin : c.isInPlace = false := by rw [Copier.isInPlace, hc]; rfl
    simp only [hin, Bool.false_eq_true, if_false]
    exact ⟨trivial, hc⟩
  | error d =>
    refine makes_dangling (by rw [Store.look, hy]; rfl) (settles_read_error hy)

theorem entry_across {copy : NodeCopy} {e : Entry} {c : Copier} (hin : c.isInPlace = false) :
    entry copy e c =
      (do let name ← symbol e.name; let file ← copy .file e.file; return ⟨name, file⟩ : CopyM Entry)
        c := by
  rw [entry, get_bind, if_neg (by simp [hin])]

section
variable {copy : NodeCopy} {d : Nat}
  (hcopy : ∀ {k : Kind} {h : Handle k}, s.shallow d h.node = true →
    Makes s (copy k h) [.node (.any k) h])
include hcopy

theorem makes_slot {sl : Slot} {h : Handle sl.kind} (hs : s.shallow d h.node = true) :
    Makes s (slot copy sl h) [.node sl h] := by
  cases hc : s.contentAt h with
  | error e => exact makes_dangling (Store.look_node_error sl hc) (settles_read_error hc)
  | ok c =>
    have hlook := Store.look_node sl hc
    have hoffence := Store.offence_node sl hc
    -- the copy itself makes the check again, in a slot that admits every node
    have hbelow := (hcopy hs).below (Store.look_node (.any sl.kind) hc) (Store.offence_any hc)
    cases ha : sl.admits c.tag with
    | true =>
      refine makes_below hlook (by rw [hoffence, ha]; rfl) (makes_read hc ?_)
      rwa [ha, if_pos rfl]
    | false =>
      obtain ⟨js, hj, -⟩ := hbelow
      refine makes_wrong (by rwa [Store.under_eq hlook]) (by rw [hoffence, ha]; rfl) ?_
      refine settles_read hc ?_
      rw [ha, if_neg (by decide)]
      exact settles_throw _

theorem makes_items {sl : Slot} : ∀ {hs : List (Handle sl.kind)},
    (∀ h ∈ hs, s.shallow d h.node = true) →
      Makes s (hs.mapM (slot copy sl)) ((Part.items sl).checks hs)
  | [], _ => makes_nil (settles_pure [])
  | h :: hs, hall => by
    rw [List.mapM_cons]
    have hh := makes_slot hcopy (hall h List.mem_cons_self)
    exact makes_seq List.cons hh (makes_items fun x hx => hall x (List.mem_cons_of_mem _ hx))

theorem makes_list {sl : Slot} {r : ListRef}
    (hs : s.ShallowBelow d (.value (.list sl)) (some r)) :
    Makes s (list copy sl r) [.list sl r] := by
  cases hr : s.listAt sl.kind r with
  | error e => exact makes_dangling (by rw [Store.look, hr]; rfl) (settles_read_error hr)
  | ok hs' =>
    have hlook := Store.look_list hr
    refine makes_below hlook (by rw [Store.offence, hlook]; rfl) (makes_read hr ?_)
    exact makes_then (makes_items hcopy (Store.shallowBelow_list hr hs)) fun _ =>
      settles_addList _ _

theorem makes_entry {e : Entry} (hs : s.shallow d e.file.node = true) :
    Makes s (entry copy e) [.symbol e.name, .node (.any .file) e.file] := by
  obtain ⟨js, hj, hsettle⟩ := makes_seq Entry.mk (makes_symbol (s := s) e.name) (hcopy hs)
  refine ⟨js, hj, fun c hc => ?_⟩
  rw [entry_across (by rw [Copier.isInPlace, hc]; rfl)]
  exact hsettle c hc

theorem makes_entryItems : ∀ {es : List Entry},
    (∀ e ∈ es, s.shallow d e.file.node = true) →
      Makes s (es.mapM (entry copy)) (Part.entries.checks es)
  | [], _ => makes_nil (settles_pure [])
  | e :: es, hall => by
    rw [List.mapM_cons]
    have he := makes_entry hcopy (hall e List.mem_cons_self)
    exact makes_seq List.cons he (makes_entryItems fun x hx => hall x (List.mem_cons_of_mem _ hx))

theorem makes_entries {r : ListRef} (hs : s.ShallowBelow d (.value .entries) r) :
    Makes s (entries copy r) [.entries r] := by
  cases hr : s.entriesAt r with
  | error e => exact makes_dangling (by rw [Store.look, hr]; rfl) (settles_read_error hr)
  | ok es =>
    have hlook := Store.look_entries hr
    refine makes_below hlook (by rw [Store.offence, hlook]; rfl) (makes_read hr ?_)
    exact makes_then (makes_entryItems hcopy (Store.shallowBelow_entries hr hs)) fun _ =>
      settles_addEntries _

theorem makes_value : ∀ {t : FieldType} {v : t.Value}, s.ShallowBelow d (.value t) v →
    Makes s (value copy t v) ((Part.value t).checks v)
  | .node _, _, hs => makes_slot hcopy (Store.shallow_of_slot hs)
  | .optNode _, none, _ => makes_nil (settles_pure none)
  | .optNode _, some _, hs => makes_map some (makes_slot hcopy (Store.shallow_of_optSlot hs))
  | .list _, none, _ => makes_nil (settles_pure none)
  | .list _, some _, hs => makes_map some (makes_list hcopy hs)
  | .entries, _, hs => makes_entries hcopy hs
  | .text, y, _ => makes_symbol y
  | .scalar _, v, _ => makes_nil (settles_pure v)
  | .optScalar _, v, _ => makes_nil (settles_pure v)

theorem makes_values : ∀ {fs : List Field} {vs : Values fs}, s.ShallowBelow d (.values fs) vs →
    Makes s (vs.mapM (value copy)) ((Part.values fs).checks vs)
  | _, .nil, _ => makes_nil (settles_pure Values.nil)
  | _, .cons v vs, hs => by
    obtain ⟨hv, hvs⟩ := Store.shallowBelow_values_cons hs
    rw [Part.checks_values_cons]
    exact makes_seq Values.cons (makes_value hcopy hv) (makes_values hvs)

end

/-- Copying a node makes the checks under it, if it nests no deeper than the copy
may. -/
theorem makes_within : ∀ {d : Nat} {k : Kind} {h : Handle k}, s.shallow d h.node = true →
    Makes s (within d k h) [.node (.any k) h]
  | 0, _, _, hs => by cases hs
  | d + 1, k, h, hs => by
    cases hc : s.contentAt h with
    | error e =>
      refine makes_dangling (Store.look_node_error (.any k) hc) ?_
      exact settles_bind (o := none) settles_get fun _ => settles_read_error hc
    | ok c =>
      refine makes_below (Store.look_node (.any k) hc) (Store.offence_any hc) ?_
      obtain ⟨js, hj, hvalues⟩ := makes_values makes_within (Store.shallowBelow_values hc hs)
      refine ⟨js, hj, ?_⟩
      refine settles_bind (o := none) settles_get fun c₀ => settles_read hc ?_
      -- once the fields are copied nothing fails any more
      have hrest := settles_bind hvalues fun values =>
        settles_bind (settles_add { c with values := values }) fun copy =>
          settles_bind (settles_reportCopy c₀.copied h copy { c with values := values }) fun _ =>
            settles_pure copy
      simpa using hrest

/-! ## Requests -/

theorem settles_depth {f : Nat → CopyM α} {o : Option CopyError}
    (hf : Settles s (f s.depth) o) : Settles s (depth >>= f) o := by
  intro c hc
  have hsource : c.source = s := by rw [Copier.source, hc]; rfl
  have hdepth : (depth >>= f) c = f c.source.depth c := rfl
  rw [hdepth, hsource]
  exact hf c hc

end Copy

/-- The slot and the handle that a request for a single node asks for. -/
def CopyRequest.root? : CopyRequest → Option ((sl : Slot) × Handle sl.kind)
  | .node n? => n?.map fun n => ⟨.any n.kind, n.handle⟩
  | .slot sl h? => h?.map fun h => ⟨sl, h⟩
  | .nodes _ | .list _ _ => none

namespace Copy

theorem makes_perform {s : Store} {sl : Slot} {h : Handle sl.kind} (ha : s.Acyclic h.node) :
    ∀ {r : CopyRequest}, r.root? = some ⟨sl, h⟩ → Makes s (perform r) [.node sl h]
  | .node (some n), hr => by
    cases hr
    obtain ⟨js, hj, hwithin⟩ := makes_map Handle.node (makes_within ha.shallow_depth)
    have hnode : Makes s (node n) [.node (.any n.kind) n.handle] :=
      ⟨js, hj, settles_bind (o := none) (settles_report _) fun _ => settles_depth hwithin⟩
    exact makes_map (fun m => CopyResult.node (some m)) hnode
  | .slot sl (some h), hr => by
    cases hr
    have hs : s.shallow s.depth h.node = true := ha.shallow_depth
    obtain ⟨js, hj, hslot⟩ := makes_map some (makes_slot makes_within hs)
    have hopt : Makes s (slotOpt sl (some h)) [.node sl h] := ⟨js, hj, settles_depth hslot⟩
    exact makes_map (fun h? => CopyResult.node (h?.map Handle.node)) hopt

end Copy

/-! ## What was copied fits -/

/-- A node that fits a field fits every field that admits the same. -/
theorem Store.Unfolds.fits_congr {s : Store} {k : Kind} {h : Handle k} {t : Tree}
    (ht : s.Unfolds (.node k) h t) {a b : FieldType} (hfit : t.fits a = true)
    (hab : ∀ tag, a.admits tag = b.admits tag) : t.fits b = true := by
  cases ht with
  | node => simpa only [Tree.fits, hab] using hfit

/-- What a deep copy reads unfolds to trees that fit. -/
theorem Copies.fits {c c' : Copier} {p : Part} {v w : p.Value} (h : Copies c p v w c') :
    ∃ t, c'.source.Unfolds p v t ∧ p.fits t = true := by
  induction h with
  | @node c c₁ c₂ c' _ _ _ _ _ _ _ hc hv ha hr ih =>
    obtain ⟨ts, hts, hfit⟩ := ih
    have hlater : c₁.Steps c' := ((Copy.stepwise_add _).steps ha).trans
      ((Copy.stepwise_reportCopy _ _ _ _).steps hr)
    have hc' := (hv.steps.trans hlater).source_grows.contentAt hc
    exact ⟨_, .node hc' (hts.grows hlater.source_grows), hfit⟩
  | slot hc ha hn ih =>
    obtain ⟨t, ht, hfit⟩ := ih
    refine ⟨t, .slot ht, ?_⟩
    cases ht with
    | node hc' _ =>
      have hcontent := hn.steps.source_grows.contentAt hc
      rw [hc'] at hcontent
      cases hcontent
      simp only [Part.fits, Tree.fits, Bool.and_eq_true] at hfit ⊢
      exact ⟨ha, hfit.2⟩
  | optNone => exact ⟨_, .optNone, rfl⟩
  | optSome _ ih =>
    obtain ⟨t, ht, hfit⟩ := ih
    cases ht with
    | slot ht => exact ⟨t, .optSome ht, ht.fits_congr hfit fun _ => rfl⟩
  | listNone => exact ⟨_, .listNone, rfl⟩
  | listSome hr hi ha ih =>
    obtain ⟨ts, hts, hfit⟩ := ih
    have hadd := (Copy.stepwise_addList _ _).steps ha
    have hr' := (hi.steps.trans hadd).source_grows.listAt hr
    exact ⟨_, .listSome hr' (hts.grows hadd.source_grows), hfit⟩
  | package hr he ha ih =>
    obtain ⟨ts, hts, hfit⟩ := ih
    have hadd := (Copy.stepwise_addEntries _).steps ha
    have hr' := (he.steps.trans hadd).source_grows.entriesAt hr
    exact ⟨_, .package hr' (hts.grows hadd.source_grows), hfit⟩
  | text hy =>
    obtain ⟨text, htext, -⟩ := Copy.symbol_textAt hy
    exact ⟨_, .text (((Copy.stepwise_symbol _).steps hy).source_grows.textAt htext), rfl⟩
  | scalar v => exact ⟨_, .scalar v, rfl⟩
  | optScalar v =>
    cases v with
    | none => exact ⟨_, .optScalarNone, rfl⟩
    | some v => exact ⟨_, .optScalarSome v, rfl⟩
  | valuesNil => exact ⟨_, .valuesNil, rfl⟩
  | valuesCons _ hvs ih ihs =>
    obtain ⟨t, ht, hfit⟩ := ih
    obtain ⟨ts, hts, hfits⟩ := ihs
    refine ⟨_, .valuesCons (ht.grows hvs.steps.source_grows) hts, ?_⟩
    simp only [Part.fits, Tree.fitsFields, Bool.and_eq_true]
    exact ⟨hfit, hfits⟩
  | itemsNil => exact ⟨_, .itemsNil, rfl⟩
  | itemsCons _ hi ih ihs =>
    obtain ⟨t, ht, hfit⟩ := ih
    obtain ⟨ts, hts, hfits⟩ := ihs
    cases ht with
    | slot ht =>
      refine ⟨_, .itemsCons (ht.grows hi.steps.source_grows) hts, ?_⟩
      simp only [Part.fits, Tree.fitsItems, Bool.and_eq_true]
      exact ⟨ht.fits_congr hfit fun _ => rfl, hfits⟩
  | entriesNil => exact ⟨_, .entriesNil, rfl⟩
  | entriesCons hn hf he ih ihs =>
    obtain ⟨t, ht, hfit⟩ := ih
    obtain ⟨ts, hts, hfits⟩ := ihs
    obtain ⟨name, hname, -⟩ := Copy.symbol_textAt hn
    have hnow := ((Copy.stepwise_symbol _).steps hn).trans (hf.steps.trans he.steps)
    refine ⟨_, .entriesCons (hnow.source_grows.textAt hname)
      (ht.grows he.steps.source_grows) hts, ?_⟩
    simp only [Part.fits, Tree.fitsItems, Tree.fits, Bool.and_eq_true]
    exact ⟨ht.fits_congr hfit fun _ => rfl, hfits⟩

/-! ## The answer to a request for a node -/

/-- A request for a node that succeeds copies it into the slot it asks for. -/
theorem copies_perform {c c' : Copier} {sl : Slot} {h : Handle sl.kind}
    (hp : c.isInPlace = true → sl.kind ≠ .package) : ∀ {r : CopyRequest} {a : CopyResult},
    r.root? = some ⟨sl, h⟩ → Copy.perform r c = .ok a c' →
      ∃ h' c₁, a = .node (some h'.node) ∧ c.Steps c₁ ∧ Copies c₁ (.value (.node sl)) h h' c'
  | .node (some n), _, hr, hok => by
    cases hr
    obtain ⟨m, hm, rfl⟩ := Copy.map_ok.mp hok
    obtain ⟨d, h', hw, rfl⟩ := Copy.node_ok hm
    have hdeep := copies_within hw hp
    cases hdeep with
    | node hc hv ha hr =>
      exact ⟨h', _, rfl, .single (.report _), .slot hc rfl (.node hc hv ha hr)⟩
  | .slot _ (some _), _, hr, hok => by
    cases hr
    obtain ⟨x, hx, rfl⟩ := Copy.map_ok.mp hok
    obtain ⟨d, c₁, hdepth, hd⟩ := Copy.bind_ok.mp hx
    obtain ⟨h', hs, rfl⟩ := Copy.map_ok.mp hd
    cases hdepth
    exact ⟨h', _, rfl, .refl, copies_slot copies_within hs hp⟩

theorem Store.Clean.findSome?_eq_none {s : Store} {is js : List Check} (h : s.Clean is)
    (hj : s.Traverses is js) : js.findSome? s.offence = none := by
  obtain ⟨ks, hk, hks⟩ := h
  rw [hj.unique hk]
  exact List.findSome?_eq_none_iff.mpr hks

namespace Copier

/-- **Outcome.** A copier across stores, whatever its destination and whatever it
was asked for before, answers a request for a node under which there is no cycle
from the source alone. It succeeds exactly if the node can be printed and every
slot of its tree holds what it admits. Otherwise it fails with what is wrong with
the first offending check of the depth-first traversal. -/
theorem run_perform_outcome (S D : Store) (earlier : List CopyRequest) {r : CopyRequest}
    {sl : Slot} {h : Handle sl.kind} (hr : r.root? = some ⟨sl, h⟩) (ha : S.Acyclic h.node) :
    let answer := (((across S D).run earlier).2.perform r).1
    ((∃ m, answer = .ok (.node (some m))) ↔
      (∃ text, S.dump h.node = .ok text) ∧
        ∀ t, S.unfold h.node = .ok t → t.fits (.node sl) = true) ∧
    ∃ checks, (∀ is, S.Traverses [.node sl h] is ↔ is = checks) ∧
      ∀ e, answer = .error e ↔ checks.findSome? S.offence = some e := by
  have hsource : ((across S D).run earlier).2.source? = some S := (steps_run _ earlier).source?_eq
  generalize ((across S D).run earlier).2 = c at hsource ⊢
  have hin : c.isInPlace = false := by rw [isInPlace, hsource]; rfl
  obtain ⟨js, hj, hsettle⟩ := Copy.makes_perform ha hr
  have hanswer := hsettle c hsource
  have hunique : ∀ is, S.Traverses [.node sl h] is ↔ is = js :=
    fun is => ⟨fun his => his.unique hj, fun his => his ▸ hj⟩
  unfold perform
  cases hperform : Copy.perform r c with
  | ok a c' =>
    rw [hperform] at hanswer
    obtain ⟨hnone, hsource'⟩ := hanswer
    obtain ⟨h', c₁, rfl, hsteps, hcopies⟩ := copies_perform (by simp [hin]) hr hperform
    obtain ⟨t, ht, hfit⟩ := hcopies.fits
    have hS : c'.source = S := by rw [source, hsource']; rfl
    rw [hS] at ht
    cases ht with
    | slot ht =>
      have hunfold := Store.unfold_eq_ok.mpr ht
      refine ⟨⟨fun _ => ⟨⟨_, Store.dump_eq_ok.mpr ⟨t, ht, rfl⟩⟩, fun u hu => ?_⟩,
        fun _ => ⟨_, rfl⟩⟩, js, hunique, fun e => by simp [hnone]⟩
      rw [hunfold] at hu
      cases hu
      exact hfit
  | error e c' =>
    rw [hperform] at hanswer
    refine ⟨⟨by simp, ?_⟩, js, hunique, fun e' => ?_⟩
    · rintro ⟨⟨text, htext⟩, hfits⟩
      obtain ⟨t, ht, -⟩ := Store.dump_eq_ok.mp htext
      have hclean := (Store.Unfolds.slot ht).clean (hfits t (Store.unfold_eq_ok.mpr ht))
      rw [hclean.findSome?_eq_none hj] at hanswer
      cases hanswer
    · simp only at hanswer
      rw [hanswer]
      simp

end Copier

/-- Adds a selector whose name is no identifier but a dereference of a node that is
not there. -/
def Store.addBadSelector (s : Store) : Handle .expr × Store :=
  let x := s.addIdent "x" Span.none
  let star := x.2.alloc (.of .starExpr (.cons ⟨9⟩ .nil)) Span.none
  star.2.alloc (.of .selectorExpr (.cons x.1 (.cons star.1 .nil))) Span.none

/-- The slot offends before the handle below it is looked at. -/
theorem outcome_badSelector :
    let src := Store.empty.addBadSelector
    let c := ((Copier.across src.2 src.2).run [.node (some ⟨.expr, 1⟩)]).2
    src.2.Acyclic src.1.node ∧
      src.2.dump src.1.node = .error (.dangling (.node .expr 9)) ∧
      (c.perform (.node (some src.1.node))).1 = .error (.unsupported .starExpr .ident) ∧
      ∃ checks, src.2.Traverses [.node (.any .expr) src.1] checks ∧
        checks.findSome? src.2.offence = some (.unsupported .starExpr .ident) := by
  intro src c
  have hacyclic : src.2.Acyclic src.1.node := Store.acyclic_of_shallow (d := 3) (by decide +kernel)
  have hanswer : (c.perform (.node (some src.1.node))).1 =
      .error (.unsupported .starExpr .ident) := by decide +kernel
  have hroot : (CopyRequest.node (some src.1.node)).root? = some ⟨.any .expr, src.1⟩ := rfl
  obtain ⟨-, checks, htrav, herror⟩ := Copier.run_perform_outcome src.2 src.2
    [.node (some ⟨.expr, 1⟩)] hroot hacyclic
  exact ⟨hacyclic, by decide +kernel, hanswer, checks, (htrav checks).mpr rfl,
    (herror _).mp hanswer⟩

end GoTree
