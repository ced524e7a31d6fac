import Mathlib.Algebra.Order.Group.Nat
import GoTree.Proofs.Copy.Outcome
/-!
# Copies in lockstep

Two copiers whose destinations are equal do the same, step by step, as long as
what they read is alike: they add the same nodes, lists and entries, intern the same
texts in the same order, and refuse the same node in the same slot. It does not
matter where the parts are kept in their stores, nor whether a copier goes across
or works in place, where the store that it reads grows and symbols are kept.

* `Copy.symbol_eq`: keeping a symbol is interning its text.
* `Copy.agree_within`: copies of nodes that are alike go in lockstep.
* `inPlace_perform_snapshot`: a copy in place is a copy from a snapshot.
* `across_perform_determined`: a copy across stores depends on the content only, so
  a copy of a copy is the same again.
-/
namespace GoTree

/-! ## Copiers that do the same -/

theorem Store.Grows.depth_le {s t : Store} (h : s.Grows t) : s.depth ≤ t.depth := by
  simp only [depth, nodeCount, Kind.all, List.foldl_cons, List.foldl_nil]
  gcongr <;> exact h.size_nodes _

theorem Store.intern_of_textAt {s : Store} {y : Symbol} {text : String}
    (h : s.textAt y = .ok text) : s.intern text = (y, s) := by
  have hfind := Interner.find?_eq_some_iff.mpr (textAt_eq_ok.mp h)
  simp only [intern, Interner.intern_of_find? hfind]

/-- Two copiers with equal destinations, of which one reads what is in `A` and the
other what is in `B`. If `packages` are to be copied, neither is in place. -/
structure Copier.Twins (A B : Store) (packages : Bool) (c c' : Copier) : Prop where
  left : A.Grows c.source
  right : B.Grows c'.source
  dest : c.dest = c'.dest
  copied : c.copied = c'.copied
  across : packages = true → c.isInPlace = false ∧ c'.isInPlace = false

theorem Copier.Twins.steps {A B : Store} {packages : Bool} {c c' c₁ c₁' : Copier}
    (h : Twins A B packages c c') (hs : c.Steps c₁) (hs' : c'.Steps c₁')
    (hdest : c₁.dest = c₁'.dest) (hcopied : c₁.copied = c₁'.copied) :
    Twins A B packages c₁ c₁' where
  left := h.left.trans hs.source_grows
  right := h.right.trans hs'.source_grows
  dest := hdest
  copied := hcopied
  across hp := by
    rw [hs.isInPlace_eq, hs'.isInPlace_eq]
    exact h.across hp

/-- What was reported so far plays no part. -/
theorem Copier.Twins.log {A B : Store} {packages : Bool} {c c' : Copier}
    (h : Twins A B packages c c') (log log' : Array CopyEvent) :
    Twins A B packages { c with log := log } { c' with log := log' } :=
  ⟨h.left, h.right, h.dest, h.copied, h.across⟩

namespace Copy

open Copier (Twins)

/-- Both computations gave one result, or both refused one node in one slot, and
the copiers are twins. -/
inductive SameResult (A B : Store) (packages : Bool) {α : Type} :
    EStateM.Result CopyError Copier α → EStateM.Result CopyError Copier α → Prop where
  | ok {a : α} {c c' : Copier} (h : Twins A B packages c c') :
      SameResult A B packages (.ok a c) (.ok a c')
  | unsupported {tag : Tag} {sl : Slot} {c c' : Copier} (h : Twins A B packages c c') :
      SameResult A B packages (.error (.unsupported tag sl) c) (.error (.unsupported tag sl) c')

/-- From twins the two computations do the same. -/
def Agree (A B : Store) (packages : Bool) {α : Type} (x y : CopyM α) : Prop :=
  ∀ c c', Twins A B packages c c' → SameResult A B packages (x c) (y c')

variable {α β γ : Type} {A B : Store} {packages : Bool}

theorem agree_pure (a : α) : Agree A B packages (pure a) (pure a) := fun _ _ h => .ok h

theorem agree_throw (tag : Tag) (sl : Slot) :
    Agree A B packages (throw (.unsupported tag sl) : CopyM α) (throw (.unsupported tag sl)) :=
  fun _ _ h => .unsupported h

theorem agree_bind {x y : CopyM α} {f g : α → CopyM β} (hx : Agree A B packages x y)
    (hf : ∀ a, Agree A B packages (f a) (g a)) : Agree A B packages (x >>= f) (y >>= g) := by
  intro c c' h
  have hxy := hx c c' h
  simp only [bind, EStateM.bind]
  generalize x c = r, y c' = r' at hxy
  cases hxy with
  | ok h => exact hf _ _ _ h
  | unsupported h => exact .unsupported h

theorem agree_map {x y : CopyM α} (f : α → β) (hx : Agree A B packages x y) :
    Agree A B packages (do return f (← x)) (do return f (← y)) :=
  agree_bind hx fun a => agree_pure (f a)

theorem agree_seq {x x' : CopyM α} {y y' : CopyM β} (f : α → β → γ)
    (hx : Agree A B packages x x') (hy : Agree A B packages y y') :
    Agree A B packages (do let a ← x; let b ← y; return f a b)
      (do let a ← x'; let b ← y'; return f a b) :=
  agree_bind hx fun a => agree_map (f a) hy

/-- What is looked up in the copier itself may differ. -/
theorem agree_get {f g : Copier → CopyM α} (hf : ∀ c c', Agree A B packages (f c) (g c')) :
    Agree A B packages (get >>= f) (get >>= g) :=
  fun c c' h => hf c c' c c' h

theorem agree_read {f : Store → Except Dangling α} {g : Store → Except Dangling β}
    {k : α → CopyM γ} {l : β → CopyM γ} {a : α} {b : β} (hf : ∀ {s}, A.Grows s → f s = .ok a)
    (hg : ∀ {s}, B.Grows s → g s = .ok b) (hk : Agree A B packages (k a) (l b)) :
    Agree A B packages (read f >>= k) (read g >>= l) := by
  intro c c' h
  rw [read_bind (hf h.left), read_bind (hg h.right)]
  exact hk c c' h

/-! ## Steps of twins -/

/-- Computations that change the destination, and count nodes, in one way. -/
theorem agree_change {x y : CopyM α} (f : Store → α × Store) (n : Nat)
    (hx : Stepwise x) (hy : Stepwise y)
    (hxf : ∀ c : Copier, A.Grows c.source →
      x c = .ok (f c.dest).1 { c with dest := (f c.dest).2, copied := c.copied + n })
    (hyf : ∀ c : Copier, B.Grows c.source →
      y c = .ok (f c.dest).1 { c with dest := (f c.dest).2, copied := c.copied + n }) :
    Agree A B packages x y := by
  intro c c' h
  have hsteps := hx.steps (hxf c h.left)
  have hsteps' := hy.steps (hyf c' h.right)
  rw [hxf c h.left, hyf c' h.right, h.dest]
  rw [h.dest] at hsteps
  exact .ok (h.steps hsteps hsteps' rfl (congrArg (· + n) h.copied))

theorem agree_add {k : Kind} (content : Content k) :
    Agree A B packages (add content) (add content) :=
  agree_change (·.alloc content Span.none) 1 (stepwise_add _) (stepwise_add _)
    (fun _ _ => rfl) fun _ _ => rfl

theorem agree_addList (k : Kind) (items : List (Handle k)) :
    Agree A B packages (addList k items) (addList k items) :=
  agree_change (·.allocList k items) 0 (stepwise_addList _ _) (stepwise_addList _ _)
    (fun _ _ => rfl) fun _ _ => rfl

theorem agree_addEntries (items : List Entry) :
    Agree A B packages (addEntries items) (addEntries items) :=
  agree_change (·.allocEntries items) 0 (stepwise_addEntries _) (stepwise_addEntries _)
    (fun _ _ => rfl) fun _ _ => rfl

/-- What a copy does to a symbol is to intern its text, also in place, where the text
is found under the symbol itself. -/
theorem symbol_eq {y : Symbol} {text : String} {c : Copier} (hy : c.source.textAt y = .ok text) :
    symbol y c = .ok (c.dest.intern text).1 { c with dest := (c.dest.intern text).2 } := by
  refine (read_bind hy).trans ?_
  cases hin : c.isInPlace with
  | true =>
    rw [Copier.source_eq_dest hin] at hy
    rw [Store.intern_of_textAt hy]
    rfl
  | false => rfl

theorem agree_symbol {y y' : Symbol} {text : String} (hy : A.textAt y = .ok text)
    (hy' : B.textAt y' = .ok text) : Agree A B packages (symbol y) (symbol y') :=
  agree_change (·.intern text) 0 (stepwise_symbol _) (stepwise_symbol _)
    (fun _ g => symbol_eq (g.textAt hy)) fun _ g => symbol_eq (g.textAt hy')

/-- What is reported may differ. -/
theorem agree_reportCopy (before before' : Nat) {k : Kind} (h h' copy : Handle k)
    (content : Content k) :
    Agree A B packages (reportCopy before h copy content) (reportCopy before' h' copy content) := by
  intro c c' htwins
  obtain ⟨log, hlog⟩ := reportCopy_eq before h copy content c
  obtain ⟨log', hlog'⟩ := reportCopy_eq before' h' copy content c'
  rw [hlog, hlog']
  exact .ok (htwins.log log log')

/-! ## Parts that are alike -/

section
variable {copy copy' : NodeCopy} {d e : Nat}
  (hcopy : ∀ {k : Kind} {h h' : Handle k}, Alike A B (.node k) h h' →
    A.shallow d h.node = true → B.shallow e h'.node = true →
    (packages = false → k ≠ .package) → Agree A B packages (copy k h) (copy' k h'))
include hcopy

theorem agree_slot {sl : Slot} {h h' : Handle sl.kind} (ha : Alike A B (.node sl.kind) h h')
    (hs : A.shallow d h.node = true) (hs' : B.shallow e h'.node = true)
    (hp : packages = false → sl.kind ≠ .package) :
    Agree A B packages (slot copy sl h) (slot copy' sl h') := by
  have hnode := hcopy ha hs hs' hp
  cases ha with
  | @node _ _ _ tag _ _ _ hc hc' _ =>
    refine agree_read (fun g => g.contentAt hc) (fun g => g.contentAt hc') ?_
    -- both nodes have one tag, which the slot admits or not
    cases hadm : sl.admits tag with
    | true => simpa only [hadm, if_true] using hnode
    | false => simpa only [hadm, Bool.false_eq_true, if_false] using agree_throw tag sl

theorem agree_items {sl : Slot} (hp : packages = false → sl.kind ≠ .package) :
    ∀ {hs hs' : List (Handle sl.kind)}, Alike A B (.items sl) hs hs' →
      (∀ h ∈ hs, A.shallow d h.node = true) → (∀ h ∈ hs', B.shallow e h.node = true) →
        Agree A B packages (hs.mapM (slot copy sl)) (hs'.mapM (slot copy' sl))
  | _, _, .itemsNil, _, _ => agree_pure []
  | _, _, .itemsCons hn hi, hs, hs' => by
    rw [List.mapM_cons, List.mapM_cons]
    have hhead := agree_slot hcopy hn (hs _ List.mem_cons_self) (hs' _ List.mem_cons_self) hp
    exact agree_seq List.cons hhead (agree_items hp hi
      (fun x hx => hs x (List.mem_cons_of_mem _ hx)) fun x hx => hs' x (List.mem_cons_of_mem _ hx))

theorem agree_entry {x x' : Entry} {name : String} (hp : packages = true)
    (hn : A.textAt x.name = .ok name) (hn' : B.textAt x'.name = .ok name)
    (hf : Alike A B (.node .file) x.file x'.file) (hs : A.shallow d x.file.node = true)
    (hs' : B.shallow e x'.file.node = true) :
    Agree A B packages (entry copy x) (entry copy' x') := by
  intro c c' h
  rw [entry_across (h.across hp).1, entry_across (h.across hp).2]
  exact agree_seq Entry.mk (agree_symbol hn hn') (hcopy hf hs hs' (by simp [hp])) c c' h

theorem agree_entryItems (hp : packages = true) :
    ∀ {es es' : List Entry}, Alike A B .entries es es' →
      (∀ x ∈ es, A.shallow d x.file.node = true) → (∀ x ∈ es', B.shallow e x.file.node = true) →
        Agree A B packages (es.mapM (entry copy)) (es'.mapM (entry copy'))
  | _, _, .entriesNil, _, _ => agree_pure []
  | _, _, .entriesCons hn hn' hf he, hs, hs' => by
    rw [List.mapM_cons, List.mapM_cons]
    have hhead := agree_entry hcopy hp hn hn' hf (hs _ List.mem_cons_self)
      (hs' _ List.mem_cons_self)
    exact agree_seq List.cons hhead (agree_entryItems hp he
      (fun x hx => hs x (List.mem_cons_of_mem _ hx)) fun x hx => hs' x (List.mem_cons_of_mem _ hx))

theorem agree_value {t : FieldType} {v w : t.Value} (ha : Alike A B (.value t) v w)
    (hs : A.ShallowBelow d (.value t) v) (hs' : B.ShallowBelow e (.value t) w)
    (hp : packages = false → t.packageFree = true) :
    Agree A B packages (value copy t v) (value copy' t w) := by
  cases ha with
  | slot hn =>
    exact agree_slot hcopy hn (Store.shallow_of_slot hs) (Store.shallow_of_slot hs')
      (by simpa [FieldType.packageFree] using hp)
  | optSome hn =>
    exact agree_map some (agree_slot hcopy hn (Store.shallow_of_optSlot hs)
      (Store.shallow_of_optSlot hs') (by simpa [FieldType.packageFree] using hp))
  | listSome hr hr' hi =>
    refine agree_map some (agree_read (fun g => g.listAt hr) (fun g => g.listAt hr') ?_)
    refine agree_bind (agree_items hcopy ?_ hi (Store.shallowBelow_list hr hs)
      (Store.shallowBelow_list hr' hs')) fun copies => agree_addList _ copies
    simpa [FieldType.packageFree] using hp
  | package hr hr' he =>
    refine agree_read (fun g => g.entriesAt hr) (fun g => g.entriesAt hr') ?_
    refine agree_bind (agree_entryItems hcopy ?_ he (Store.shallowBelow_entries hr hs)
      (Store.shallowBelow_entries hr' hs')) fun copies => agree_addEntries copies
    simpa [FieldType.packageFree] using hp
  | text hy hy' => exact agree_symbol hy hy'
  | optNone | listNone | scalar | optScalar => exact agree_pure _

theorem agree_values : ∀ {fs : List Field} {vs ws : Values fs}, Alike A B (.values fs) vs ws →
    A.ShallowBelow d (.values fs) vs → B.ShallowBelow e (.values fs) ws →
    (packages = false → ∀ f ∈ fs, f.type.packageFree = true) →
      Agree A B packages (vs.mapM (value copy)) (ws.mapM (value copy'))
  | _, _, _, .valuesNil, _, _, _ => agree_pure Values.nil
  | _, _, _, .valuesCons hv hvs, hs, hs', hp => by
    obtain ⟨hsv, hsvs⟩ := Store.shallowBelow_values_cons hs
    obtain ⟨hsw, hsws⟩ := Store.shallowBelow_values_cons hs'
    exact agree_seq Values.cons
      (agree_value hcopy hv hsv hsw fun h => hp h _ List.mem_cons_self)
      (agree_values hvs hsvs hsws fun h f hf => hp h f (List.mem_cons_of_mem _ hf))

end

/-- Copies of nodes that are alike go in lockstep, if neither nests deeper than it
may. -/
theorem agree_within : ∀ {d e : Nat} {k : Kind} {h h' : Handle k}, Alike A B (.node k) h h' →
    A.shallow d h.node = true → B.shallow e h'.node = true →
    (packages = false → k ≠ .package) → Agree A B packages (within d k h) (within e k h')
  | 0, _, _, _, _, _, hs, _, _ => by cases hs
  | _ + 1, 0, _, _, _, _, _, hs', _ => by cases hs'
  | d + 1, e + 1, k, h, h', ha, hs, hs', hp => by
    cases ha with
    | @node _ _ _ tag hk _ _ hc hc' hv =>
      have hfree : packages = false → ∀ f ∈ tag.fields, f.type.packageFree = true :=
        fun h => Tag.packageFree_of_kind_ne (hk ▸ hp h)
      refine agree_get fun c c' =>
        agree_read (fun g => g.contentAt hc) (fun g => g.contentAt hc') ?_
      refine agree_bind (agree_values agree_within hv (Store.shallowBelow_values hc hs)
        (Store.shallowBelow_values hc' hs') hfree) fun values => ?_
      refine agree_bind (agree_add _) fun copy => ?_
      exact agree_bind (agree_reportCopy _ _ h h' copy _) fun _ => agree_pure copy

/-! ## Requests -/

theorem slot_any {copy : NodeCopy} {k : Kind} {h : Handle k} {content : Content k} {c : Copier}
    (hc : c.source.contentAt h = .ok content) : slot copy (.any k) h c = copy k h c :=
  read_bind hc

/-- A request for a node copies it into its slot, whichever way it is made; only what
is reported depends on that. -/
theorem perform_eq {c : Copier} {sl : Slot} {h : Handle sl.kind} {content : Content sl.kind}
    (hc : c.source.contentAt h = .ok content) : ∀ {r : CopyRequest}, r.root? = some ⟨sl, h⟩ →
      ∃ log, perform r c =
        (do return CopyResult.node (some (← slot (within c.source.depth) sl h).node) : CopyM _)
          { c with log := log }
  | .node (some n), hr => by
    cases hr
    refine ⟨c.log.push (.node n), ?_⟩
    have hnode : node n c = (do return (← within c.source.depth n.kind n.handle).node : CopyM _)
        { c with log := c.log.push (.node n) } := rfl
    have hslot : slot (within c.source.depth) (.any n.kind) n.handle
        { c with log := c.log.push (.node n) } = _ := slot_any hc
    simp only [perform, bind, EStateM.bind, hnode]
    rw [hslot]
    cases within c.source.depth n.kind n.handle _ <;> rfl
  | .slot sl (some h), hr => by
    cases hr
    refine ⟨c.log, ?_⟩
    have hopt : slotOpt sl (some h) c =
        (do return some (← slot (within c.source.depth) sl h) : CopyM _) c := rfl
    simp only [perform, bind, EStateM.bind, hopt]
    cases slot (within c.source.depth) sl h c <;> rfl

theorem agree_perform {r r' : CopyRequest} {sl : Slot} {h h' : Handle sl.kind}
    (hr : r.root? = some ⟨sl, h⟩) (hr' : r'.root? = some ⟨sl, h'⟩)
    (ha : Alike A B (.node sl.kind) h h') (hp : packages = false → sl.kind ≠ .package) :
    Agree A B packages (perform r) (perform r') := by
  intro c c' htwins
  obtain ⟨t, ht, ht'⟩ := ha.exists_unfolds
  have hs := Store.shallow_of_unfold (Store.unfold_eq_ok.mpr ht)
  have hs' := Store.shallow_of_unfold (Store.unfold_eq_ok.mpr ht')
  have hslot := agree_slot agree_within ha (Store.shallow_mono htwins.left.depth_le hs)
    (Store.shallow_mono htwins.right.depth_le hs') hp
  cases ha with
  | node hc hc' _ =>
    obtain ⟨log, hlog⟩ := perform_eq (htwins.left.contentAt hc) hr
    obtain ⟨log', hlog'⟩ := perform_eq (htwins.right.contentAt hc') hr'
    rw [hlog, hlog']
    exact agree_map (fun x => CopyResult.node (some x.node)) hslot _ _ (htwins.log log log')

end Copy

namespace Copier

/-- One answer, one count and one destination. A failure is a slot that does not admit
what is in it. -/
structure SameOutcome (x y : Except CopyError CopyResult × Copier) : Prop where
  answer : x.1 = y.1
  copied : x.2.copied = y.2.copied
  dest : x.2.dest = y.2.dest
  error : ∀ e, x.1 = .error e → ∃ tag sl, e = .unsupported tag sl

/-- Requests of twins for nodes that are alike have one outcome. -/
theorem Twins.sameOutcome {A B : Store} {packages : Bool} {c c' : Copier}
    (htwins : Twins A B packages c c') {r r' : CopyRequest} {sl : Slot} {h h' : Handle sl.kind}
    (hr : r.root? = some ⟨sl, h⟩) (hr' : r'.root? = some ⟨sl, h'⟩)
    (ha : Alike A B (.node sl.kind) h h') (hp : packages = false → sl.kind ≠ .package) :
    SameOutcome (c.perform r) (c'.perform r') := by
  have hsame := Copy.agree_perform hr hr' ha hp c c' htwins
  unfold perform
  generalize Copy.perform r c = x, Copy.perform r' c' = y at hsame
  cases hsame with
  | ok h => exact ⟨rfl, h.copied, h.dest, by simp⟩
  | unsupported h =>
    refine ⟨rfl, h.copied, h.dest, fun e he => ?_⟩
    cases he
    exact ⟨_, _, rfl⟩

/-- **Snapshot.** A copy in place of a node that can be printed, and is no package,
answers and leaves the store as a copy from a snapshot of it does. -/
theorem inPlace_perform_snapshot {a : Store} {r : CopyRequest} {sl : Slot} {h : Handle sl.kind}
    {text : String} (hr : r.root? = some ⟨sl, h⟩) (hk : sl.kind ≠ .package)
    (hd : a.dump h.node = .ok text) :
    SameOutcome ((inPlace a).perform r) ((across a a).perform r) := by
  obtain ⟨t, ht, -⟩ := Store.dump_eq_ok.mp hd
  have htwins : Twins a a false (inPlace a) (across a a) :=
    ⟨.refl a, .refl a, rfl, rfl, by simp⟩
  exact htwins.sameOutcome hr hr (ht.alike ht rfl) fun _ => hk

end Copier

/-- Adds a selector that takes one call both for its operand and, wrongly, for its
name. -/
def Store.addCallSelector (s : Store) : Handle .expr × Store :=
  let call := s.addCall Span.none
  call.2.alloc (.of .selectorExpr (.cons call.1 (.cons call.1 .nil))) Span.none

/-- Both ways the operand is copied before the name is refused. -/
theorem snapshot_callSelector :
    let a := Store.empty.addCallSelector
    let here := (Copier.inPlace a.2).perform (.node (some a.1.node))
    let there := (Copier.across a.2 a.2).perform (.node (some a.1.node))
    (∃ text, a.2.dump a.1.node = .ok text) ∧
      here.1 = .error (.unsupported .callExpr .ident) ∧ here.2.copied = 3 ∧
      there.1 = .error (.unsupported .callExpr .ident) ∧ there.2.copied = 3 ∧
      here.2.dest = there.2.dest := by
  intro a here there
  have hdump : a.2.dump a.1.node = .ok ("(SelectorExpr x:(CallExpr fun:(Ident \"f\") " ++
      "args:[(Ident \"x\")] has_ellipsis:false) sel:(CallExpr fun:(Ident \"f\") " ++
      "args:[(Ident \"x\")] has_ellipsis:false))") := by decide +kernel
  have hroot : (CopyRequest.node (some a.1.node)).root? = some ⟨.any .expr, a.1⟩ := rfl
  have hsame : Copier.SameOutcome here there :=
    Copier.inPlace_perform_snapshot hroot (by decide) hdump
  have hanswer : here.1 = .error (.unsupported .callExpr .ident) := by decide +kernel
  have hcopied : here.2.copied = 3 := by decide +kernel
  exact ⟨⟨_, hdump⟩, hanswer, hcopied, hsame.answer ▸ hanswer, hsame.copied ▸ hcopied, hsame.dest⟩

/-! ## Copies across stores -/

namespace Copier

theorem twins_across (S T D : Store) : Twins S T true (across S D) (across T D) :=
  ⟨.refl S, .refl T, rfl, rfl, fun _ => ⟨rfl, rfl⟩⟩

/-- A copy across stores is alike to what it was copied from. -/
theorem alike_perform {S D : Store} {r : CopyRequest} {sl : Slot} {h h' : Handle sl.kind}
    (hr : r.root? = some ⟨sl, h⟩) (hok : ((across S D).perform r).1 = .ok (.node (some h'.node))) :
    Alike S ((across S D).perform r).2.dest (.node sl.kind) h h' := by
  have hsource := ((across S D).steps_perform r).source?_eq
  unfold perform at hok hsource ⊢
  cases hperform : Copy.perform r (across S D) with
  | error e c' =>
    rw [hperform] at hok
    cases hok
  | ok m c' =>
    rw [hperform] at hok hsource
    obtain ⟨x, c₁, rfl, -, hcopies⟩ := copies_perform (by simp [across, isInPlace]) hr hperform
    obtain rfl : x = h' := by
      cases x
      cases h'
      cases hok
      rfl
    have hS : c'.source = S := congrArg (Option.getD · c'.dest) hsource
    cases hS ▸ hcopies.alike with
    | slot ha => exact ha

/-- **Content decides.** Copies across stores of nodes that are printed alike, into one
destination, have one outcome. So a copy into the empty store, copied again into the
empty store, has the outcome that it had. -/
theorem across_perform_determined {S T : Store} {r r' : CopyRequest} {sl : Slot}
    {h h' : Handle sl.kind} {text : String} (hr : r.root? = some ⟨sl, h⟩)
    (hr' : r'.root? = some ⟨sl, h'⟩) (hd : S.dump h.node = .ok text)
    (hd' : T.dump h'.node = .ok text) :
    (∀ D, SameOutcome ((across S D).perform r) ((across T D).perform r')) ∧
      let once := (across S .empty).perform r
      ∀ (m : Handle sl.kind) (again : CopyRequest), once.1 = .ok (.node (some m.node)) →
        again.root? = some ⟨sl, m⟩ →
          SameOutcome once ((across once.2.dest .empty).perform again) := by
  obtain ⟨t, ht, hprint⟩ := Store.dump_eq_ok.mp hd
  obtain ⟨u, hu, hprint'⟩ := Store.dump_eq_ok.mp hd'
  have htu : t = u := (ht.print_inj hu (hprint.trans hprint'.symm)).2
  refine ⟨fun D => ?_, fun m again hm hagain => ?_⟩
  · exact (twins_across S T D).sameOutcome hr hr' (ht.alike hu htu) (by simp)
  · exact (twins_across S _ .empty).sameOutcome hr hagain (alike_perform hr hm) (by simp)

end Copier

/-- The same call in two stores, under other handles, symbols and spans, and in the store
of its copy. -/
theorem determined_addCall :
    let a := Store.empty.addCall ⟨0, 4⟩
    let b := ((Store.empty.intern "y").2.addCall ⟨0, 4⟩).2.addCall ⟨9, 13⟩
    let once := (Copier.across a.2 .empty).perform (.node (some a.1.node))
    let again := (Copier.across once.2.dest .empty).perform (.node (some ⟨.expr, 2⟩))
    a.1 ≠ b.1 ∧
      Copier.SameOutcome ((Copier.across a.2 b.2).perform (.node (some a.1.node)))
        ((Copier.across b.2 b.2).perform (.slot (.any .expr) (some b.1))) ∧
      once.1 = .ok (.node (some ⟨.expr, 2⟩)) ∧ again.1 = .ok (.node (some ⟨.expr, 2⟩)) ∧
      again.2.dest = once.2.dest := by
  intro a b once again
  have ha : a.2.dump a.1.node =
      .ok "(CallExpr fun:(Ident \"f\") args:[(Ident \"x\")] has_ellipsis:false)" := by
    decide +kernel
  have hb : b.2.dump b.1.node =
      .ok "(CallExpr fun:(Ident \"f\") args:[(Ident \"x\")] has_ellipsis:false)" := by
    decide +kernel
  have hra : (CopyRequest.node (some a.1.node)).root? = some ⟨.any .expr, a.1⟩ := rfl
  have hrb : (CopyRequest.slot (.any .expr) (some b.1)).root? = some ⟨.any .expr, b.1⟩ := rfl
  have honce : once.1 = .ok (.node (some ⟨.expr, 2⟩)) := by decide +kernel
  obtain ⟨hall, hagain⟩ := Copier.across_perform_determined hra hrb ha hb
  have hsame : Copier.SameOutcome once again := hagain ⟨2⟩ (.node (some ⟨.expr, 2⟩)) honce rfl
  exact ⟨by decide +kernel, hall b.2, honce, hsame.answer ▸ honce, hsame.dest.symm⟩

end GoTree
