import GoTree.Proofs.Copy.Success
import GoTree.Proofs.Tree.Alike
/-!
# Copies keep the content

A deep copy holds the same content as what it was copied from, both read in the
state after the copy and in every later state. The copy of a package in place
holds the same name and the same entries; whether its files can be read is not
looked at, so its dump is that of the original also where that is not defined.

* `Copies.alike`: deep copies hold the same content.
* `run_answered`: the same over any sequence of requests, in the final state.
-/
namespace GoTree

/-! ## Deep copies -/

theorem Copy.symbol_textAt {y y' : Symbol} {c c' : Copier} (hy : Copy.symbol y c = .ok y' c') :
    ∃ text, c.source.textAt y = .ok text ∧ c'.dest.textAt y' = .ok text := by
  obtain ⟨text, htext, ⟨hin, rfl, rfl⟩ | ⟨-, rfl, hdest⟩⟩ := Copy.symbol_ok hy
  · exact ⟨text, htext, by rwa [← Copier.source_eq_dest hin]⟩
  · exact ⟨text, htext, by rw [hdest]; exact c.dest.textAt_intern text⟩

theorem Copier.Steps.alike {c c' : Copier} (h : c.Steps c') {p : Part} {v w : p.Value}
    (ha : Alike c.source c.dest p v w) : Alike c'.source c'.dest p v w :=
  ha.grows h.source_grows h.grows

/-- A deep copy holds the same content. -/
theorem Copies.alike {c c' : Copier} {p : Part} {v w : p.Value} (h : Copies c p v w c') :
    Alike c'.source c'.dest p v w := by
  induction h with
  | @node c c₁ c₂ c' _ _ _ _ _ _ _ hc hv ha hr ih =>
    have hadd : c₁.Steps c₂ := (Copy.stepwise_add _).steps ha
    have hrep : c₂.Steps c' := (Copy.stepwise_reportCopy _ _ _ _).steps hr
    have hsteps : c.Steps c' := hv.steps.trans (hadd.trans hrep)
    obtain ⟨rfl, hdest⟩ := Copy.add_ok ha
    refine .node (hsteps.source_grows.contentAt hc) ?_ ((hadd.trans hrep).alike ih)
    rw [Copy.reportCopy_ok hr, hdest]
    exact c₁.dest.contentAt_alloc _ _
  | slot _ _ _ ih => exact .slot ih
  | optNone => exact .optNone
  | optSome _ ih =>
    cases ih with
    | slot ih => exact .optSome ih
  | listNone => exact .listNone
  | @listSome c c₁ c' sl _ _ _ hs' hr hi ha ih =>
    have hadd : c₁.Steps c' := (Copy.stepwise_addList _ _).steps ha
    obtain ⟨rfl, hdest⟩ := Copy.addList_ok ha
    refine .listSome ((hi.steps.trans hadd).source_grows.listAt hr) ?_ (hadd.alike ih)
    rw [hdest]
    exact c₁.dest.listAt_allocList sl.kind hs'
  | @package c c₁ c' _ _ _ es' hr he ha ih =>
    have hadd : c₁.Steps c' := (Copy.stepwise_addEntries _).steps ha
    obtain ⟨rfl, hdest⟩ := Copy.addEntries_ok ha
    refine .package ((he.steps.trans hadd).source_grows.entriesAt hr) ?_ (hadd.alike ih)
    rw [hdest]
    exact c₁.dest.entriesAt_allocEntries es'
  | text hy =>
    obtain ⟨text, htext, htext'⟩ := Copy.symbol_textAt hy
    exact .text (((Copy.stepwise_symbol _).steps hy).source_grows.textAt htext) htext'
  | scalar v => exact .scalar v
  | optScalar v => exact .optScalar v
  | valuesNil => exact .valuesNil
  | valuesCons _ hvs ih ihs => exact .valuesCons (hvs.steps.alike ih) ihs
  | itemsNil => exact .itemsNil
  | itemsCons _ hi ih ihs =>
    cases hi.steps.alike ih with
    | slot hn => exact .itemsCons hn ihs
  | entriesNil => exact .entriesNil
  | entriesCons hn hf he ih ihs =>
    obtain ⟨name, hname, hname'⟩ := Copy.symbol_textAt hn
    have hlater := hf.steps.trans he.steps
    have hnow := ((Copy.stepwise_symbol _).steps hn).trans hlater
    exact .entriesCons (hnow.source_grows.textAt hname) (hlater.grows.textAt hname')
      (he.steps.alike ih) ihs

/-! ## Packages in place -/

namespace Store

/-- Two packages of one name whose ranges hold the same entries. -/
def SharesEntries (s : Store) (h h' : Handle .package) : Prop :=
  ∃ name r r' es, s.contentAt h = .ok (packageContent name r) ∧
    s.contentAt h' = .ok (packageContent name r') ∧ s.entriesAt r = .ok es ∧
    s.entriesAt r' = .ok es

theorem SharesEntries.grows {s t : Store} (g : s.Grows t) {h h' : Handle .package}
    (hs : s.SharesEntries h h') : t.SharesEntries h h' := by
  obtain ⟨name, r, r', es, hc, hc', hr, hr'⟩ := hs
  exact ⟨name, r, r', es, g.contentAt hc, g.contentAt hc', g.entriesAt hr, g.entriesAt hr'⟩

/-- A package is read through its name and its entries only. -/
theorem SharesEntries.unfold_eq {s : Store} {h h' : Handle .package} (hs : s.SharesEntries h h') :
    s.unfold h.node = s.unfold h'.node := by
  obtain ⟨name, r, r', es, hc, hc', hr, hr'⟩ := hs
  have hnode : ∀ x : Handle .package, s.unfold x.node = do
      let c ← orFault (s.contentAt x)
      let ts ← s.unfoldPart (s.unfoldWithin s.nodeCount) (.values c.tag.fields) c.values
      return .node c.tag ts := fun _ => rfl
  have hfields : ∀ child,
      s.unfoldPart child (.values Tag.package.fields) (packageContent name r).values =
        s.unfoldPart child (.values Tag.package.fields) (packageContent name r').values := by
    intro child
    have hentries : s.unfoldValue child .entries r = s.unfoldValue child .entries r' := by
      simp only [unfoldValue, hr, hr']
    simp only [unfoldPart, packageContent, Values.toList, List.mapM_cons]
    rw [hentries]
  rw [hnode, hnode, hc, hc']
  exact congrArg (· >>= fun ts => pure (Tree.node .package ts)) (hfields _)

theorem SharesEntries.dump_eq {s : Store} {h h' : Handle .package} (hs : s.SharesEntries h h') :
    s.dump h.node = s.dump h'.node := by
  rw [dump_eq_print, dump_eq_print, hs.unfold_eq]

end Store

/-! ## Nodes and their copies -/

namespace Copier

/-- `m` was copied from `n`: it holds the same content, or it is a package that
shares the files of `n`. -/
inductive Copied (c : Copier) : Node → Node → Prop where
  | deep {k : Kind} {h h' : Handle k} (ha : Alike c.source c.dest (.node k) h h') :
      Copied c h.node h'.node
  | shared {h h' : Handle .package} (hin : c.isInPlace = true) (hs : c.dest.SharesEntries h h') :
      Copied c h.node h'.node

theorem Copied.later {c c' : Copier} (hsteps : c.Steps c') {n m : Node} (h : c.Copied n m) :
    c'.Copied n m := by
  cases h with
  | deep ha => exact .deep (hsteps.alike ha)
  | shared hin hs => exact .shared (hsteps.isInPlace_eq.trans hin) (hs.grows hsteps.grows)

theorem sharesEntries_within {d : Nat} {c c' : Copier} {h h' : Handle .package}
    (hin : c.isInPlace = true) (hw : Copy.within d .package h c = .ok h' c') :
    c'.dest.SharesEntries h h' := by
  have hsteps : c.Steps c' := (Copy.stepwise_within d _ h).steps hw
  obtain ⟨name, r, es, hc, hr, rfl, hdest⟩ := within_package_inPlace hin hw
  refine ⟨name, r, (c.dest.allocEntries es).1, es, hsteps.grows.contentAt hc, ?_,
    hsteps.grows.entriesAt hr, ?_⟩
  · rw [hdest]
    exact Store.contentAt_alloc _ _ _
  · rw [hdest]
    exact (Store.grows_alloc _ _ _).entriesAt (c.dest.entriesAt_allocEntries es)

theorem copied_within {d : Nat} {c c' : Copier} {k : Kind} {h h' : Handle k}
    (hw : Copy.within d k h c = .ok h' c') : c'.Copied h.node h'.node := by
  by_cases hp : c.isInPlace = true ∧ k = .package
  · obtain ⟨hin, rfl⟩ := hp
    have hsteps : c.Steps c' := (Copy.stepwise_within d _ h).steps hw
    exact .shared (hsteps.isInPlace_eq.trans hin) (sharesEntries_within hin hw)
  · have hdeep : Copies c (.node k) h h' c' := copies_within hw fun hin hk => hp ⟨hin, hk⟩
    exact .deep hdeep.alike

/-- `m` is printed in the destination as `n` is in the source. Both can be
printed, unless they are packages that share their files. -/
structure Matches (c : Copier) (n m : Node) : Prop where
  kind_eq : m.kind = n.kind
  dump_eq : c.dest.dump m = c.source.dump n
  defined : ¬ (c.isInPlace = true ∧ n.kind = .package) → ∃ text, c.source.dump n = .ok text

theorem Copied.matches {c : Copier} {n m : Node} (h : c.Copied n m) : c.Matches n m := by
  cases h with
  | deep ha =>
    obtain ⟨t, ht, hu⟩ := ha.exists_unfolds
    have hn := Store.dump_eq_ok.mpr ⟨t, ht, rfl⟩
    have hm := Store.dump_eq_ok.mpr ⟨t, hu, rfl⟩
    exact ⟨rfl, hm.trans hn.symm, fun _ => ⟨_, hn⟩⟩
  | shared hin hs =>
    exact ⟨rfl, by rw [source_eq_dest hin, hs.dump_eq], fun hno => absurd ⟨hin, rfl⟩ hno⟩

/-! ## Requests and their answers -/

/-- What a request gives, for a relation `R` between nodes and their copies:
nothing for what is absent and only then, a copy for a node, and copies one by
one for a sequence or a list. -/
def Gives (c : Copier) (R : Node → Node → Prop) : CopyRequest → CopyResult → Prop
  | .node n?, .node m? => Option.Rel R n? m?
  | .nodes ns?, .nodes ms? => Option.Rel (List.Forall₂ R) ns? ms?
  | .slot _ h?, .node m? => Option.Rel R (h?.map Handle.node) m?
  | .list sl r?, .list r'? =>
    Option.Rel (fun r r' => ∃ hs hs', c.source.listAt sl.kind r = .ok hs ∧
      c.dest.listAt sl.kind r' = .ok hs' ∧
      List.Forall₂ (fun h h' => R h.node h'.node) hs hs') r? r'?
  | _, _ => False

theorem Gives.later {c c' : Copier} (hsteps : c.Steps c') {R S : Node → Node → Prop}
    (hRS : ∀ n m, R n m → S n m) :
    ∀ {r : CopyRequest} {a : CopyResult}, c.Gives R r a → c'.Gives S r a
  | .node _, .node _, h => by
    cases h with
    | none => exact .none
    | some h => exact .some (hRS _ _ h)
  | .nodes _, .nodes _, h => by
    cases h with
    | none => exact .none
    | some h => exact .some (h.imp hRS)
  | .slot _ none, .node _, h => by
    cases h
    exact .none
  | .slot _ (some _), .node _, h => by
    cases h with
    | some h => exact .some (hRS _ _ h)
  | .list _ _, .list _, h => by
    cases h with
    | none => exact .none
    | some h =>
      obtain ⟨hs, hs', hr, hr', hitems⟩ := h
      exact .some ⟨hs, hs', hsteps.source_grows.listAt hr, hsteps.grows.listAt hr',
        hitems.imp fun _ _ => hRS _ _⟩

/-- What holds of each item from before its copy until after it, and of every longer
stretch then, holds of all items from the first copy to the last. -/
theorem forall₂_of_mapM {α β : Type} {f : α → CopyM β} {P : Copier → Copier → α → β → Prop}
    (hf : ∀ a, Copy.Stepwise (f a)) (hP : ∀ a b c c', f a c = .ok b c' → P c c' a b)
    (hwider : ∀ a b c₀ c c' c₁, c₀.Steps c → c'.Steps c₁ → P c c' a b → P c₀ c₁ a b) :
    ∀ {as : List α} {bs : List β} {c c' : Copier}, as.mapM f c = .ok bs c' →
      List.Forall₂ (P c c') as bs
  | [], _, _, _, h => by
    obtain ⟨rfl, -⟩ := Copy.pure_ok.mp h
    exact .nil
  | a :: as, _, _, _, h => by
    obtain ⟨b, c₁, bs', hb, hbs, rfl⟩ := Copy.mapM_cons_ok.mp h
    have hfirst := (hf a).steps hb
    have hrest := (Copy.stepwise_mapM hf as).steps hbs
    exact .cons (hwider _ _ _ _ _ _ .refl hrest (hP _ _ _ _ hb))
      ((forall₂_of_mapM hf hP hwider hbs).imp fun _ _ => hwider _ _ _ _ _ _ hfirst .refl)

section
variable {R : Copier → Copier → Node → Node → Prop}
  (hwithin : ∀ {d : Nat} {c c' : Copier} {k : Kind} {h h' : Handle k},
    Copy.within d k h c = .ok h' c' → R c c' h.node h'.node)
  (hwider : ∀ {c₀ c c' c₁ : Copier} {n m : Node}, c₀.Steps c → c'.Steps c₁ → R c c' n m →
    R c₀ c₁ n m)
include hwithin

theorem related_slot {d : Nat} {c c' : Copier} {sl : Slot} {h h' : Handle sl.kind}
    (hs : Copy.slot (Copy.within d) sl h c = .ok h' c') : R c c' h.node h'.node := by
  obtain ⟨_, -, -, hw⟩ := Copy.slot_ok hs
  exact hwithin hw

include hwider

theorem related_node {c c' : Copier} {n m : Node} (h : Copy.node n c = .ok m c') :
    R c c' n m := by
  obtain ⟨d, h', hw, rfl⟩ := Copy.node_ok h
  exact hwider (.single (.report _)) .refl (hwithin hw)

/-- The copy of a list holds a copy of each item. -/
theorem related_list {d : Nat} {c c' : Copier} {sl : Slot} {r r' : ListRef}
    (h : Copy.list (Copy.within d) sl r c = .ok r' c') :
    ∃ hs hs', c'.source.listAt sl.kind r = .ok hs ∧ c'.dest.listAt sl.kind r' = .ok hs' ∧
      List.Forall₂ (fun h h' => R c c' h.node h'.node) hs hs' := by
  obtain ⟨hs, c₁, hread, h⟩ := Copy.bind_ok.mp h
  obtain ⟨hlist, rfl⟩ := Copy.read_ok.mp hread
  obtain ⟨hs', c₂, hmap, hadd⟩ := Copy.bind_ok.mp h
  have hslot := Copy.stepwise_slot (Copy.stepwise_within d) sl
  have hitems : List.Forall₂ (fun h h' => R c c₂ h.node h'.node) hs hs' :=
    forall₂_of_mapM (P := fun c c' (h h' : Handle sl.kind) => R c c' h.node h'.node) hslot
      (fun _ _ _ _ => related_slot hwithin) (fun _ _ _ _ _ _ => hwider) hmap
  have hsteps₁ : c.Steps c₂ := (Copy.stepwise_mapM hslot hs).steps hmap
  have hsteps₂ : c₂.Steps c' := (Copy.stepwise_addList _ _).steps hadd
  obtain ⟨rfl, hdest⟩ := Copy.addList_ok hadd
  refine ⟨hs, hs', (hsteps₁.trans hsteps₂).source_grows.listAt hlist, ?_,
    hitems.imp fun _ _ hc => hwider .refl hsteps₂ hc⟩
  rw [hdest]
  exact c₂.dest.listAt_allocList sl.kind hs'

/-- What a request gives is related to what it asked for, if the copy of a node is
related to it from before the copy until after it, and over longer stretches. -/
theorem gives_of_within {c c' : Copier} : ∀ {r : CopyRequest} {a : CopyResult},
    Copy.perform r c = .ok a c' → c'.Gives (R c c') r a
  | .node none, _, h => by
    obtain ⟨rfl, -⟩ := Copy.pure_ok.mp h
    exact .none
  | .node (some n), _, h => by
    obtain ⟨m, hm, rfl⟩ := Copy.map_ok.mp h
    exact .some (related_node hwithin hwider hm)
  | .nodes none, _, h => by
    obtain ⟨rfl, -⟩ := Copy.pure_ok.mp h
    exact .none
  | .nodes (some ns), _, h => by
    obtain ⟨ms, hms, rfl⟩ := Copy.map_ok.mp h
    exact .some (forall₂_of_mapM (P := R) Copy.stepwise_node
      (fun _ _ _ _ => related_node hwithin hwider) (fun _ _ _ _ _ _ => hwider) hms)
  | .slot sl none, _, h => by
    obtain ⟨x, hx, rfl⟩ := Copy.map_ok.mp h
    obtain ⟨rfl, -⟩ := Copy.pure_ok.mp hx
    exact .none
  | .slot sl (some _), _, h => by
    obtain ⟨x, hx, rfl⟩ := Copy.map_ok.mp h
    obtain ⟨d, c₁, hdepth, hd⟩ := Copy.bind_ok.mp hx
    obtain ⟨h', hs, rfl⟩ := Copy.map_ok.mp hd
    cases hdepth
    exact .some (related_slot hwithin hs)
  | .list sl none, _, h => by
    obtain ⟨x, hx, rfl⟩ := Copy.map_ok.mp h
    obtain ⟨rfl, -⟩ := Copy.pure_ok.mp hx
    exact .none
  | .list sl (some r), _, h => by
    obtain ⟨x, hx, rfl⟩ := Copy.map_ok.mp h
    obtain ⟨d, c₁, hdepth, hd⟩ := Copy.bind_ok.mp hx
    obtain ⟨r', hr, rfl⟩ := Copy.map_ok.mp hd
    cases hdepth
    exact .some (related_list hwithin hwider hr)

/-- After any sequence of requests, what they gave is related to what they asked
for, from the first state to the last. -/
theorem gives_run_since (c : Copier) (rs : List CopyRequest) :
    List.Forall₂ (fun r answer => ∀ a, answer = .ok a →
      (c.run rs).2.Gives (R c (c.run rs).2) r a) rs (c.run rs).1 := by
  induction rs generalizing c with
  | nil => exact .nil
  | cons r rs ih =>
    have hfirst : c.Steps (c.perform r).2 := c.steps_perform r
    have hrest : (c.perform r).2.Steps (c.run (r :: rs)).2 := steps_run _ rs
    refine .cons (fun a ha => ?_) ((ih (c.perform r).2).imp fun r answer hanswer a ha =>
      (hanswer a ha).later .refl fun _ _ => hwider hfirst .refl)
    unfold perform at ha hrest
    cases h : Copy.perform r c with
    | ok b c' =>
      rw [h] at ha hrest
      cases ha
      exact (gives_of_within hwithin hwider h).later hrest fun _ _ => hwider .refl hrest
    | error e c' => simp [h] at ha

end

/-- The same for what is related in one state and stays so. -/
theorem gives_run {R : Copier → Node → Node → Prop}
    (hwithin : ∀ {d : Nat} {c c' : Copier} {k : Kind} {h h' : Handle k},
      Copy.within d k h c = .ok h' c' → R c' h.node h'.node)
    (hlater : ∀ {c c' : Copier} {n m : Node}, c.Steps c' → R c n m → R c' n m)
    (c : Copier) (rs : List CopyRequest) :
    List.Forall₂ (fun r answer => ∀ a, answer = .ok a →
      (c.run rs).2.Gives (R (c.run rs).2) r a) rs (c.run rs).1 :=
  gives_run_since (R := fun _ => R) hwithin (fun _ => hlater) c rs

/-- What a request gives was copied from what it asked for. -/
theorem gives_perform {c c' : Copier} {r : CopyRequest} {a : CopyResult}
    (h : Copy.perform r c = .ok a c') : c'.Gives c'.Copied r a :=
  gives_of_within (R := fun _ => Copied) copied_within (fun _ hsteps hc => hc.later hsteps) h

end Copier

/-- Whether a request asks for something that is there. -/
def CopyRequest.isPresent : CopyRequest → Bool
  | .node n? => n?.isSome
  | .nodes ns? => ns?.isSome
  | .slot _ h? => h?.isSome
  | .list _ r? => r?.isSome

namespace Copier

theorem isPresent_of_error {c c' : Copier} {e : CopyError} :
    ∀ {r : CopyRequest}, Copy.perform r c = .error e c' → r.isPresent = true
  | .node (some _), _ | .nodes (some _), _ | .slot _ (some _), _ | .list _ (some _), _ => rfl
  | .node none, h | .nodes none, h | .slot _ none, h | .list _ none, h => by cases h

/-- An answer as a copier has to give it: only what is present may fail, and what
is given matches what was asked for. -/
def Answered (c : Copier) (r : CopyRequest) : Except CopyError CopyResult → Prop
  | .ok a => c.Gives c.Matches r a
  | .error _ => r.isPresent = true

/-- **Content.** After any sequence of requests, each answer that was not a
failure matches its request in the final state. -/
theorem run_answered (c : Copier) (rs : List CopyRequest) :
    List.Forall₂ (c.run rs).2.Answered rs (c.run rs).1 := by
  induction rs generalizing c with
  | nil => exact .nil
  | cons r rs ih =>
    refine .cons ?_ (ih (c.perform r).2)
    have hlater : (c.perform r).2.Steps (c.run (r :: rs)).2 := steps_run _ rs
    show (c.run (r :: rs)).2.Answered r (c.perform r).1
    unfold perform at hlater ⊢
    cases h : Copy.perform r c with
    | ok a c' =>
      rw [h] at hlater
      have hgives := gives_perform h
      exact hgives.later hlater fun n m hnm => (hnm.later hlater).matches
    | error e c' => exact isPresent_of_error h

/-- In place nothing, `*x`, a node that is missing, and `x` and `*x` again are copied. -/
theorem answered_starExpr :
    let x := Store.empty.addIdent "x" ⟨1, 2⟩
    let star := x.2.alloc (.of .starExpr (.cons x.1 .nil)) ⟨0, 2⟩
    let out := (inPlace star.2).run [.node none, .node (some star.1.node),
      .node (some ⟨.expr, 9⟩), .nodes (some [x.1.node, star.1.node])]
    out.1 = [.ok (.node none), .ok (.node (some ⟨.expr, 3⟩)),
        .error (.fault (.dangling (.node .expr 9))),
        .ok (.nodes (some [⟨.expr, 4⟩, ⟨.expr, 6⟩]))] ∧
      out.2.dest.dump ⟨.expr, 3⟩ = .ok "(StarExpr x:(Ident \"x\"))" ∧
      out.2.dest.dump ⟨.expr, 4⟩ = .ok "(Ident \"x\")" ∧
      out.2.dest.dump ⟨.expr, 6⟩ = .ok "(StarExpr x:(Ident \"x\"))" := by
  intro x star out
  have hanswers : out.1 = [.ok (.node none), .ok (.node (some ⟨.expr, 3⟩)),
      .error (.fault (.dangling (.node .expr 9))),
      .ok (.nodes (some [⟨.expr, 4⟩, ⟨.expr, 6⟩]))] := by decide +kernel
  have hx : out.2.source.dump x.1.node = .ok "(Ident \"x\")" := by decide +kernel
  have hstar : out.2.source.dump star.1.node = .ok "(StarExpr x:(Ident \"x\"))" := by
    decide +kernel
  have h := run_answered (inPlace star.2) [.node none, .node (some star.1.node),
    .node (some ⟨.expr, 9⟩), .nodes (some [x.1.node, star.1.node])]
  rw [show (run (inPlace star.2) _).1 = _ from hanswers] at h
  simp only [List.forall₂_cons, Answered, Gives, Option.rel_some_some] at h
  obtain ⟨-, hone, -, ⟨hfirst, hsecond, -⟩, -⟩ := h
  exact ⟨hanswers, hone.dump_eq.trans hstar, hfirst.dump_eq.trans hx,
    hsecond.dump_eq.trans hstar⟩

end Copier
end GoTree
