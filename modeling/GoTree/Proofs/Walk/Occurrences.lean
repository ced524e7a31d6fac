import GoTree.Proofs.Store.Acyclic
import GoTree.Walk
/-!
# What a walk meets

A walk meets a node once for each path to it. `Store.Visits s above ns os` lists
these occurrences, each with the nodes above it, for a walk through the nodes `ns`.
It is a set of rules with no bound on the depth.

`Store.Walkable s root` says that a walk from `root` ends and resolves: what it goes
to resolves, and no node that it meets lies below itself.

* `Walkable.exists_visits`: there are occurrences to meet.
* `walkable_iff_preorder`: the pre-order exists exactly there.
* `Visits.preorder_eq`: the pre-order lists the occurrences.
* `walk_eq_reached`: a walk is a pass over the occurrences with nothing above them that
  it does not go into.
* `walk_eq_untilStop`: a walk that goes into every node is a pass over the pre-order.
* `Visits.inspect_eq`: what an inspection notes.
-/
namespace GoTree

/-! ## Going through items -/

section
variable {α σ β : Type} {f : α → σ → Except Fault (Option β × σ)}

theorem untilStop_append : ∀ (as bs : List α) (st : σ),
    untilStop f (as ++ bs) st = (do
      match ← untilStop f as st with
      | (some b, st) => return (some b, st)
      | (none, st) => untilStop f bs st)
  | [], _, _ => rfl
  | a :: as, bs, st => by
    simp only [List.cons_append, untilStop]
    cases f a st with
    | error e => rfl
    | ok r =>
      obtain ⟨_ | b, st⟩ := r
      · exact untilStop_append as bs st
      · rfl

end

namespace Store

section
variable {s : Store}

/-! ## Children -/

/-- The nodes that a walk goes to from a node, in order. -/
def children (s : Store) (n : Node) : Except Dangling (List Node) := do
  let c ← s.contentAt n.handle
  let below ← c.walkedLinks.mapM s.targets
  return below.flatten

/-- The same with no nodes where something does not resolve. -/
def childrenOf (s : Store) (n : Node) : List Node :=
  match s.children n with
  | .ok ms => ms
  | .error _ => []

theorem children_eq_ok {n : Node} {ms : List Node} :
    s.children n = .ok ms ↔ ∃ c mss, s.contentAt n.handle = .ok c ∧
      c.walkedLinks.mapM s.targets = .ok mss ∧ mss.flatten = ms := by
  simp only [children, bind_eq_ok, pure_eq_ok]
  constructor
  · rintro ⟨c, hc, mss, hmss, rfl⟩
    exact ⟨c, mss, hc, hmss, rfl⟩
  · rintro ⟨c, mss, hc, hmss, rfl⟩
    exact ⟨c, hc, mss, hmss, rfl⟩

theorem childrenOf_eq {n : Node} {ms : List Node} (h : s.children n = .ok ms) :
    s.childrenOf n = ms := by
  simp [childrenOf, h]

theorem mem_added_of_childrenOf {n m : Node} (h : m ∈ s.childrenOf n) : n ∈ empty.added s := by
  cases hms : s.children n with
  | error d => simp [childrenOf, hms] at h
  | ok ms =>
    obtain ⟨c, -, hc, -, -⟩ := children_eq_ok.mp hms
    exact mem_added_of_contentAt hc

theorem flatten_of_mapM_targets : ∀ {ls : List Link} {mss : List (List Node)},
    ls.mapM s.targets = .ok mss → mss.flatten = ls.flatMap s.follow
  | [], _, h => by
    cases h
    rfl
  | l :: ls, _, h => by
    obtain ⟨ms, mss, hms, hmss, rfl⟩ := mapM_cons_eq_ok.mp h
    rw [List.flatten_cons, List.flatMap_cons, flatten_of_mapM_targets hmss]
    simp [follow, hms]

/-- A walk goes to nodes that are referred to. -/
theorem mem_references_of_childrenOf {n m : Node} (h : m ∈ s.childrenOf n) :
    m ∈ s.references n := by
  cases hms : s.children n with
  | error d => simp [childrenOf, hms] at h
  | ok ms =>
    obtain ⟨c, mss, hc, hmss, rfl⟩ := children_eq_ok.mp hms
    rw [childrenOf_eq hms, flatten_of_mapM_targets hmss] at h
    obtain ⟨l, hl, hm⟩ := List.mem_flatMap.mp h
    have hlinks : s.linksOf n = c.links := linksOf_eq hc
    rw [references, hlinks]
    exact List.mem_flatMap.mpr ⟨l, ((List.filter_sublist).filterMap _).subset hl, hm⟩

/-- A node that a walk meets from another, or the node itself. -/
def WalksTo (s : Store) : Node → Node → Prop :=
  Relation.ReflTransGen fun n m => m ∈ s.childrenOf n

theorem walksTo_iff {n k : Node} {ms : List Node} (hms : s.children n = .ok ms) :
    s.WalksTo n k ↔ n = k ∨ ∃ m ∈ ms, s.WalksTo m k := by
  rw [WalksTo, Relation.ReflTransGen.cases_head_iff]
  simp only [childrenOf_eq hms]

theorem WalksTo.reaches {n m : Node} (h : s.WalksTo n m) : s.Reaches n m :=
  Relation.ReflTransGen.mono (fun _ _ => mem_references_of_childrenOf) _ _ h

/-- A walk from the node ends, and everything it goes to resolves. -/
structure Walkable (s : Store) (root : Node) : Prop where
  resolves : ∀ n, s.WalksTo root n → ∃ ms, s.children n = .ok ms
  acyclic : Paths.Acyclic s.childrenOf root

theorem Walkable.of_walksTo {root n : Node} (h : s.Walkable root) (hn : s.WalksTo root n) :
    s.Walkable n :=
  ⟨fun m hm => h.resolves m (hn.trans hm), fun m hm => h.acyclic m (hn.trans hm)⟩

theorem Walkable.bounded {root : Node} (h : s.Walkable root) :
    Paths.bounded s.childrenOf s.depth root = true := by
  rw [depth, ← length_added_empty]
  exact Paths.bounded_of_acyclic (fun _ _ => mem_added_of_childrenOf) h.acyclic

/-! ## Occurrences -/

/-- A node in its place in a walk. -/
structure Occurrence where
  /-- The nodes on the way to it, the nearest first. -/
  above : List Node
  node : Node
  deriving DecidableEq, Repr

/-- What a walk through the nodes `ns` meets, where `above` is the way to them. -/
inductive Visits (s : Store) : (above ns : List Node) → List Occurrence → Prop where
  | nil {above : List Node} : Visits s above [] []
  | cons {above ns ms : List Node} {n : Node} {below later : List Occurrence}
      (hms : s.children n = .ok ms) (hbelow : Visits s (n :: above) ms below)
      (hlater : Visits s above ns later) :
      Visits s above (n :: ns) (⟨above, n⟩ :: (below ++ later))

theorem exists_visits_of_bounded : ∀ (d : Nat) (above ns : List Node),
    (∀ n ∈ ns, Paths.bounded s.childrenOf d n = true) →
    (∀ n ∈ ns, ∀ m, s.WalksTo n m → ∃ ms, s.children m = .ok ms) → ∃ os, s.Visits above ns os
  | _, _, [], _, _ => ⟨[], .nil⟩
  | 0, _, n :: _, hd, _ => by cases hd n List.mem_cons_self
  | d + 1, above, n :: ns, hd, hr => by
    obtain ⟨ms, hms⟩ := hr n List.mem_cons_self n .refl
    have hmem : ∀ m ∈ ms, m ∈ s.childrenOf n := fun m hm => childrenOf_eq hms ▸ hm
    have hdn := Paths.bounded_succ.mp (hd n List.mem_cons_self)
    obtain ⟨below, hbelow⟩ := exists_visits_of_bounded d (n :: above) ms
      (fun m hm => hdn m (hmem m hm))
      fun m hm k hk => hr n List.mem_cons_self k (.head (hmem m hm) hk)
    obtain ⟨later, hlater⟩ := exists_visits_of_bounded (d + 1) above ns
      (fun m hm => hd m (List.mem_cons_of_mem _ hm)) fun m hm => hr m (List.mem_cons_of_mem _ hm)
    exact ⟨_, .cons hms hbelow hlater⟩

theorem Walkable.exists_visits {root : Node} (h : s.Walkable root) :
    ∃ os, s.Visits [] [root] os := by
  refine exists_visits_of_bounded s.depth [] [root] (fun n hn => ?_) fun n hn => ?_
  · exact List.mem_singleton.mp hn ▸ h.bounded
  · exact List.mem_singleton.mp hn ▸ h.resolves

/-- The occurrences are those of the nodes that the walk meets. -/
theorem Visits.mem_iff {above ns : List Node} {os : List Occurrence} (h : s.Visits above ns os)
    {m : Node} : (∃ o ∈ os, o.node = m) ↔ ∃ n ∈ ns, s.WalksTo n m := by
  induction h with
  | nil => simp
  | @cons above ns ms n below later hms _ _ ihbelow ihlater =>
    simp only [List.mem_cons, List.mem_append, or_and_right, exists_or, exists_eq_left,
      walksTo_iff hms, ihbelow, ihlater, or_assoc]

theorem Visits.append {above ns ms : List Node} {os ps : List Occurrence}
    (h : s.Visits above ns os) (h' : s.Visits above ms ps) :
    s.Visits above (ns ++ ms) (os ++ ps) := by
  induction h with
  | nil => exact h'
  | cons hms hbelow _ _ ih =>
    rw [List.cons_append, List.cons_append, List.append_assoc]
    exact .cons hms hbelow (ih h')

theorem walkable_of_children {n : Node} {ms : List Node} (hms : s.children n = .ok ms)
    (h : ∀ m ∈ ms, s.Walkable m) : s.Walkable n := by
  have hbounded : Paths.bounded s.childrenOf (s.depth + 1) n = true :=
    Paths.bounded_succ.mpr fun m hm => (h m (childrenOf_eq hms ▸ hm)).bounded
  refine ⟨fun k hk => ?_, Paths.acyclic_of_bounded hbounded⟩
  rcases (walksTo_iff hms).mp hk with rfl | ⟨m, hm, hmk⟩
  · exact ⟨ms, hms⟩
  · exact (h m hm).resolves k hmk

/-- A walk that meets occurrences ends and resolves. -/
theorem Visits.walkable {above ns : List Node} {os : List Occurrence} (h : s.Visits above ns os) :
    ∀ n ∈ ns, s.Walkable n := by
  induction h with
  | nil => simp
  | cons hms _ _ ihbelow ihlater =>
    intro n hn
    rcases List.mem_cons.mp hn with rfl | hn
    · exact walkable_of_children hms ihbelow
    · exact ihlater n hn

/-! ## Stores that grow -/

theorem Grows.targets {t : Store} (g : s.Grows t) : ∀ {l : Link} {ns : List Node},
    s.targets l = .ok ns → t.targets l = .ok ns
  | .node _, _, h => h
  | .list _ _, _, h => by
    obtain ⟨hs, hr, rfl⟩ := map_eq_ok.mp h
    exact map_eq_ok.mpr ⟨hs, g.listAt hr, rfl⟩
  | .entries _, _, h => by
    obtain ⟨es, hr, rfl⟩ := map_eq_ok.mp h
    exact map_eq_ok.mpr ⟨es, g.entriesAt hr, rfl⟩

theorem Grows.children {t : Store} (g : s.Grows t) {n : Node} {ms : List Node}
    (h : s.children n = .ok ms) : t.children n = .ok ms := by
  obtain ⟨c, mss, hc, hmss, rfl⟩ := children_eq_ok.mp h
  exact children_eq_ok.mpr ⟨c, mss, g.contentAt hc, mapM_mono (fun _ _ _ => g.targets) hmss, rfl⟩

theorem Visits.grows {t : Store} (g : s.Grows t) {above ns : List Node} {os : List Occurrence}
    (h : s.Visits above ns os) : t.Visits above ns os := by
  induction h with
  | nil => exact .nil
  | cons hms _ _ ihbelow ihlater => exact .cons (g.children hms) ihbelow ihlater

/-! ## Pre-order -/

theorem mapM_flatten_eq_ok {ε α β : Type} {f : α → Except ε β} {ass : List (List α)}
    {bs : List β} : ass.flatten.mapM f = .ok bs ↔
      ∃ bss, ass.mapM (fun as => as.mapM f) = .ok bss ∧ bss.flatten = bs := by
  induction ass generalizing bs with
  | nil => simp [pure_eq_ok]
  | cons as ass ih =>
    simp only [List.flatten_cons, List.mapM_append, bind_eq_ok, pure_eq_ok, ih, mapM_cons_eq_ok]
    constructor
    · rintro ⟨xs, hxs, _, ⟨yss, hyss, rfl⟩, rfl⟩
      exact ⟨xs :: yss, ⟨xs, yss, hxs, hyss, rfl⟩, rfl⟩
    · rintro ⟨_, ⟨xs, yss, hxs, hyss, rfl⟩, rfl⟩
      exact ⟨xs, hxs, _, ⟨yss, hyss, rfl⟩, rfl⟩

/-- To read what references name, one reference after the other, is to read all that
they name. -/
theorem mapM_targets_eq_ok {β : Type} {f : Node → Except Fault β} {ls : List Link}
    {bss : List (List β)} : ls.mapM (fun l => do (← orFault (s.targets l)).mapM f) = .ok bss ↔
      ∃ mss, ls.mapM s.targets = .ok mss ∧ mss.mapM (fun ms => ms.mapM f) = .ok bss := by
  induction ls generalizing bss with
  | nil => simp [pure_eq_ok]
  | cons l ls ih =>
    simp only [mapM_cons_eq_ok, ih, bind_eq_ok, orFault_eq_ok]
    constructor
    · rintro ⟨bs, bss, ⟨ms, hms, hbs⟩, ⟨mss, hmss, hbss⟩, rfl⟩
      exact ⟨ms :: mss, ⟨ms, mss, hms, hmss, rfl⟩, mapM_cons_eq_ok.mpr ⟨bs, bss, hbs, hbss, rfl⟩⟩
    · rintro ⟨_, ⟨ms, mss, hms, hmss, rfl⟩, h⟩
      obtain ⟨bs, bss, hbs, hbss, rfl⟩ := mapM_cons_eq_ok.mp h
      exact ⟨bs, bss, ⟨ms, hms, hbs⟩, ⟨mss, hmss, hbss⟩, rfl⟩

theorem preorderWithin_succ_eq_ok {d : Nat} {n : Node} {P : List Node} :
    s.preorderWithin (d + 1) n = .ok P ↔ ∃ ms below, s.children n = .ok ms ∧
      ms.mapM (s.preorderWithin d) = .ok below ∧ n :: below.flatten = P := by
  simp only [preorderWithin, bind_eq_ok, orFault_eq_ok, pure_eq_ok, mapM_targets_eq_ok,
    children_eq_ok]
  constructor
  · rintro ⟨c, hc, bss, ⟨mss, hmss, hbss⟩, rfl⟩
    exact ⟨_, _, ⟨c, mss, hc, hmss, rfl⟩, mapM_flatten_eq_ok.mpr ⟨bss, hbss, rfl⟩, rfl⟩
  · rintro ⟨_, _, ⟨c, mss, hc, hmss, rfl⟩, hbelow, rfl⟩
    obtain ⟨bss, hbss, rfl⟩ := mapM_flatten_eq_ok.mp hbelow
    exact ⟨c, hc, bss, ⟨mss, hmss, hbss⟩, rfl⟩

theorem Visits.preorderWithin_eq {above ns : List Node} {os : List Occurrence}
    (h : s.Visits above ns os) : ∀ {d : Nat},
      (∀ n ∈ ns, Paths.bounded s.childrenOf d n = true) →
      ∃ Ps, ns.mapM (s.preorderWithin d) = .ok Ps ∧ Ps.flatten = os.map (·.node) := by
  induction h with
  | nil => exact fun _ => ⟨[], rfl, rfl⟩
  | @cons above ns ms n below later hms _ _ ihbelow ihlater =>
    intro d hd
    have hn := hd n List.mem_cons_self
    cases d with
    | zero => cases hn
    | succ d =>
      have hms' := Paths.bounded_succ.mp hn
      rw [childrenOf_eq hms] at hms'
      obtain ⟨Ps, hPs, hbelow⟩ := ihbelow hms'
      obtain ⟨Qs, hQs, hlater⟩ := ihlater fun m hm => hd m (List.mem_cons_of_mem _ hm)
      have hhead := preorderWithin_succ_eq_ok.mpr ⟨ms, Ps, hms, hPs, rfl⟩
      refine ⟨(n :: Ps.flatten) :: Qs, mapM_cons_eq_ok.mpr ⟨_, _, hhead, hQs, rfl⟩, ?_⟩
      simp [hbelow, hlater]

/-- **The pre-order** lists the occurrences of a walk. -/
theorem Visits.preorder_eq {root : Node} {os : List Occurrence} (h : s.Visits [] [root] os)
    (hw : s.Walkable root) : s.preorder root = .ok (os.map (·.node)) := by
  obtain ⟨Ps, hPs, hflat⟩ := h.preorderWithin_eq fun n hn => List.mem_singleton.mp hn ▸ hw.bounded
  obtain ⟨P, _, hP, hnil, rfl⟩ := mapM_cons_eq_ok.mp hPs
  cases hnil
  rw [← hflat]
  simpa [preorder] using hP

theorem bounded_of_preorderWithin : ∀ {d : Nat} {n : Node} {P : List Node},
    s.preorderWithin d n = .ok P → Paths.bounded s.childrenOf d n = true ∧
      ∀ m, s.WalksTo n m → ∃ ms, s.children m = .ok ms
  | 0, _, _, h => by cases h
  | d + 1, n, P, h => by
    obtain ⟨ms, below, hms, hbelow, rfl⟩ := preorderWithin_succ_eq_ok.mp h
    have hchild : ∀ m ∈ s.childrenOf n, Paths.bounded s.childrenOf d m = true ∧
        ∀ k, s.WalksTo m k → ∃ ks, s.children k = .ok ks := by
      intro m hm
      obtain ⟨Q, hQ⟩ := exists_of_mapM hbelow m (childrenOf_eq hms ▸ hm)
      exact bounded_of_preorderWithin hQ
    refine ⟨Paths.bounded_succ.mpr fun m hm => (hchild m hm).1, fun m hm => ?_⟩
    rcases Relation.ReflTransGen.cases_head hm with rfl | ⟨k, hk, hkm⟩
    · exact ⟨ms, hms⟩
    · exact (hchild k hk).2 m hkm

/-- A pre-order exists exactly where a walk ends and resolves. -/
theorem walkable_iff_preorder {root : Node} :
    s.Walkable root ↔ ∃ P, s.preorder root = .ok P := by
  constructor
  · intro h
    obtain ⟨os, hos⟩ := h.exists_visits
    exact ⟨_, hos.preorder_eq h⟩
  · rintro ⟨P, hP⟩
    obtain ⟨hbounded, hresolves⟩ := bounded_of_preorderWithin hP
    exact ⟨hresolves, Paths.acyclic_of_bounded hbounded⟩

/-- A pre-order is that of occurrences. -/
theorem exists_visits_of_preorder {root : Node} {P : List Node} (hP : s.preorder root = .ok P) :
    ∃ os, s.Visits [] [root] os ∧ os.map (·.node) = P := by
  have hw : s.Walkable root := walkable_iff_preorder.mpr ⟨P, hP⟩
  obtain ⟨os, hos⟩ := hw.exists_visits
  exact ⟨os, hos, Except.ok.inj ((hos.preorder_eq hw).symm.trans hP)⟩

/-- The pre-order has the nodes that a walk meets. -/
theorem mem_preorder_iff {root : Node} {P : List Node} (hP : s.preorder root = .ok P) {n : Node} :
    n ∈ P ↔ s.WalksTo root n := by
  obtain ⟨os, hos, rfl⟩ := exists_visits_of_preorder hP
  rw [List.mem_map, hos.mem_iff]
  simp

/-! ## Walks as passes -/

variable {σ β : Type}

/-- Visits a node and goes no further. -/
def visitOne (visit : Visitor σ β) (n : Node) (st : σ) : Except Fault (Option β × σ) := do
  match ← orFault (visit n st) with
  | (.stop b, st) => return (some b, st)
  | (_, st) => return (none, st)

/-- A visitor that does not stop at a node goes into its children exactly if `into` says
so, whatever its state is. -/
structure Follows (visit : Visitor σ β) (into : Node → Bool) : Prop where
  descend : ∀ {n st st'}, visit n st = .ok (.descend, st') → into n = true
  skip : ∀ {n st st'}, visit n st = .ok (.skip, st') → into n = false

/-- Whether a walk comes to an occurrence if it goes into the nodes that `into` names. -/
def Occurrence.reached (into : Node → Bool) (o : Occurrence) : Bool := o.above.all into

theorem untilStop_targets {child : Node → σ → Except Fault (Option β × σ)} :
    ∀ {ls : List Link} {mss : List (List Node)}, ls.mapM s.targets = .ok mss → ∀ st,
      untilStop (fun l st => do untilStop child (← orFault (s.targets l)) st) ls st =
        untilStop child mss.flatten st
  | [], _, h, _ => by
    cases h
    rfl
  | l :: ls, _, h, st => by
    obtain ⟨ms, mss, hms, hmss, rfl⟩ := mapM_cons_eq_ok.mp h
    rw [untilStop, List.flatten_cons, untilStop_append, orFault_eq_ok.mpr hms]
    change (untilStop child ms st >>= _) = _
    congr 1
    funext r
    obtain ⟨_ | b, st⟩ := r
    · exact untilStop_targets hmss st
    · rfl

theorem walkLinks_eq {child : Node → σ → Except Fault (Option β × σ)} {n : Node}
    {ms : List Node} (h : s.children n = .ok ms) (st : σ) :
    s.walkLinks child n st = untilStop child ms st := by
  obtain ⟨c, mss, hc, hmss, rfl⟩ := children_eq_ok.mp h
  rw [walkLinks, orFault_eq_ok.mpr hc]
  exact untilStop_targets hmss st

/-- The way to an occurrence goes on from the way to where the walk began. -/
theorem Visits.above_suffix {above ns : List Node} {os : List Occurrence}
    (h : s.Visits above ns os) : ∀ o ∈ os, above <:+ o.above := by
  induction h with
  | nil => simp
  | @cons above ns ms n below later _ _ _ ihbelow ihlater =>
    intro o ho
    rcases List.mem_cons.mp ho with rfl | ho
    · exact List.suffix_rfl
    · rcases List.mem_append.mp ho with ho | ho
      · exact (List.suffix_cons n above).trans (ihbelow o ho)
      · exact ihlater o ho

/-- Nothing below a node is reached if the walk does not go into it. -/
theorem Visits.filter_reached_eq_nil {into : Node → Bool} {n : Node} (hn : into n = false)
    {above ms : List Node} {os : List Occurrence} (h : s.Visits (n :: above) ms os) :
    os.filter (·.reached into) = [] := by
  rw [List.filter_eq_nil_iff]
  intro o ho hreached
  have hmem : n ∈ o.above := (h.above_suffix o ho).subset List.mem_cons_self
  rw [List.all_eq_true.mp hreached n hmem] at hn
  cases hn

/-- A walk through nodes is one pass over the occurrences that it reaches. -/
theorem Visits.untilStop_eq {visit : Visitor σ β} {into : Node → Bool} (hv : Follows visit into)
    {above ns : List Node} {os : List Occurrence} (h : s.Visits above ns os) : ∀ {d : Nat},
      (∀ n ∈ ns, Paths.bounded s.childrenOf d n = true) → above.all into = true → ∀ st,
      untilStop (s.walkWithin visit d) ns st =
        untilStop (visitOne visit) ((os.filter (·.reached into)).map (·.node)) st := by
  induction h with
  | nil => exact fun _ _ _ => rfl
  | @cons above ns ms n below later hms hbelow _ ihbelow ihlater =>
    intro d hd habove st
    have hn := hd n List.mem_cons_self
    cases d with
    | zero => cases hn
    | succ d =>
      have hms' := Paths.bounded_succ.mp hn
      rw [childrenOf_eq hms] at hms'
      have hrest := ihlater (fun m hm => hd m (List.mem_cons_of_mem _ hm)) habove
      have hreached : Occurrence.reached into ⟨above, n⟩ = true := habove
      rw [List.filter_cons_of_pos hreached, List.filter_append, List.map_cons, List.map_append,
        untilStop, untilStop, walkWithin, visitOne]
      cases hvisit : visit n st with
      | error e => rfl
      | ok r =>
        obtain ⟨_ | _ | b, st'⟩ := r
        · -- the children come before what is left of `ns`, in the walk and in the list
          have hinto : (n :: above).all into = true := by
            rw [List.all_cons, hv.descend hvisit, habove]
            rfl
          change (s.walkLinks _ n st' >>= _) = untilStop _ (_ ++ _) st'
          rw [walkLinks_eq hms, ihbelow hms' hinto, untilStop_append]
          congr 1
          funext r
          obtain ⟨_ | b, st''⟩ := r
          · exact hrest st''
          · rfl
        · rw [hbelow.filter_reached_eq_nil (hv.skip hvisit)]
          exact hrest st'
        · rfl

/-- **A walk is a pass** over the occurrences that it reaches. -/
theorem walk_eq_reached {visit : Visitor σ β} {into : Node → Bool} (hv : Follows visit into)
    {root : Node} {os : List Occurrence} (hos : s.Visits [] [root] os) (st : σ) :
    s.walk visit root st =
      untilStop (visitOne visit) ((os.filter (·.reached into)).map (·.node)) st := by
  have hw : s.Walkable root := hos.walkable root List.mem_cons_self
  rw [← hos.untilStop_eq hv (fun n hn => List.mem_singleton.mp hn ▸ hw.bounded) rfl, walk]
  simp only [untilStop]
  cases s.walkWithin visit s.depth root st with
  | error e => rfl
  | ok r => obtain ⟨_ | b, st'⟩ := r <;> rfl

/-- A walk through the children of a node is a pass over what it reaches from there. -/
theorem walkChildren_eq_reached {visit : Visitor σ β} {into : Node → Bool}
    (hv : Follows visit into) {root : Node} {above ms : List Node} {below : List Occurrence}
    (hms : s.children root = .ok ms) (hbelow : s.Visits above ms below)
    (habove : above.all into = true) (st : σ) :
    s.walkChildren visit root st =
      untilStop (visitOne visit) ((below.filter (·.reached into)).map (·.node)) st := by
  have hbounded : ∀ m ∈ ms, Paths.bounded s.childrenOf s.depth m = true :=
    fun m hm => (hbelow.walkable m hm).bounded
  rw [walkChildren, walkLinks_eq hms, hbelow.untilStop_eq hv hbounded habove]

/-! ## Walks that go into every node -/

/-- A visitor that stops or goes into the children. -/
def NeverSkips (visit : Visitor σ β) : Prop := ∀ n st st', visit n st ≠ .ok (.skip, st')

theorem NeverSkips.follows {visit : Visitor σ β} (hv : NeverSkips visit) :
    Follows visit fun _ => true :=
  ⟨fun _ => rfl, fun h => absurd h (hv _ _ _)⟩

theorem filter_reached_true (os : List Occurrence) :
    os.filter (·.reached fun _ => true) = os :=
  List.filter_eq_self.mpr fun _ _ => List.all_eq_true.mpr fun _ _ => rfl

/-- **A walk is a pass over the pre-order** if it goes into every node. -/
theorem walk_eq_untilStop {visit : Visitor σ β} (hv : NeverSkips visit) {root : Node}
    {P : List Node} (hP : s.preorder root = .ok P) (st : σ) :
    s.walk visit root st = untilStop (visitOne visit) P st := by
  obtain ⟨os, hos, rfl⟩ := exists_visits_of_preorder hP
  rw [walk_eq_reached hv.follows hos, filter_reached_true]

/-- A walk through the children of a node is a pass over what comes after the node
in its pre-order. -/
theorem walkChildren_eq_untilStop {visit : Visitor σ β} (hv : NeverSkips visit) {root : Node}
    {P : List Node} (hP : s.preorder root = .ok (root :: P)) (st : σ) :
    s.walkChildren visit root st = untilStop (visitOne visit) P st := by
  obtain ⟨os, hos, heq⟩ := exists_visits_of_preorder hP
  cases hos with
  | @cons _ _ ms _ below later hms hbelow hlater =>
    cases hlater
    rw [List.append_nil, List.map_cons, List.cons.injEq] at heq
    rw [walkChildren_eq_reached hv.follows hms hbelow rfl, filter_reached_true, heq.2]

/-! ## Inspections -/

section
variable (f : Node → Bool) (note : Node → σ → σ)

theorem follows_inspector : Follows (inspector fun n st => .ok (f n, note n st)) f where
  descend {n st st'} h := by
    cases hf : f n <;> simp [inspector, hf, bind, Except.bind, pure, Except.pure] at h ⊢
  skip {n st st'} h := by
    cases hf : f n <;> simp [inspector, hf, bind, Except.bind, pure, Except.pure] at h ⊢

theorem untilStop_inspector : ∀ (ns : List Node) (st : σ),
    untilStop (visitOne (inspector fun n st => .ok (f n, note n st))) ns st =
      .ok (none, ns.foldl (fun st n => note n st) st)
  | [], _ => rfl
  | n :: ns, st => by
    have hvisit : visitOne (inspector fun n st => .ok (f n, note n st)) n st =
        .ok (none, note n st) := by
      cases hf : f n <;>
        simp [visitOne, inspector, orFault, hf, bind, Except.bind, pure, Except.pure]
    rw [untilStop, hvisit]
    exact untilStop_inspector ns (note n st)

/-- An inspection that reads nothing notes the nodes that it reaches, one after the other. -/
theorem Visits.inspect_eq {root : Node} {os : List Occurrence} (hos : s.Visits [] [root] os)
    (st : σ) : s.inspect (fun n st => .ok (f n, note n st)) root st =
      .ok (((os.filter (·.reached f)).map (·.node)).foldl (fun st n => note n st) st) := by
  rw [inspect, walk_eq_reached (follows_inspector f note) hos, untilStop_inspector]
  rfl

end

end
end Store
end GoTree
