import GoTree.Proofs.Locate.SourceOrder
/-!
# Searches in laid out trees

In a laid out tree the span of a node contains those of its children, and the children
come one after the other. One child is an exception: the signature of a function
declaration has a span that starts at the keyword, before the receiver and the name,
while a walk meets it after them. So the nodes of a walk need not stand in source
order, and a search that gives up at the name of a function never gets to its
signature (`signature_missed`).

This is all that a search can miss. `InView` are the nodes that are reached without
entering a signature whose function has its name after the wanted position.

* `Visits.mem_takeWhile`: what a walk meets before the first node that is not to be
  kept, in any tree.
* `kept_iff_inView`: in a laid out tree, these are the nodes in view.
* `find_inView`: a search finds nothing exactly if no node in view matches.
-/
namespace GoTree.Store

variable {s : Store}

/-! ## Before the first node that is not kept -/

/-- A walk through nodes meets `k`, and keeps everything up to it. -/
inductive Kept (s : Store) (keep : Node → Bool) : List Node → Node → Prop where
  | here {n : Node} {ns : List Node} (hn : keep n = true) : Kept s keep (n :: ns) n
  | down {n k : Node} {ns ms : List Node} (hn : keep n = true) (hms : s.children n = .ok ms)
      (hk : Kept s keep ms k) : Kept s keep (n :: ns) k
  | past {n k : Node} {ns : List Node} (hn : ∀ m, s.WalksTo n m → keep m = true)
      (hk : Kept s keep ns k) : Kept s keep (n :: ns) k

theorem kept_cons {keep : Node → Bool} {n k : Node} {ns ms : List Node}
    (hms : s.children n = .ok ms) : s.Kept keep (n :: ns) k ↔
      (keep n = true ∧ (k = n ∨ s.Kept keep ms k)) ∨
        ((∀ m, s.WalksTo n m → keep m = true) ∧ s.Kept keep ns k) := by
  constructor
  · rintro (⟨hn⟩ | ⟨hn, hms', hk⟩ | ⟨hn, hk⟩)
    · exact .inl ⟨hn, .inl rfl⟩
    · cases hms.symm.trans hms'
      exact .inl ⟨hn, .inr hk⟩
    · exact .inr ⟨hn, hk⟩
  · rintro (⟨hn, rfl | hk⟩ | ⟨hn, hk⟩)
    · exact .here hn
    · exact .down hn hms hk
    · exact .past hn hk

theorem mem_takeWhile_append {α : Type} {keep : α → Bool} {a : α} : ∀ {as bs : List α},
    a ∈ (as ++ bs).takeWhile keep ↔
      a ∈ as.takeWhile keep ∨ ((∀ b ∈ as, keep b = true) ∧ a ∈ bs.takeWhile keep)
  | [], bs => by simp
  | c :: as, bs => by
    by_cases hc : keep c = true
    · simp [List.takeWhile_cons_of_pos hc, mem_takeWhile_append, hc, or_assoc]
    · simp [List.takeWhile_cons_of_neg hc, hc]

/-- The nodes of a walk before the first one that is not kept. -/
theorem Visits.mem_takeWhile {keep : Node → Bool} {above ns : List Node} {os : List Occurrence}
    (h : s.Visits above ns os) {k : Node} :
    k ∈ (os.map (·.node)).takeWhile keep ↔ s.Kept keep ns k := by
  induction h with
  | nil =>
    refine ⟨fun h => ?_, fun h => ?_⟩
    · cases h
    · cases h
  | @cons above ns ms n below later hms hbelow _ ihbelow ihlater =>
    have hall : (∀ m, s.WalksTo n m → keep m = true) ↔
        keep n = true ∧ ∀ b ∈ below.map (·.node), keep b = true := by
      simp only [walksTo_iff hms, ← hbelow.mem_iff, List.mem_map]
      constructor
      · exact fun h => ⟨h n (.inl rfl), fun b hb => h b (.inr hb)⟩
      · rintro ⟨hn, hb⟩ m (rfl | hm)
        · exact hn
        · exact hb m hm
    rw [kept_cons hms, hall, ← ihbelow, ← ihlater, List.map_cons, List.map_append]
    by_cases hn : keep n = true
    · simp [List.takeWhile_cons_of_pos hn, mem_takeWhile_append, hn, or_assoc]
    · simp [List.takeWhile_cons_of_neg hn, hn]

theorem kept_append {keep : Node → Bool} {k : Node} {after : List Node} : ∀ {before : List Node},
    (∀ a ∈ before, ∀ m, s.WalksTo a m → keep m = true) → s.Kept keep after k →
      s.Kept keep (before ++ after) k
  | [], _, hk => hk
  | a :: _, h, hk => .past (h a List.mem_cons_self)
      (kept_append (fun b hb => h b (List.mem_cons_of_mem _ hb)) hk)

/-! ## Children by field -/

/-- What a walk goes to from a field, under the name of the field. -/
def namedTargets (s : Store) (p : (f : Field) × f.type.Value) : List (String × Node) :=
  ((p.1.type.link? p.2).toList.flatMap s.follow).map fun m => (p.1.name, m)

theorem fst_eq_of_mem_namedTargets {p : (f : Field) × f.type.Value} {q : String × Node}
    (h : q ∈ s.namedTargets p) : q.1 = p.1.name := by
  obtain ⟨m, -, rfl⟩ := List.mem_map.mp h
  rfl

/-- The nodes that a walk goes to from a node, each under the name of its field. -/
def namedChildren (s : Store) (n : Node) : List (String × Node) :=
  match s.contentAt n.handle with
  | .ok c => (c.values.toList.filter fun p => p.1.walked).flatMap s.namedTargets
  | .error _ => []

theorem map_snd_namedChildren {n : Node} {ms : List Node} (h : s.children n = .ok ms) :
    (s.namedChildren n).map (·.2) = ms := by
  obtain ⟨c, mss, hc, hmss, rfl⟩ := children_eq_ok.mp h
  have hfield : ∀ p, (s.namedTargets p).map (·.2) =
      (p.1.type.link? p.2).toList.flatMap s.follow := by
    intro p
    simp [namedTargets, Function.comp_def]
  rw [flatten_of_mapM_targets hmss, namedChildren, hc, Content.walkedLinks,
    List.filterMap_eq_flatMap_toList, List.flatMap_assoc, List.map_flatMap]
  simp only [hfield]

/-- A function declaration has its name right before its signature. -/
theorem namedChildren_funcDecl {n : Node} (h : s.tag? n = some .funcDecl) :
    ∃ before name signature after,
      s.namedChildren n = (before ++ [("name", name)]) ++ ("typ", signature) :: after ∧
      ∀ q ∈ before ++ after, q.1 ≠ "name" ∧ q.1 ≠ "typ" := by
  obtain ⟨⟨tag, vs, hk⟩, hcontent, htag⟩ := Option.map_eq_some_iff.mp h
  subst htag
  have hc : s.contentAt n.handle = .ok ⟨.funcDecl, vs, hk⟩ := contentAt_eq_ok.mpr hcontent
  obtain _ | ⟨doc, _ | ⟨recv, _ | ⟨name, _ | ⟨typ, _ | ⟨body, _ | _⟩⟩⟩⟩⟩ := vs
  refine ⟨s.namedTargets ⟨Field.opt "doc" (.any .commentGroup), doc⟩ ++
      s.namedTargets ⟨Field.opt "recv" (.any .fieldList), recv⟩,
    Handle.node name, Handle.node typ, s.namedTargets ⟨Field.opt "body" .block, body⟩, ?_, ?_⟩
  · rw [namedChildren, hc]
    change s.namedTargets ⟨Field.opt "doc" (.any .commentGroup), doc⟩ ++
      (s.namedTargets ⟨Field.opt "recv" (.any .fieldList), recv⟩ ++
        (("name", Handle.node name) :: ("typ", Handle.node typ) ::
          (s.namedTargets ⟨Field.opt "body" .block, body⟩ ++ []))) = _
    simp
  · intro q hq
    simp only [List.mem_append] at hq
    rcases hq with (hq | hq) | hq <;> simp [fst_eq_of_mem_namedTargets hq, Field.opt]

/-- A row has one place for a field that it has once. -/
theorem eq_of_split {w z : String × Node} {B after : List (String × Node)} :
    ∀ {A before : List (String × Node)}, A ++ z :: B = before ++ w :: after →
      (∀ q ∈ A ++ B, q.1 ≠ z.1) → w.1 = z.1 → A = before
  | [], [], _, _, _ => rfl
  | [], b :: before, h, hne, hw => by
    obtain ⟨-, rfl⟩ := List.cons.inj h
    exact absurd hw (hne w (by simp))
  | a :: A, [], h, hne, hw => by
    obtain ⟨rfl, -⟩ := List.cons.inj h
    exact absurd hw (hne a (by simp))
  | a :: A, b :: before, h, hne, hw => by
    obtain ⟨rfl, htail⟩ := List.cons.inj h
    rw [eq_of_split htail (fun q hq => hne q (List.mem_cons_of_mem _ hq)) hw]

/-! ## Layout -/

/-- Whether a field is the signature of a function declaration. -/
def isSignature (s : Store) (n : Node) (field : String) : Bool :=
  s.tag? n == some .funcDecl && field == "typ"

/-- Everything under a node is laid out: spans are not backward, the span of a node
contains those of its children, and a child ends before the later ones start, except
that a signature may start anywhere in its declaration. -/
structure LaidOut (s : Store) (root : Node) : Prop where
  forward : ∀ n, s.WalksTo root n → (s.spanOf n).start ≤ (s.spanOf n).stop
  nested : ∀ n, s.WalksTo root n → ∀ m ∈ s.childrenOf n,
    (s.spanOf n).start ≤ (s.spanOf m).start ∧ (s.spanOf m).stop ≤ (s.spanOf n).stop
  ordered : ∀ n, s.WalksTo root n → (s.namedChildren n).Pairwise fun a b =>
    s.isSignature n b.1 = false → (s.spanOf a.2).stop ≤ (s.spanOf b.2).start

theorem LaidOut.of_walksTo {root n : Node} (h : s.LaidOut root) (hn : s.WalksTo root n) :
    s.LaidOut n :=
  ⟨fun m hm => h.forward m (hn.trans hm), fun m hm => h.nested m (hn.trans hm),
    fun m hm => h.ordered m (hn.trans hm)⟩

/-- The span of a node contains the span of everything below it. -/
theorem LaidOut.contains {n m : Node} (h : s.LaidOut n) (hm : s.WalksTo n m) :
    (s.spanOf n).start ≤ (s.spanOf m).start ∧ (s.spanOf m).stop ≤ (s.spanOf n).stop := by
  induction hm with
  | refl => exact ⟨UInt32.le_refl _, UInt32.le_refl _⟩
  | tail hpath hstep ih =>
    obtain ⟨hstart, hstop⟩ := h.nested _ hpath _ hstep
    exact ⟨UInt32.le_trans ih.1 hstart, UInt32.le_trans hstop ih.2⟩

/-! ## Nodes in view -/

section
variable {resolve : UInt32 → Position} {wanted : Position}

/-- Neither the name of a construct nor anything below it starts after the position. -/
def NameStartsBy (s : Store) (resolve : UInt32 → Position) (wanted : Position) (n : Node) : Prop :=
  ∀ name, ("name", name) ∈ s.namedChildren n →
    ∀ k, s.WalksTo name k → s.startsBy resolve wanted k = true

/-- A step of a walk that a search can follow: into a child, and into a signature only
if the name of the function does not start after the position. -/
def Opens (s : Store) (resolve : UInt32 → Position) (wanted : Position) (n m : Node) : Prop :=
  ∃ field, (field, m) ∈ s.namedChildren n ∧
    (s.isSignature n field = true → s.NameStartsBy resolve wanted n)

/-- The nodes that a search can get to. -/
def InView (s : Store) (resolve : UInt32 → Position) (wanted : Position) : Node → Node → Prop :=
  Relation.ReflTransGen (s.Opens resolve wanted)

/-- A function declaration whose signature is at hand has its name before it. -/
theorem before_signature {n : Node} {field : String} {m : Node}
    {before after : List (String × Node)}
    (heq : s.namedChildren n = before ++ (field, m) :: after)
    (hsig : s.isSignature n field = true) : ∃ first name, before = first ++ [("name", name)] ∧
      ∀ x, ("name", x) ∈ s.namedChildren n → x = name := by
  simp only [isSignature, Bool.and_eq_true, beq_iff_eq] at hsig
  obtain ⟨first, name, signature, rest, hrow, hne⟩ := namedChildren_funcDecl hsig.1
  have hone : ∀ q ∈ (first ++ [("name", name)]) ++ rest, q.1 ≠ "typ" := by
    intro q hq
    simp only [List.mem_append, List.mem_singleton] at hq
    rcases hq with (hq | rfl) | hq
    · exact (hne q (List.mem_append_left _ hq)).2
    · simp
    · exact (hne q (List.mem_append_right _ hq)).2
  refine ⟨first, name, (eq_of_split (hrow.symm.trans heq) hone hsig.2).symm, fun x hx => ?_⟩
  rw [hrow] at hx
  rcases List.mem_append.mp hx with hx | hx
  · rcases List.mem_append.mp hx with hx | hx
    · exact absurd rfl (hne _ (List.mem_append_left _ hx)).1
    · exact (Prod.mk.inj (List.mem_singleton.mp hx)).2
  · rcases List.mem_cons.mp hx with hx | hx
    · exact absurd (Prod.mk.inj hx).1 (by decide)
    · exact absurd rfl (hne _ (List.mem_append_right _ hx)).1

theorem opens_of_kept_before {n m : Node} {before after : List Node}
    (hms : s.children n = .ok (before ++ m :: after))
    (hbefore : ∀ a ∈ before, ∀ b, s.WalksTo a b → s.startsBy resolve wanted b = true) :
    s.Opens resolve wanted n m := by
  obtain ⟨row, rest, hrow, rfl, hrest⟩ := List.map_eq_append_iff.mp (map_snd_namedChildren hms)
  obtain ⟨⟨field, _⟩, row', rfl, rfl, -⟩ := List.map_eq_cons_iff.mp hrest
  refine ⟨field, by simp [hrow], fun hsig name hname k hk => ?_⟩
  obtain ⟨first, x, rfl, honly⟩ := before_signature hrow hsig
  obtain rfl := honly name hname
  exact hbefore name (by simp) k hk

/-- What a walk keeps up to the first late node is in view. -/
theorem Kept.inView {ns : List Node} {k : Node} (h : s.Kept (s.startsBy resolve wanted) ns k) :
    s.startsBy resolve wanted k = true ∧ ∃ before m after, ns = before ++ m :: after ∧
      (∀ a ∈ before, ∀ b, s.WalksTo a b → s.startsBy resolve wanted b = true) ∧
      s.InView resolve wanted m k := by
  induction h with
  | @here n ns hn => exact ⟨hn, [], n, ns, rfl, by simp, .refl⟩
  | @down n k ns ms _ hms _ ih =>
    obtain ⟨hk, before, m, after, rfl, hbefore, hview⟩ := ih
    exact ⟨hk, [], n, ns, rfl, by simp, .head (opens_of_kept_before hms hbefore) hview⟩
  | @past n k ns hn _ ih =>
    obtain ⟨hk, before, m, after, rfl, hbefore, hview⟩ := ih
    refine ⟨hk, n :: before, m, after, rfl, fun a ha => ?_, hview⟩
    rcases List.mem_cons.mp ha with rfl | ha
    · exact hn
    · exact hbefore a ha

/-- If no function has its name after the position, everything is in view. -/
theorem inView_of_walksTo {root n : Node} (hw : s.Walkable root)
    (hnames : ∀ d, s.WalksTo root d → s.tag? d = some .funcDecl → s.NameStartsBy resolve wanted d)
    (hn : s.WalksTo root n) : s.InView resolve wanted root n := by
  induction hn with
  | refl => exact .refl
  | @tail a b ha hb ih =>
    refine .tail ih ?_
    obtain ⟨ms, hms⟩ := hw.resolves a ha
    rw [childrenOf_eq hms, ← map_snd_namedChildren hms] at hb
    obtain ⟨⟨field, _⟩, hmem, rfl⟩ := List.mem_map.mp hb
    refine ⟨field, hmem, fun hsig => ?_⟩
    simp only [isSignature, Bool.and_eq_true, beq_iff_eq] at hsig
    exact hnames a ha hsig.1

variable (hmono : ∀ a b, a ≤ b → resolve a ≤ resolve b)
include hmono

/-- In a laid out tree, nothing that comes before an open step starts late. -/
theorem LaidOut.startsBy_before {n m : Node} {field : String}
    {before after : List (String × Node)} (h : s.LaidOut n)
    (heq : s.namedChildren n = before ++ (field, m) :: after)
    (hchild : ∀ q ∈ before, q.2 ∈ s.childrenOf n)
    (hopen : s.isSignature n field = true → s.NameStartsBy resolve wanted n)
    (hm : s.startsBy resolve wanted m = true) {q : String × Node} (hq : q ∈ before) {b : Node}
    (hb : s.WalksTo q.2 b) : s.startsBy resolve wanted b = true := by
  have hbelow : s.LaidOut q.2 := h.of_walksTo (.single (hchild q hq))
  -- everything below an earlier child starts before the child ends
  have hends : (s.spanOf b).start ≤ (s.spanOf q.2).stop :=
    UInt32.le_trans (hbelow.forward b hb) (hbelow.contains hb).2
  have hord := h.ordered n .refl
  rw [heq] at hord
  obtain ⟨hbefore, -, hcross⟩ := List.pairwise_append.mp hord
  cases hsig : s.isSignature n field with
  | false =>
    have hlast := hcross q hq (field, m) List.mem_cons_self hsig
    exact startsBy_of_le hmono (UInt32.le_trans hends hlast) hm
  | true =>
    obtain ⟨first, name, rfl, -⟩ := before_signature heq hsig
    have hname := hopen hsig name (by simp [heq])
    rcases List.mem_append.mp hq with hq | hq
    · have hlast := (List.pairwise_append.mp hbefore).2.2 q hq ("name", name) (by simp)
        (by simp [isSignature])
      exact startsBy_of_le hmono (UInt32.le_trans hends hlast) (hname name .refl)
    · cases List.mem_singleton.mp hq
      exact hname b hb

/-- What is in view in a laid out tree and does not start late is met in time. -/
theorem LaidOut.kept_of_inView {k : Node} (hk : s.startsBy resolve wanted k = true) {root : Node}
    (hview : s.InView resolve wanted root k) : s.Walkable root → s.LaidOut root → ∀ ns,
      s.WalksTo root k ∧ s.Kept (s.startsBy resolve wanted) (root :: ns) k := by
  induction hview using Relation.ReflTransGen.head_induction_on with
  | refl => exact fun _ _ _ => ⟨.refl, .here hk⟩
  | @head n m hstep _ ih =>
    intro hw hl ns
    obtain ⟨field, hmem, hopen⟩ := hstep
    obtain ⟨ms, hms⟩ := hw.resolves n .refl
    obtain ⟨before, after, heq⟩ := List.append_of_mem hmem
    have hsplit := map_snd_namedChildren hms
    rw [heq, List.map_append, List.map_cons] at hsplit
    have hchild : ∀ q ∈ before ++ (field, m) :: after, q.2 ∈ s.childrenOf n := by
      intro q hq
      rw [childrenOf_eq hms, ← map_snd_namedChildren hms, heq]
      exact List.mem_map_of_mem hq
    have hnm : s.WalksTo n m := .single (hchild (field, m) (by simp))
    obtain ⟨hmk, hkept⟩ := ih (hw.of_walksTo hnm) (hl.of_walksTo hnm) (after.map (·.2))
    -- a node above a node that starts in time starts in time itself
    have hn := startsBy_of_le hmono (hl.contains (hnm.trans hmk)).1 hk
    have hm := startsBy_of_le hmono ((hl.of_walksTo hnm).contains hmk).1 hk
    refine ⟨hnm.trans hmk, .down hn (hms.trans (congrArg _ hsplit.symm)) (kept_append ?_ hkept)⟩
    intro a ha b hb
    obtain ⟨q, hq, rfl⟩ := List.mem_map.mp ha
    exact hl.startsBy_before hmono heq (fun q hq => hchild q (List.mem_append_left _ hq)) hopen
      hm hq hb

/-- What a walk of a laid out tree meets before the first late node is what is in view. -/
theorem kept_iff_inView {root k : Node} (hw : s.Walkable root) (hl : s.LaidOut root) :
    s.Kept (s.startsBy resolve wanted) [root] k ↔
      s.InView resolve wanted root k ∧ s.startsBy resolve wanted k = true := by
  constructor
  · intro hkept
    obtain ⟨hk, before, m, after, hsplit, -, hview⟩ := hkept.inView
    obtain ⟨rfl, rfl, -⟩ : before = [] ∧ m = root ∧ after = [] := by
      simpa [List.append_eq_cons_iff, eq_comm] using hsplit
    exact ⟨hview, hk⟩
  · rintro ⟨hview, hk⟩
    exact (LaidOut.kept_of_inView hmono hk hview hw hl []).2

end

/-! ## What a search finds -/

/-- **Nodes in view are found.** In a text that offsets can tell apart and under a laid out
root, the search gives a node in view that contains the position and has the property.
It gives none exactly if no node in view does both; so, if no function has its name
after the position, exactly if no node under the root does both. -/
theorem find_inView {text : String} (hlen : text.utf8ByteSize < 4294967295) {root : Node}
    (hw : s.Walkable root) (hl : s.LaidOut root) (wanted : Position) (p : Node → Bool) :
    let resolve := (LineIndex.ofText text).resolve
    let hit := fun n => s.covers resolve wanted n && p n
    ∃ found, s.find resolve root wanted p = .ok found ∧
      (∀ n, found = some n → s.InView resolve wanted root n ∧ hit n = true) ∧
      (found = none ↔ ∀ n, s.InView resolve wanted root n → hit n = false) ∧
      ((∀ d, s.WalksTo root d → s.tag? d = some .funcDecl → s.NameStartsBy resolve wanted d) →
        found = none → ∀ n, s.WalksTo root n → hit n = false) := by
  intro resolve hit
  have hmono : ∀ a b, a ≤ b → resolve a ≤ resolve b :=
    fun _ _ => LineIndex.resolve_ofText_mono hlen
  obtain ⟨os, hos⟩ := hw.exists_visits
  have hseen : ∀ n, n ∈ (os.map (·.node)).takeWhile (s.startsBy resolve wanted) ↔
      s.InView resolve wanted root n ∧ s.startsBy resolve wanted n = true := by
    intro n
    rw [hos.mem_takeWhile]
    exact kept_iff_inView hmono hw hl
  have hnone : ((os.map (·.node)).takeWhile (s.startsBy resolve wanted)).find? hit = none ↔
      ∀ n, s.InView resolve wanted root n → hit n = false := by
    rw [List.find?_eq_none]
    constructor
    · intro hnone n hview
      by_contra hn
      have hn : hit n = true := by simpa using hn
      have hstart := startsBy_of_covers (Bool.and_eq_true_iff.mp hn).1
      exact hnone n ((hseen n).mpr ⟨hview, hstart⟩) hn
    · intro hnone n hmem
      exact ne_true_of_eq_false (hnone n ((hseen n).mp hmem).1)
  refine ⟨_, find_eq (hos.preorder_eq hw) resolve wanted p, fun n hn => ?_, hnone,
    fun hnames hfound n hn => hnone.mp hfound n (inView_of_walksTo hw hnames hn)⟩
  exact ⟨((hseen n).mp (List.mem_of_find?_eq_some hn)).1, List.find?_some hn⟩

/-- A condition on the nodes of `func f() {}` is a condition on five nodes. -/
theorem forall_smallFunc {signature : Span} {φ : Node → Prop}
    (h : ∀ n ∈ [⟨.decl, 0⟩, ⟨.expr, 0⟩, ⟨.expr, 1⟩, ⟨.fieldList, 0⟩, ⟨.stmt, 0⟩], φ n) (n : Node)
    (hn : (empty.addSmallFunc signature).2.WalksTo (empty.addSmallFunc signature).1 n) : φ n :=
  h n ((mem_preorder_iff (preorder_smallFunc signature)).mpr hn)

theorem laidOut_smallFunc :
    (empty.addSmallFunc ⟨0, 8⟩).2.LaidOut (empty.addSmallFunc ⟨0, 8⟩).1 :=
  ⟨forall_smallFunc (by decide +kernel), forall_smallFunc (by decide +kernel),
    forall_smallFunc (by decide +kernel)⟩

/-- The signature of `func f() {}` is found at the name, from where on it is in view. -/
theorem inView_smallFunc :
    let src := empty.addSmallFunc ⟨0, 8⟩
    let resolve := (LineIndex.ofText "func f() {}").resolve
    src.2.Walkable src.1 ∧ src.2.LaidOut src.1 ∧
      src.2.find resolve src.1 ⟨1, 6⟩ (fun n => src.2.tag? n == some .funcType) =
        .ok (some ⟨.expr, 1⟩) ∧
      src.2.InView resolve ⟨1, 6⟩ src.1 ⟨.expr, 1⟩ := by
  intro src resolve
  have hlen : "func f() {}".utf8ByteSize < 4294967295 := by decide
  have hw : src.2.Walkable src.1 := walkable_smallFunc ⟨0, 8⟩
  have hrun : src.2.find resolve src.1 ⟨1, 6⟩ (fun n => src.2.tag? n == some .funcType) =
      .ok (some ⟨.expr, 1⟩) := by decide +kernel
  obtain ⟨found, hfind, hview, -⟩ := find_inView hlen hw laidOut_smallFunc ⟨1, 6⟩
    (fun n => src.2.tag? n == some .funcType)
  have hfound : found = some ⟨.expr, 1⟩ := Except.ok.inj (hfind.symm.trans hrun)
  exact ⟨hw, laidOut_smallFunc, hrun, (hview _ hfound).1⟩

/-- At the keyword `func` the signature is missed: it lies under the declaration and
contains the position, but the search gives up at the name. -/
theorem signature_missed :
    let src := empty.addSmallFunc ⟨0, 8⟩
    let resolve := (LineIndex.ofText "func f() {}").resolve
    let signature : Node := ⟨.expr, 1⟩
    src.2.Walkable src.1 ∧ src.2.LaidOut src.1 ∧ src.2.WalksTo src.1 signature ∧
      src.2.covers resolve ⟨1, 1⟩ signature = true ∧ src.2.tag? signature = some .funcType ∧
      src.2.find resolve src.1 ⟨1, 1⟩ (fun n => src.2.tag? n == some .funcType) = .ok none := by
  refine ⟨walkable_smallFunc ⟨0, 8⟩, laidOut_smallFunc, ?_, by decide +kernel, by decide +kernel,
    by decide +kernel⟩
  exact (mem_preorder_iff (preorder_smallFunc ⟨0, 8⟩)).mp (by simp)

end GoTree.Store
