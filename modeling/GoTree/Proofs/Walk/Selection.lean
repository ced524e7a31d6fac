import GoTree.Proofs.Walk.Occurrences
/-!
# What visitors select

A walk need not go everywhere. A visitor may leave out what is below a node, may watch
only the nodes of one kind, and may stop. Here the nodes that come to a visitor are given
as a part of the full walk, which its occurrences list with the nodes above them. The same
node may be left out in one place and met in another.

* `inspect_pruned`: an inspection calls its function where all nodes above were let in.
* `cutAfter`: a sequence up to the first item at which to stop.
* `recorder_eq`: how the hooks of a recorder divide the nodes.
* `walk_recorder`: what a recorder records, and what it stops with.
-/
namespace GoTree.Store

variable {s : Store}

/-! ## Inspections -/

/-- **Pruned inspection.** Where a walk from the root ends and resolves, an inspection calls
its function at the occurrences that have only nodes above them which the function lets it
into, in the order of the walk and once at each. Whatever is noted at the calls is noted
there and nowhere else, and the inspection goes to the end. -/
theorem inspect_pruned {root : Node} (hw : s.Walkable root) (f : Node → Bool) :
    ∃ os, s.Visits [] [root] os ∧ s.preorder root = .ok (os.map (·.node)) ∧
      ∀ {σ : Type} (note : Node → σ → σ) (st : σ),
        s.inspect (fun n st => .ok (f n, note n st)) root st =
          .ok ((os.filter fun o => o.above.all f).foldl (fun st o => note o.node st) st) := by
  obtain ⟨os, hos⟩ := hw.exists_visits
  refine ⟨os, hos, hos.preorder_eq hw, fun note st => ?_⟩
  rw [hos.inspect_eq f note, List.foldl_map]
  rfl

/-- Adds `(x) + *x` with one node for both `x`. -/
def addSharedOperand (s : Store) : Node × Store :=
  let x := s.addIdent "x" Span.none
  let paren := x.2.alloc (.of .parenExpr (.cons x.1 .nil)) Span.none
  let star := paren.2.alloc (.of .starExpr (.cons x.1 .nil)) Span.none
  let sum := star.2.alloc (.of .binaryExpr
    (.cons paren.1 (.cons BinaryOp.add (.cons star.1 .nil)))) Span.none
  (sum.1.node, sum.2)

/-- Not let into the parenthesis, the inspection comes to `x` only below the star. -/
theorem pruned_sharedOperand :
    let src := empty.addSharedOperand
    let f : Node → Bool := fun n => n ≠ ⟨.expr, 1⟩
    src.2.Walkable src.1 ∧ src.2.preorder src.1 =
        .ok [⟨.expr, 3⟩, ⟨.expr, 1⟩, ⟨.expr, 0⟩, ⟨.expr, 2⟩, ⟨.expr, 0⟩] ∧
      src.2.inspect (fun n seen => .ok (f n, seen ++ [n])) src.1 [] =
        .ok [⟨.expr, 3⟩, ⟨.expr, 1⟩, ⟨.expr, 2⟩, ⟨.expr, 0⟩] ∧
      ∃ os, src.2.Visits [] [src.1] os ∧
        (os.filter fun o => o.above.all f).foldl (fun seen o => seen ++ [o.node]) [] =
          [⟨.expr, 3⟩, ⟨.expr, 1⟩, ⟨.expr, 2⟩, ⟨.expr, 0⟩] := by
  intro src f
  have hP : src.2.preorder src.1 =
      .ok [⟨.expr, 3⟩, ⟨.expr, 1⟩, ⟨.expr, 0⟩, ⟨.expr, 2⟩, ⟨.expr, 0⟩] := rfl
  have hw : src.2.Walkable src.1 := walkable_iff_preorder.mpr ⟨_, hP⟩
  have hrun : src.2.inspect (fun n seen => .ok (f n, seen ++ [n])) src.1 [] =
      .ok [⟨.expr, 3⟩, ⟨.expr, 1⟩, ⟨.expr, 2⟩, ⟨.expr, 0⟩] := by decide +kernel
  obtain ⟨os, hos, -, hinspect⟩ := inspect_pruned hw f
  exact ⟨hw, hP, hrun, os, hos,
    Except.ok.inj ((hinspect (fun n seen => seen ++ [n]) []).symm.trans hrun)⟩

/-! ## Sequences that are cut -/

/-- A sequence up to the first item at which to stop, and that item. Whether to stop is
asked with the number of items there are by then. -/
def cutAfter {α : Type} (stop : Nat → α → Bool) (as : List α) : Option α × List α :=
  match (as.zipIdx 1).find? fun p => stop p.2 p.1 with
  | some (a, count) => (some a, as.take count)
  | none => (none, as)

theorem cutAfter_cons {α : Type} (stop : Nat → α → Bool) (a : α) (as : List α) :
    cutAfter stop (a :: as) =
      if stop 1 a then (some a, [a])
      else ((cutAfter (fun count => stop (count + 1)) as).1,
        a :: (cutAfter (fun count => stop (count + 1)) as).2) := by
  unfold cutAfter
  rw [List.zipIdx_cons, List.find?_cons]
  cases hstop : stop 1 a with
  | true => simp
  | false =>
    rw [List.zipIdx_succ, List.find?_map]
    simp only [Function.comp_def, Bool.false_eq_true, if_false]
    cases (as.zipIdx 1).find? fun p => stop (p.2 + 1) p.1 with
    | none => rfl
    | some p => rfl

/-! ## Recorders -/

/-- Whether a node comes to the hook in which a recorder records. -/
def Recorder.watches (r : Recorder) (n : Node) : Bool := r.kind?.all (· == n.kind)

/-- Whether a recorder records an occurrence if nothing stops it. The node is one that it
watches, and if it does not go into such nodes there is none above. -/
def Recorder.selects (r : Recorder) (o : Occurrence) : Bool :=
  r.watches o.node && (r.descend || !o.above.any r.watches)

/-- The tag of a node that resolves. -/
def tagOf (s : Store) (n : Node) : Tag := (s.tag? n).getD .badExpr

theorem tag?_eq_tagOf {n : Node} {ms : List Node} (h : s.children n = .ok ms) :
    s.tag? n = some (s.tagOf n) := by
  obtain ⟨c, -, hc, -, -⟩ := children_eq_ok.mp h
  have htag : s.tag? n = some c.tag := tag?_eq hc
  rw [tagOf, htag, Option.getD_some]

/-- A recorder acts in its hook, and goes into the nodes that do not come to it. -/
theorem recorder_eq (s : Store) (r : Recorder) (n : Node) (seen : Array (Node × Tag)) :
    s.recorder r n seen =
      if r.watches n then s.record r n seen else .ok (.descend, seen) := by
  obtain ⟨_ | k, stop, descend⟩ := r
  · simp [recorder, Recorder.watches, Hooks.visitor]
  · by_cases hk : n.kind = k
    · simp [recorder, Recorder.watches, Hooks.visitor, hk]
    · simp [recorder, Recorder.watches, Hooks.visitor, hk, Ne.symm hk]

theorem record_eq (r : Recorder) {n : Node} {t : Tag} (h : s.tagAt n = .ok t)
    (seen : Array (Node × Tag)) :
    s.record r n seen = .ok (if r.stop (seen.size + 1) n t then .stop n
      else if r.descend then .descend else .skip, seen.push (n, t)) := by
  simp only [record, h, bind, Except.bind, pure, Except.pure, Array.size_push]
  split <;> rfl

/-- Recording a node stops, or does with the children what the recorder is told to. -/
theorem action_of_record {r : Recorder} {n : Node} {seen seen' : Array (Node × Tag)}
    {a : Action Node} (h : s.record r n seen = .ok (a, seen')) :
    a = .stop n ∨ a = if r.descend then .descend else .skip := by
  cases htag : s.tagAt n with
  | error d => simp [record, htag, bind, Except.bind] at h
  | ok t =>
    rw [record_eq r htag, Except.ok.injEq, Prod.mk.injEq] at h
    rw [← h.1]
    split
    · exact .inl rfl
    · exact .inr rfl

/-- A recorder goes into the nodes that it does not watch, and into the others if it is told
to. -/
theorem follows_recorder (s : Store) (r : Recorder) :
    Follows (s.recorder r) fun n => !r.watches n || r.descend where
  descend {n seen seen'} h := by
    rw [recorder_eq] at h
    cases hn : r.watches n with
    | false => rfl
    | true =>
      rw [if_pos hn] at h
      cases hd : r.descend with
      | false => simpa [hd] using action_of_record h
      | true => rfl
  skip {n seen seen'} h := by
    rw [recorder_eq] at h
    cases hn : r.watches n with
    | false => simp [hn] at h
    | true =>
      rw [if_pos hn] at h
      cases hd : r.descend with
      | false => rfl
      | true => simpa [hd] using action_of_record h

theorem visitOne_recorder (r : Recorder) {n : Node} {t : Tag} (h : s.tagAt n = .ok t)
    (seen : Array (Node × Tag)) :
    visitOne (s.recorder r) n seen = .ok (if r.watches n then
      (if r.stop (seen.size + 1) n t then some n else none, seen.push (n, t))
      else (none, seen)) := by
  rw [visitOne, recorder_eq]
  cases r.watches n with
  | false => rfl
  | true =>
    rw [if_pos rfl, if_pos rfl, record_eq r h]
    cases r.stop (seen.size + 1) n t with
    | true => rfl
    | false => cases r.descend <;> rfl

/-- What a recorder that has recorded `seen` makes of nodes that come one after another. -/
theorem untilStop_recorder (r : Recorder) : ∀ {ns : List Node},
    (∀ n ∈ ns, s.tag? n = some (s.tagOf n)) → ∀ seen : Array (Node × Tag),
      let c := cutAfter (fun count p => r.stop (seen.size + count) p.1 p.2)
        ((ns.filter r.watches).map fun n => (n, s.tagOf n))
      untilStop (visitOne (s.recorder r)) ns seen = .ok (c.1.map (·.1), seen ++ c.2.toArray)
  | [], _, seen => by simp [untilStop, cutAfter]
  | n :: ns, htags, seen => by
    have ih := untilStop_recorder r (fun m hm => htags m (List.mem_cons_of_mem _ hm))
    dsimp only at ih ⊢
    rw [untilStop, visitOne_recorder r (tagAt_eq (htags n List.mem_cons_self))]
    cases hn : r.watches n with
    | false =>
      rw [List.filter_cons_of_neg (by simp [hn])]
      exact ih seen
    | true =>
      rw [List.filter_cons_of_pos hn, List.map_cons, cutAfter_cons]
      cases hstop : r.stop (seen.size + 1) n (s.tagOf n) with
      | true => simp [bind, Except.bind, pure, Except.pure]
      | false =>
        have hrest := ih (seen.push (n, s.tagOf n))
        simp only [Array.size_push, Nat.add_assoc, Nat.add_comm 1] at hrest
        simpa [bind, Except.bind] using hrest

/-! ## Walks of recorders -/

/-- What a recorder makes of the occurrences of a walk: the node that it stops with, and the
nodes that it has recorded by then. -/
def recorded (s : Store) (r : Recorder) (os : List Occurrence) :
    Option Node × Array (Node × Tag) :=
  let c := cutAfter (fun count p => r.stop count p.1 p.2)
    ((os.filter r.selects).map fun o => (o.node, s.tagOf o.node))
  (c.1.map (·.1), c.2.toArray)

/-- Of the nodes that a recorder comes to, it records those that it watches. -/
theorem filter_reached_watches (r : Recorder) (os : List Occurrence) :
    ((os.filter (·.reached fun n => !r.watches n || r.descend)).map (·.node)).filter r.watches =
      (os.filter r.selects).map (·.node) := by
  rw [List.filter_map, List.filter_filter]
  congr 1
  refine List.filter_congr fun o _ => ?_
  simp only [Function.comp_apply, Recorder.selects, Occurrence.reached]
  congr 1
  cases r.descend with
  | true => simp
  | false => simp [List.not_any_eq_all_not]

/-- A pass over the nodes that a recorder comes to gives what it makes of the walk. -/
theorem untilStop_reached (r : Recorder) {os : List Occurrence}
    (htags : ∀ o ∈ os, s.tag? o.node = some (s.tagOf o.node)) :
    untilStop (visitOne (s.recorder r))
      ((os.filter (·.reached fun n => !r.watches n || r.descend)).map (·.node)) #[] =
        .ok (s.recorded r os) := by
  have hreached : ∀ n ∈ (os.filter (·.reached fun n => !r.watches n || r.descend)).map (·.node),
      s.tag? n = some (s.tagOf n) := by
    intro n hn
    obtain ⟨o, ho, rfl⟩ := List.mem_map.mp hn
    exact htags o (List.mem_filter.mp ho).1
  have hpass := untilStop_recorder r hreached #[]
  dsimp only at hpass
  rw [hpass, filter_reached_watches, List.map_map]
  simp [recorded, Function.comp_def]

/-- The same place, seen from a node further up. -/
def Occurrence.under (root : Node) (o : Occurrence) : Occurrence := ⟨o.above ++ [root], o.node⟩

theorem Visits.under (root : Node) {above ns : List Node} {os : List Occurrence}
    (h : s.Visits above ns os) : s.Visits (above ++ [root]) ns (os.map (·.under root)) := by
  induction h with
  | nil => exact .nil
  | cons hms _ _ ihbelow ihlater =>
    rw [List.map_cons, List.map_append]
    exact .cons hms ihbelow ihlater

/-- The occurrences of a walk are the root and those of the walk through its children. -/
theorem Walkable.exists_visits_children {root : Node} (hw : s.Walkable root) :
    ∃ ms below, s.children root = .ok ms ∧ s.Visits [] ms below ∧
      s.Visits [] [root] (⟨[], root⟩ :: below.map (·.under root)) := by
  obtain ⟨ms, hms⟩ := hw.resolves root .refl
  have hchild : ∀ m ∈ ms, s.Walkable m := fun m hm =>
    hw.of_walksTo ((walksTo_iff hms).mpr (.inr ⟨m, hm, .refl⟩))
  obtain ⟨below, hbelow⟩ := exists_visits_of_bounded s.depth [] ms
    (fun m hm => (hchild m hm).bounded) fun m hm => (hchild m hm).resolves
  refine ⟨ms, below, hms, hbelow, ?_⟩
  have hroot := Visits.cons hms (hbelow.under root) .nil
  rwa [List.append_nil] at hroot

/-- **Recorders.** Where a walk from the root ends and resolves, take any recorder: it
records in the hook for all nodes or in that for one kind, stops when it likes, and goes
into what it records or does not.

* The walk records the occurrences that it selects, in the order of the walk. They are cut
  just after the first one at which it stops, and the walk ends with that one; if it stops
  at none, it records them all and ends with nothing.
* The walk through the children does the same with the occurrences below the root, where
  the root does not count as a node above them. -/
theorem walk_recorder {root : Node} (hw : s.Walkable root) (r : Recorder) :
    ∃ ms below, s.children root = .ok ms ∧ s.Visits [] ms below ∧
      let os := ⟨[], root⟩ :: below.map (·.under root)
      s.Visits [] [root] os ∧ s.preorder root = .ok (os.map (·.node)) ∧
      (∀ o ∈ os, s.tag? o.node = some (s.tagOf o.node)) ∧
      s.walk (s.recorder r) root #[] = .ok (s.recorded r os) ∧
      s.walkChildren (s.recorder r) root #[] = .ok (s.recorded r below) := by
  obtain ⟨ms, below, hms, hbelow, hos⟩ := hw.exists_visits_children
  have htags : ∀ {above ns os}, s.Visits above ns os →
      ∀ o ∈ os, s.tag? o.node = some (s.tagOf o.node) := by
    intro above ns os h o ho
    obtain ⟨n, hn, hreach⟩ := h.mem_iff.mp ⟨o, ho, rfl⟩
    obtain ⟨ks, hks⟩ := (h.walkable n hn).resolves o.node hreach
    exact tag?_eq_tagOf hks
  refine ⟨ms, below, hms, hbelow, hos, hos.preorder_eq hw, htags hos, ?_, ?_⟩
  · rw [walk_eq_reached (s.follows_recorder r) hos, untilStop_reached r (htags hos)]
  · rw [walkChildren_eq_reached (s.follows_recorder r) hms hbelow rfl,
      untilStop_reached r (htags hbelow)]

/-- Adds a block of two statements. The first is a function literal with a block of its own,
and in it stands the statement that is the second. -/
def addNestedBlocks (s : Store) : Node × Store :=
  let last := s.alloc (.of .emptyStmt (.cons false .nil)) Span.none
  let inner := last.2.allocList .stmt [last.1]
  let body := inner.2.alloc (.of .blockStmt (.cons (some inner.1) .nil)) Span.none
  let params := body.2.alloc (.of .fieldList (.cons none .nil)) Span.none
  let typ := params.2.alloc (.of .funcType (.cons params.1 (.cons none .nil))) Span.none
  let lit := typ.2.alloc (.of .funcLit (.cons typ.1 (.cons body.1 .nil))) Span.none
  let first := lit.2.alloc (.of .exprStmt (.cons lit.1 .nil)) Span.none
  let outer := first.2.allocList .stmt [first.1, last.1]
  let block := outer.2.alloc (.of .blockStmt (.cons (some outer.1) .nil)) Span.none
  (block.1.node, block.2)

/-- One recorder stops at the third statement, which is the block of the function literal.
The other goes into no statement; below the root it records the two statements of the
block, the last one only where it is not in the first. -/
theorem recorded_nestedBlocks :
    let src := empty.addNestedBlocks
    let third : Recorder := ⟨some .stmt, fun count _ _ => count == 3, true⟩
    let outermost : Recorder := ⟨some .stmt, fun _ _ _ => false, false⟩
    src.2.Walkable src.1 ∧
      (∃ os, src.2.Visits [] [src.1] os ∧ src.2.recorded third os = (some ⟨.stmt, 1⟩,
        #[(⟨.stmt, 3⟩, .blockStmt), (⟨.stmt, 2⟩, .exprStmt), (⟨.stmt, 1⟩, .blockStmt)])) ∧
      ∃ ms below, src.2.children src.1 = .ok ms ∧ src.2.Visits [] ms below ∧
        src.2.recorded outermost below =
          (none, #[(⟨.stmt, 2⟩, .exprStmt), (⟨.stmt, 0⟩, .emptyStmt)]) := by
  intro src third outermost
  have hw : src.2.Walkable src.1 := walkable_iff_preorder.mpr ⟨_, rfl⟩
  have hthird : src.2.walk (src.2.recorder third) src.1 #[] = .ok (some ⟨.stmt, 1⟩,
      #[(⟨.stmt, 3⟩, .blockStmt), (⟨.stmt, 2⟩, .exprStmt), (⟨.stmt, 1⟩, .blockStmt)]) := by
    decide +kernel
  have houtermost : src.2.walkChildren (src.2.recorder outermost) src.1 #[] =
      .ok (none, #[(⟨.stmt, 2⟩, .exprStmt), (⟨.stmt, 0⟩, .emptyStmt)]) := by decide +kernel
  obtain ⟨_, _, -, -, hos, -, -, hwalk, -⟩ := walk_recorder hw third
  obtain ⟨ms, below, hms, hbelow, -, -, -, -, hchildren⟩ := walk_recorder hw outermost
  exact ⟨hw, ⟨_, hos, Except.ok.inj (hwalk.symm.trans hthird)⟩,
    ms, below, hms, hbelow, Except.ok.inj (hchildren.symm.trans houtermost)⟩

end GoTree.Store
