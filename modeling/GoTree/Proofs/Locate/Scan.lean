import GoTree.Locate
import GoTree.Proofs.Walk.Occurrences
/-!
# A search is a scan of the pre-order

The search for a position is written as a visitor of a walk, with three ways to
leave it from any depth. `scan` is the same search through a plain sequence of
nodes: a loop that goes from one node to the next until it has an answer.

* `locate_eq_scan`: in a tree whose walk ends and resolves, the search is the scan of
  the pre-order. All that it did is the same: the result and its reason, the offsets
  turned into positions, the nodes tested, the count of the nodes visited. What comes
  after the node at which it stops has no part in it.
-/
namespace GoTree

variable {τ ε : Type}

/-! ## Scans -/

/-- Looks at one node: its start, its end if the start is not past the wanted
position, and the test if the end is not before it. Gives the answer, if the search
has one now, and its reason. -/
def examine (spanOf : Node → Span) (resolve : UInt32 → Position) (wanted : Position)
    (test : Predicate τ ε) (n : Node) (st : Search τ) :
    Option (Except ε (Option Node) × SearchEnd) × Search τ :=
  let st := { st with visited := st.visited + 1, offsets := st.offsets.push (spanOf n).start }
  if wanted < resolve (spanOf n).start then (some (.ok none, .passed), st)
  else
    let st := { st with offsets := st.offsets.push (spanOf n).stop }
    if wanted ≤ resolve (spanOf n).stop then
      match test n st.memory with
      | (.ok true, memory) =>
        (some (.ok (some n), .found),
          { st with memory := memory, log := st.log.push (.tested n true) })
      | (.ok false, memory) =>
        (none, { st with memory := memory, log := st.log.push (.tested n true) })
      | (.error e, memory) =>
        (some (.error e, .failed),
          { st with memory := memory, log := st.log.push (.tested n false) })
    else (none, st)

/-- Looks at the nodes of a sequence from left to right until there is an answer. -/
def scan (spanOf : Node → Span) (resolve : UInt32 → Position) (wanted : Position)
    (test : Predicate τ ε) : List Node → Search τ → Located τ ε
  | [], st =>
    ⟨.ok none, .exhausted, { st with log := st.log.push (.finished wanted st.visited .exhausted) }⟩
  | n :: ns, st =>
    match examine spanOf resolve wanted test n st with
    | (some (result, reason), st) =>
      ⟨result, reason, { st with log := st.log.push (.finished wanted st.visited reason) }⟩
    | (none, st) => scan spanOf resolve wanted test ns st

section
variable (spanOf : Node → Span) (resolve : UInt32 → Position) (wanted : Position)
  (test : Predicate τ ε)

theorem examine_visited (n : Node) (st : Search τ) :
    (examine spanOf resolve wanted test n st).2.visited = st.visited + 1 := by
  unfold examine
  split
  · rfl
  · split
    · dsimp only
      split <;> rfl
    · rfl

theorem examine_reason (n : Node) (st : Search τ) :
    ∀ answer ∈ (examine spanOf resolve wanted test n st).1, answer.2 ≠ .exhausted := by
  unfold examine
  split
  · simp
  · split
    · dsimp only
      split <;> simp
    · simp

/-- A scan visits a first part of the sequence: all of it if it finds no reason to
stop, and otherwise a part after which anything may come. -/
theorem scan_visited : ∀ (ns : List Node) (st : Search τ),
    ∃ k ≤ ns.length, (scan spanOf resolve wanted test ns st).search.visited = st.visited + k ∧
      ((scan spanOf resolve wanted test ns st).reason = .exhausted → k = ns.length) ∧
      ((scan spanOf resolve wanted test ns st).reason ≠ .exhausted → ∀ later,
        scan spanOf resolve wanted test (ns.take k ++ later) st =
          scan spanOf resolve wanted test ns st)
  | [], st => ⟨0, Nat.le_refl 0, rfl, fun _ => rfl, fun h => absurd rfl h⟩
  | n :: ns, st => by
    have hvisited := examine_visited spanOf resolve wanted test n st
    have hreason := examine_reason spanOf resolve wanted test n st
    simp only [scan]
    generalize hexamine : examine spanOf resolve wanted test n st = out at hvisited hreason
    obtain ⟨_ | ⟨result, reason⟩, st'⟩ := out
    · obtain ⟨k, hk, hcount, hall, hsome⟩ := scan_visited ns st'
      refine ⟨k + 1, Nat.succ_le_succ hk, ?_, fun h => congrArg (· + 1) (hall h), fun h later => ?_⟩
      · rw [hcount, hvisited]
        omega
      · rw [List.take_succ_cons, List.cons_append, scan, hexamine]
        exact hsome h later
    · refine ⟨1, by simp, hvisited, fun h => absurd h (hreason _ rfl), fun _ later => ?_⟩
      rw [List.take_succ_cons, List.cons_append, scan, hexamine]

end

/-! ## The walk of a search -/

namespace Store

variable {s : Store}

/-- The span of a node. -/
def spanOf (s : Store) (n : Node) : Span :=
  match s.spanAt n with
  | .ok span => span
  | .error _ => .none

theorem spanAt_eq {n : Node} {ms : List Node} (h : s.children n = .ok ms) :
    s.spanAt n = .ok (s.spanOf n) := by
  obtain ⟨c, -, hc, -, -⟩ := children_eq_ok.mp h
  have hlt : n.raw < (s.nodes.get n.kind).size := lt_of_content? (contentAt_eq_ok.mp hc)
  obtain ⟨span, hspan⟩ := Option.isSome_iff_exists.mp (span?_isSome.mpr hlt)
  simp [spanOf, spanAt, hspan]

/-- A visit of the search examines the node: it stops with the answer, or goes into the
node if there is none. -/
theorem searcher_eq (resolve : UInt32 → Position) (wanted : Position) (test : Predicate τ ε)
    {n : Node} (hspan : s.spanAt n = .ok (s.spanOf n)) (st : Search τ) :
    (s.searcher resolve wanted test n st =
        .ok (.descend, (examine s.spanOf resolve wanted test n st).2) ∧
      (examine s.spanOf resolve wanted test n st).1 = none) ∨
    ∃ stop, s.searcher resolve wanted test n st =
        .ok (.stop stop, (examine s.spanOf resolve wanted test n st).2) ∧
      (examine s.spanOf resolve wanted test n st).1 = some (outcome (some stop)) := by
  unfold searcher examine
  rw [hspan]
  by_cases hstart : wanted < resolve (s.spanOf n).start
  · right
    exact ⟨.passed, by simp [hstart, bind, Except.bind, pure, Except.pure],
      by simp [hstart, outcome]⟩
  · by_cases hstop : wanted ≤ resolve (s.spanOf n).stop
    · cases htest : test n st.memory with
      | mk answer memory =>
        obtain e | _ | _ := answer
        · right
          exact ⟨.failed e, by simp [hstart, hstop, htest, bind, Except.bind, pure, Except.pure],
            by simp [hstart, hstop, htest, outcome]⟩
        · left
          simp [hstart, hstop, htest, bind, Except.bind, pure, Except.pure]
        · right
          exact ⟨.found n, by simp [hstart, hstop, htest, bind, Except.bind, pure, Except.pure],
            by simp [hstart, hstop, htest, outcome]⟩
    · left
      simp [hstart, hstop, bind, Except.bind, pure, Except.pure]

theorem neverSkips_searcher (resolve : UInt32 → Position) (wanted : Position)
    (test : Predicate τ ε) : NeverSkips (s.searcher resolve wanted test) := by
  intro n st st' h
  cases hspan : s.spanAt n with
  | error d => simp [searcher, hspan, bind, Except.bind] at h
  | ok span =>
    have hspan' : s.spanAt n = .ok (s.spanOf n) := by simp [spanOf, hspan]
    rcases searcher_eq resolve wanted test hspan' st with ⟨heq, -⟩ | ⟨stop, heq, -⟩ <;>
      simp [heq] at h

/-- The search along a sequence of nodes that have spans is a scan. -/
theorem untilStop_searcher (resolve : UInt32 → Position) (wanted : Position)
    (test : Predicate τ ε) : ∀ {ns : List Node}, (∀ n ∈ ns, s.spanAt n = .ok (s.spanOf n)) →
    ∀ st : Search τ, ∃ stop? st',
      untilStop (visitOne (s.searcher resolve wanted test)) ns st = .ok (stop?, st') ∧
        scan s.spanOf resolve wanted test ns st =
          ⟨(outcome stop?).1, (outcome stop?).2,
            { st' with log := st'.log.push (.finished wanted st'.visited (outcome stop?).2) }⟩
  | [], _, st => ⟨none, st, rfl, rfl⟩
  | n :: ns, hspans, st => by
    have hvisit := searcher_eq resolve wanted test (hspans n List.mem_cons_self) st
    simp only [untilStop, visitOne, scan]
    generalize examine s.spanOf resolve wanted test n st = out at hvisit
    obtain ⟨answer, st₁⟩ := out
    rcases hvisit with ⟨heq, hnone⟩ | ⟨stop, heq, hsome⟩
    · cases hnone
      obtain ⟨stop?, st', hrest, hscan⟩ := untilStop_searcher resolve wanted test
        (fun m hm => hspans m (List.mem_cons_of_mem _ hm)) st₁
      refine ⟨stop?, st', ?_, hscan⟩
      rw [heq]
      exact hrest
    · cases hsome
      refine ⟨some stop, st₁, ?_, rfl⟩
      rw [heq]
      rfl

theorem locate_eq (resolve : UInt32 → Position) (wanted : Position) (test : Predicate τ ε)
    {root : Node} {P : List Node} (hP : s.preorder root = .ok P) (memory : τ) :
    s.locate resolve root wanted test memory =
      .ok (scan s.spanOf resolve wanted test P { memory := memory }) := by
  have hspans : ∀ n ∈ P, s.spanAt n = .ok (s.spanOf n) := by
    intro n hn
    have hw : s.Walkable root := walkable_iff_preorder.mpr ⟨P, hP⟩
    obtain ⟨ms, hms⟩ := hw.resolves n ((mem_preorder_iff hP).mp hn)
    exact spanAt_eq hms
  obtain ⟨stop?, st', hwalk, hscan⟩ :=
    untilStop_searcher resolve wanted test hspans { memory := memory }
  rw [locate, walk_eq_untilStop (neverSkips_searcher resolve wanted test) hP, hwalk, hscan]
  rfl

/-- A walk that records every node gives the pre-order. -/
theorem inspect_record {root : Node} {P : List Node} (hP : s.preorder root = .ok P) :
    s.inspect (fun n seen => .ok (true, seen ++ [n])) root [] = .ok P := by
  obtain ⟨os, hos, rfl⟩ := exists_visits_of_preorder hP
  rw [hos.inspect_eq (fun _ => true) fun n seen => seen ++ [n], filter_reached_true,
    List.foldl_append_eq_append, ← List.flatMap_def, List.flatMap_singleton']
  rfl

/-- **A search is a scan.** Where a walk from the root ends and resolves, the walk that
records everything gives a sequence of nodes, and the search is the scan of that
sequence. If the scan stops at a node, what comes after it may be anything; otherwise
it has visited the whole sequence. -/
theorem locate_eq_scan {root : Node} (hw : s.Walkable root) (resolve : UInt32 → Position)
    (wanted : Position) (test : Predicate τ ε) (memory : τ) :
    ∃ P, s.inspect (fun n seen => .ok (true, seen ++ [n])) root [] = .ok P ∧
      ∃ l, s.locate resolve root wanted test memory = .ok l ∧
        l = scan s.spanOf resolve wanted test P { memory := memory } ∧
        (l.reason = .exhausted → l.search.visited = P.length) ∧
        (l.reason ≠ .exhausted → l.search.visited ≤ P.length ∧ ∀ later, l =
          scan s.spanOf resolve wanted test (P.take l.search.visited ++ later)
            { memory := memory }) := by
  obtain ⟨P, hP⟩ := walkable_iff_preorder.mp hw
  refine ⟨P, inspect_record hP, _, locate_eq resolve wanted test hP memory, rfl, ?_⟩
  obtain ⟨k, hk, hcount, hall, hpart⟩ :=
    scan_visited s.spanOf resolve wanted test P { memory := memory }
  rw [Nat.zero_add] at hcount
  rw [hcount]
  exact ⟨hall, fun h => ⟨hk, fun later => (hpart h later).symm⟩⟩

/-- Adds `func f() {}` with a span for its signature. -/
def addSmallFunc (s : Store) (signature : Span) : Node × Store :=
  let name := s.addIdent "f" ⟨5, 6⟩
  let params := name.2.alloc (.of .fieldList (.cons none .nil)) ⟨6, 8⟩
  let typ := params.2.alloc (.of .funcType (.cons params.1 (.cons none .nil))) signature
  let body := typ.2.alloc (.of .blockStmt (.cons none .nil)) ⟨9, 11⟩
  let decl := body.2.alloc (.of .funcDecl
    (.cons none (.cons none (.cons name.1 (.cons typ.1 (.cons (some body.1) .nil)))))) ⟨0, 11⟩
  (decl.1.node, decl.2)

theorem preorder_smallFunc (signature : Span) :
    (empty.addSmallFunc signature).2.preorder (empty.addSmallFunc signature).1 =
      .ok [⟨.decl, 0⟩, ⟨.expr, 0⟩, ⟨.expr, 1⟩, ⟨.fieldList, 0⟩, ⟨.stmt, 0⟩] :=
  rfl

theorem walkable_smallFunc (signature : Span) :
    (empty.addSmallFunc signature).2.Walkable (empty.addSmallFunc signature).1 :=
  walkable_iff_preorder.mpr ⟨_, preorder_smallFunc signature⟩

/-- The position of a byte offset in a text whose lines all have `width` bytes. -/
def fixedWidth (width offset : UInt32) : Position := ⟨offset / width + 1, offset % width + 1⟩

/-- A test that records what it is shown and fails at expressions: the search stops at the
name of the function, its second node. -/
theorem scan_smallFunc :
    let src := empty.addSmallFunc ⟨0, 8⟩
    let resolve := fixedWidth 20
    let test : Predicate (List Node) Kind := fun n seen =>
      (if n.kind = .expr then .error n.kind else .ok false, seen ++ [n])
    src.2.Walkable src.1 ∧ ∃ P l, src.2.inspect (fun n seen => .ok (true, seen ++ [n])) src.1 [] =
        .ok P ∧ src.2.locate resolve src.1 ⟨1, 6⟩ test [] = .ok l ∧ l.reason = .failed ∧
      l.search.memory = [⟨.decl, 0⟩, ⟨.expr, 0⟩] ∧ ∀ later, l =
        scan src.2.spanOf resolve ⟨1, 6⟩ test (P.take 2 ++ later) { memory := [] } := by
  intro src resolve test
  have hw : src.2.Walkable src.1 := walkable_smallFunc ⟨0, 8⟩
  have hrun : (src.2.locate resolve src.1 ⟨1, 6⟩ test []).map
      (fun l => (l.reason, l.search.visited, l.search.memory)) =
        .ok (.failed, 2, [⟨.decl, 0⟩, ⟨.expr, 0⟩]) := by decide +kernel
  obtain ⟨P, hrecord, l, hl, -, -, hpart⟩ := locate_eq_scan hw resolve ⟨1, 6⟩ test []
  obtain ⟨l', hl', hfacts⟩ := map_eq_ok.mp hrun
  cases hl.symm.trans hl'
  obtain ⟨hreason, hvisited, hmemory⟩ := Prod.mk.inj hfacts |>.imp id Prod.mk.inj
  have hlater := (hpart (by simp [hreason])).2
  rw [hvisited] at hlater
  exact ⟨hw, P, l, hrecord, hl, hreason, hmemory, hlater⟩

end Store
end GoTree
