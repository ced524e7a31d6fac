import GoTree.Proofs.Locate.Scan
import GoTree.Proofs.Position.Lines
/-!
# Searches in source order

A search gives up at the first node that starts after the wanted position. It has then
seen the nodes of the pre-order up to there, whatever the layout (`find_eq`). If the
nodes of the pre-order start one after the other, nothing later can contain the
position, and giving up loses nothing (`find_first`).
-/
namespace GoTree.Store

variable {s : Store}

/-- Whether a node contains a position, its start and its end included. -/
def covers (s : Store) (resolve : UInt32 → Position) (wanted : Position) (n : Node) : Bool :=
  resolve (s.spanOf n).start ≤ wanted ∧ wanted ≤ resolve (s.spanOf n).stop

/-- Whether a node does not start after a position. -/
def startsBy (s : Store) (resolve : UInt32 → Position) (wanted : Position) (n : Node) : Bool :=
  resolve (s.spanOf n).start ≤ wanted

theorem startsBy_of_covers {resolve : UInt32 → Position} {wanted : Position} {n : Node}
    (h : s.covers resolve wanted n = true) : s.startsBy resolve wanted n = true := by
  simp only [covers, startsBy, decide_eq_true_eq] at h ⊢
  exact h.1

theorem startsBy_of_le {resolve : UInt32 → Position} {wanted : Position}
    (hmono : ∀ a b, a ≤ b → resolve a ≤ resolve b) {n m : Node}
    (h : (s.spanOf n).start ≤ (s.spanOf m).start) (hm : s.startsBy resolve wanted m = true) :
    s.startsBy resolve wanted n = true := by
  simp only [startsBy, decide_eq_true_eq] at hm ⊢
  exact (hmono _ _ h).trans hm

/-! ## What a search for a plain property sees -/

theorem scan_plainTest (resolve : UInt32 → Position) (wanted : Position) (p : Node → Bool) :
    ∀ (ns : List Node) (st : Search Unit),
      (scan s.spanOf resolve wanted (plainTest p) ns st).result =
        .ok ((ns.takeWhile (s.startsBy resolve wanted)).find?
          fun n => s.covers resolve wanted n && p n)
  | [], _ => rfl
  | n :: ns, st => by
    have ih := scan_plainTest resolve wanted p ns
    by_cases hstart : resolve (s.spanOf n).start ≤ wanted
    · by_cases hstop : wanted ≤ resolve (s.spanOf n).stop
      · cases hp : p n <;>
          simp [scan, examine, plainTest, startsBy, covers, not_lt.mpr hstart, hstart, hstop, hp,
            ih]
      · simp [scan, examine, startsBy, covers, not_lt.mpr hstart, hstart, hstop, ih]
    · simp [scan, examine, startsBy, not_le.mp hstart, hstart]

/-- The search for a plain property goes through the nodes before the first one that
starts after the position. -/
theorem find_eq {root : Node} {P : List Node} (hP : s.preorder root = .ok P)
    (resolve : UInt32 → Position) (wanted : Position) (p : Node → Bool) :
    s.find resolve root wanted p = .ok ((P.takeWhile (s.startsBy resolve wanted)).find?
      fun n => s.covers resolve wanted n && p n) := by
  have hresult := scan_plainTest (s := s) resolve wanted p P { memory := () }
  rw [find, locate_eq resolve wanted (plainTest p) hP]
  generalize scan s.spanOf resolve wanted (plainTest p) P { memory := () } = l at hresult
  obtain ⟨result, reason, search⟩ := l
  cases hresult
  rfl

/-! ## Nodes in source order -/

/-- No node of a walk starts before one that the walk meets earlier. -/
def SourceOrdered (s : Store) (root : Node) : Prop :=
  ∀ P, s.preorder root = .ok P → P.Pairwise fun a b => (s.spanOf a).start ≤ (s.spanOf b).start

/-- A cut that no hit lies behind does not change the first hit. -/
theorem find?_takeWhile {α : Type} {hit keep : α → Bool} (hkeep : ∀ a, hit a → keep a) :
    ∀ {as : List α}, as.Pairwise (fun a b => keep b → keep a) →
      (as.takeWhile keep).find? hit = as.find? hit
  | [], _ => rfl
  | a :: as, hord => by
    obtain ⟨hlater, hrest⟩ := List.pairwise_cons.mp hord
    by_cases ha : keep a
    · rw [List.takeWhile_cons_of_pos ha, List.find?_cons, List.find?_cons,
        find?_takeWhile hkeep hrest]
    · -- a hit behind the cut would keep the item at which the list was cut
      have hnone : (a :: as).find? hit = none := by
        rw [List.find?_eq_none]
        intro b hb hhit
        rcases List.mem_cons.mp hb with rfl | hb
        · exact ha (hkeep b hhit)
        · exact ha (hlater b hb (hkeep b hhit))
      rw [List.takeWhile_cons_of_neg ha, hnone]
      rfl

/-- Nothing above the first hit of a walk is a hit, since a walk meets a node before
what is below it. -/
theorem Visits.above_of_find? {hit : Node → Bool} {above ns : List Node} {os : List Occurrence}
    (h : s.Visits above ns os) {o : Occurrence} : (∀ a ∈ above, hit a = false) →
      os.find? (fun o => hit o.node) = some o → ∀ a ∈ o.above, hit a = false := by
  induction h with
  | nil => intro _ h; cases h
  | @cons above ns ms n below later _ _ _ ihbelow ihlater =>
    intro habove hfind
    cases hn : hit n with
    | true =>
      simp only [List.find?_cons, hn, Option.some.injEq] at hfind
      rw [← hfind]
      exact habove
    | false =>
      simp only [List.find?_cons, hn, List.find?_append, Option.or_eq_some_iff] at hfind
      rcases hfind with hbelow | ⟨-, hlater⟩
      · refine ihbelow (fun a ha => ?_) hbelow
        rcases List.mem_cons.mp ha with rfl | ha
        · exact hn
        · exact habove a ha
      · exact ihlater habove hlater

/-- **The first match.** In a text that offsets can tell apart, let the nodes under a root
stand in source order. Then the search gives the first occurrence that contains the
position and has the property, and nothing only if no node under the root does both.
Nothing above that occurrence does both. -/
theorem find_first {text : String} (hlen : text.utf8ByteSize < 4294967295) {root : Node}
    (hw : s.Walkable root) (hord : s.SourceOrdered root) (wanted : Position) (p : Node → Bool) :
    let resolve := (LineIndex.ofText text).resolve
    let hit := fun n => s.covers resolve wanted n && p n
    ∃ os, s.Visits [] [root] os ∧
      s.find resolve root wanted p = .ok ((os.find? fun o => hit o.node).map (·.node)) ∧
      (s.find resolve root wanted p = .ok none ↔ ∀ n, s.WalksTo root n → hit n = false) ∧
      ∀ o, os.find? (fun o => hit o.node) = some o → ∀ a ∈ o.above, hit a = false := by
  intro resolve hit
  obtain ⟨os, hos⟩ := hw.exists_visits
  have hP := hos.preorder_eq hw
  have hcut : ((os.map (·.node)).takeWhile (s.startsBy resolve wanted)).find? hit =
      (os.map (·.node)).find? hit := by
    refine find?_takeWhile (fun n hn => ?_) ((hord _ hP).imp fun {a b} hab hb => ?_)
    · exact startsBy_of_covers (Bool.and_eq_true_iff.mp hn).1
    · exact startsBy_of_le (fun _ _ => LineIndex.resolve_ofText_mono hlen) hab hb
  have hfind : s.find resolve root wanted p =
      .ok ((os.find? fun o => hit o.node).map (·.node)) := by
    rw [find_eq hP, hcut, List.find?_map]
    rfl
  refine ⟨os, hos, hfind, ?_, fun o ho => hos.above_of_find? (by simp) ho⟩
  rw [hfind, Except.ok.injEq, Option.map_eq_none_iff, List.find?_eq_none]
  constructor
  · intro hnone n hn
    obtain ⟨o, ho, rfl⟩ := hos.mem_iff.mpr ⟨root, List.mem_singleton_self root, hn⟩
    simpa using hnone o ho
  · intro hnone o ho
    obtain ⟨r, hr, hreach⟩ := hos.mem_iff.mp ⟨o, ho, rfl⟩
    rw [List.mem_singleton.mp hr] at hreach
    simp [hnone o.node hreach]

/-- In `func f() {}` with a signature that starts at its parameters, the signature and the
parameters both contain the opening parenthesis; the signature comes first. -/
theorem first_smallFunc :
    let src := empty.addSmallFunc ⟨6, 8⟩
    let resolve := (LineIndex.ofText "func f() {}").resolve
    let hit := fun n => src.2.covers resolve ⟨1, 7⟩ n &&
      (src.2.tag? n == some .funcType || src.2.tag? n == some .fieldList)
    src.2.Walkable src.1 ∧ src.2.SourceOrdered src.1 ∧ ∃ os, src.2.Visits [] [src.1] os ∧
      (os.find? fun o => hit o.node).map (·.node) = some ⟨.expr, 1⟩ := by
  intro src resolve hit
  have hw : src.2.Walkable src.1 := walkable_smallFunc ⟨6, 8⟩
  have hord : src.2.SourceOrdered src.1 := by
    intro P hP
    cases (preorder_smallFunc ⟨6, 8⟩).symm.trans hP
    decide +kernel
  have hrun : src.2.find resolve src.1 ⟨1, 7⟩
      (fun n => src.2.tag? n == some .funcType || src.2.tag? n == some .fieldList) =
        .ok (some ⟨.expr, 1⟩) := by decide +kernel
  have hlen : "func f() {}".utf8ByteSize < 4294967295 := by decide
  obtain ⟨os, hos, hfind, -⟩ := find_first hlen hw hord ⟨1, 7⟩
    (fun n => src.2.tag? n == some .funcType || src.2.tag? n == some .fieldList)
  exact ⟨hw, hord, os, hos, Except.ok.inj (hfind.symm.trans hrun)⟩

end GoTree.Store
