import Mathlib.Data.List.Nodup
import Mathlib.Data.List.Perm.Subperm
import Mathlib.Logic.Relation
import GoTree.Node
/-!
# Paths between nodes

A traversal goes on from a node to others, which a function `next` lists. It ends
if no node that it meets lies below itself. `bounded next d n` says so with a number:
no path along `next` from `n` has more than `d` nodes.

* `bounded_of_acyclic`: without a cycle, no path has more nodes than there are, and
  one at its end from which nothing goes on.
* `acyclic_of_bounded`: a bound on the paths rules out cycles.
-/
namespace GoTree.Paths

open Relation (ReflTransGen TransGen)

/-- No node that is met from `n` lies below itself. -/
def Acyclic (next : Node → List Node) (n : Node) : Prop :=
  ∀ m, ReflTransGen (fun a b => b ∈ next a) n m → ¬ TransGen (fun a b => b ∈ next a) m m

/-- Whether no path from a node has more than `d` nodes. -/
def bounded (next : Node → List Node) : (d : Nat) → Node → Bool
  | 0, _ => false
  | d + 1, n => (next n).all (bounded next d)

variable {next : Node → List Node}

theorem bounded_succ {d : Nat} {n : Node} :
    bounded next (d + 1) n = true ↔ ∀ m ∈ next n, bounded next d m = true := by
  simp [bounded]

/-! ## Without a cycle paths are short -/

/-- Below a path of distinct nodes `path` there is room for as many nodes as there
are beside them. -/
theorem bounded_below {all : List Node} (hall : ∀ a b, b ∈ next a → a ∈ all) {root : Node}
    (ha : Acyclic next root) : ∀ (d : Nat) (path : List Node) (n : Node),
      ReflTransGen (fun a b => b ∈ next a) root n → path.Nodup →
      (∀ a ∈ path, a ∈ all ∧ TransGen (fun a b => b ∈ next a) a n) →
      path.length + d = all.length + 1 → bounded next d n = true
  | 0, path, n, _, hnodup, hpath, hlen => by
    have := (List.subperm_of_subset hnodup fun a h => (hpath a h).1).length_le
    omega
  | d + 1, path, n, hreach, hnodup, hpath, hlen => by
    refine bounded_succ.mpr fun m hm => ?_
    have hfresh : n ∉ path := fun hn => ha n hreach (hpath n hn).2
    refine bounded_below hall ha d (n :: path) m (hreach.tail hm) (hnodup.cons hfresh) ?_ ?_
    · intro a h
      rcases List.mem_cons.mp h with rfl | h
      · exact ⟨hall a m hm, .single hm⟩
      · exact ⟨(hpath a h).1, (hpath a h).2.tail hm⟩
    · simp only [List.length_cons]
      omega

/-- Without a cycle, a path visits each of the nodes from which something goes on
at most once. -/
theorem bounded_of_acyclic {all : List Node} (hall : ∀ a b, b ∈ next a → a ∈ all) {n : Node}
    (ha : Acyclic next n) : bounded next (all.length + 1) n = true :=
  bounded_below hall ha (all.length + 1) [] n .refl .nil (by simp) (by simp)

/-! ## Short paths rule out cycles -/

theorem bounded_mono : ∀ {d e : Nat} {n : Node}, d ≤ e →
    bounded next d n = true → bounded next e n = true
  | 0, _, _, _, h => by cases h
  | _ + 1, _ + 1, _, hde, h => bounded_succ.mpr fun m hm =>
      bounded_mono (Nat.le_of_succ_le_succ hde) (bounded_succ.mp h m hm)

theorem bounded_of_reaches {d : Nat} {n m : Node} (h : bounded next d n = true)
    (hm : ReflTransGen (fun a b => b ∈ next a) n m) : bounded next d m = true := by
  induction hm with
  | refl => exact h
  | tail _ hbc ih =>
    cases d with
    | zero => cases ih
    | succ d => exact bounded_mono (Nat.le_succ d) (bounded_succ.mp ih _ hbc)

/-- A node with a bound on its paths does not lie below itself. -/
theorem not_below_of_bounded : ∀ {d : Nat} {n : Node}, bounded next d n = true →
    ¬ TransGen (fun a b => b ∈ next a) n n
  | 0, _, h, _ => by cases h
  | d + 1, n, h, hcycle => by
    obtain ⟨m, hnm, hmn⟩ := TransGen.head'_iff.mp hcycle
    have hm : bounded next d m = true := bounded_succ.mp h m hnm
    exact not_below_of_bounded (bounded_of_reaches hm hmn) hcycle

theorem acyclic_of_bounded {d : Nat} {n : Node} (h : bounded next d n = true) : Acyclic next n :=
  fun _ hm => not_below_of_bounded (bounded_of_reaches h hm)

end GoTree.Paths
