import Mathlib.Data.List.TakeWhile
import GoTree.Text.Blank
/-!
# What is left when blanks are dropped

Blanks are dropped by running over the text from both ends. What is left can be said
without running: the text is cut in three, the outer pieces are white space, and the piece
in between neither starts nor ends with it. Such a piece exists for every text and is the
only one.

* `whiteSpace`: the code points of white space, one by one.
* `Blank`, `Stripped`: runs of white space, and a text without those at its ends.
* `stripped_iff`: dropping blanks is stripping.
* `stripped_between`: a text with no white space is what is left of it between blanks.
-/
namespace GoTree.Text

/-- The code points that count as white space. -/
def whiteSpace : List Nat :=
  [0x09, 0x0a, 0x0b, 0x0c, 0x0d, 0x20, 0x85, 0xa0, 0x1680,
   0x2000, 0x2001, 0x2002, 0x2003, 0x2004, 0x2005, 0x2006, 0x2007, 0x2008, 0x2009, 0x200a,
   0x2028, 0x2029, 0x202f, 0x205f, 0x3000]

/-- A run of white space. -/
def Blank (w : List Char) : Prop := ∀ c ∈ w, c.toNat ∈ whiteSpace

/-- `t` is `cs` without the white space at both ends. -/
structure Stripped (cs t : List Char) : Prop where
  around : ∃ v w, cs = v ++ t ++ w ∧ Blank v ∧ Blank w
  head : ∀ c ∈ t.head?, c.toNat ∉ whiteSpace
  last : ∀ c ∈ t.getLast?, c.toNat ∉ whiteSpace

theorem isBlank_iff {c : Char} : isBlank c = true ↔ c.toNat ∈ whiteSpace := by
  simp only [isBlank, whiteSpace, Bool.or_eq_true, Bool.and_eq_true, decide_eq_true_eq, beq_iff_eq,
    List.mem_cons, List.not_mem_nil, or_false]
  omega

theorem blank_iff {w : List Char} : Blank w ↔ ∀ c ∈ w, isBlank c = true := by
  simp only [Blank, isBlank_iff]

/-! ## Blanks at one end -/

/-- Dropping goes past blanks and stops at what does not start with one. -/
theorem dropWhile_blank {v t : List Char} (hv : Blank v) (ht : ∀ c ∈ t.head?, c.toNat ∉ whiteSpace) :
    (v ++ t).dropWhile isBlank = t := by
  rw [List.dropWhile_append_of_pos (blank_iff.mp hv)]
  cases t with
  | nil => rfl
  | cons c t => exact List.dropWhile_cons_of_neg (isBlank_iff.not.mpr (ht c rfl))

/-- What is dropped is blank, and what is left does not start with a blank. -/
theorem exists_dropWhile_blank (cs : List Char) : ∃ v, Blank v ∧ cs = v ++ cs.dropWhile isBlank ∧
    ∀ c ∈ (cs.dropWhile isBlank).head?, c.toNat ∉ whiteSpace := by
  refine ⟨cs.takeWhile isBlank, blank_iff.mpr fun c => List.mem_takeWhile_imp,
    List.takeWhile_append_dropWhile.symm, fun c hc => ?_⟩
  have hnot := List.head?_dropWhile_not isBlank cs
  rw [Option.mem_def.mp hc] at hnot
  rw [← isBlank_iff, hnot]
  exact Bool.false_ne_true

/-! ## Blanks at both ends -/

theorem stripped_trim (cs : List Char) : Stripped cs (trim cs) := by
  obtain ⟨v, hv, hfront, hhead⟩ := exists_dropWhile_blank cs
  obtain ⟨w, hw, hback, hlast⟩ := exists_dropWhile_blank (cs.dropWhile isBlank).reverse
  have hrest : cs.dropWhile isBlank = trim cs ++ w.reverse := by
    rw [trim, ← List.reverse_append, ← hback, List.reverse_reverse]
  refine ⟨⟨v, w.reverse, ?_, hv, fun c hc => hw c (List.mem_reverse.mp hc)⟩, fun c hc => ?_,
    fun c hc => ?_⟩
  · rw [List.append_assoc, ← hrest, ← hfront]
  · -- the front of what is left is not touched from behind
    refine hhead c ?_
    rw [hrest, List.head?_append, Option.mem_def.mp hc]
    rfl
  · refine hlast c ?_
    rwa [trim, List.getLast?_reverse] at hc

theorem Stripped.trim_eq {cs t : List Char} (h : Stripped cs t) : trim cs = t := by
  obtain ⟨⟨v, w, rfl, hv, hw⟩, hhead, hlast⟩ := h
  cases t with
  | nil =>
    have hnone : (v ++ [] ++ w).dropWhile isBlank = [] := by
      refine List.dropWhile_eq_nil_iff.mpr fun c hc => ?_
      rw [List.append_nil, List.mem_append] at hc
      exact hc.elim (blank_iff.mp hv c) (blank_iff.mp hw c)
    rw [trim, hnone]
    rfl
  | cons c t =>
    have hfront : (v ++ (c :: t ++ w)).dropWhile isBlank = c :: t ++ w := dropWhile_blank hv hhead
    have hback : ∀ d ∈ (c :: t).reverse.head?, d.toNat ∉ whiteSpace := by
      rwa [List.head?_reverse]
    have hreverse : Blank w.reverse := fun d hd => hw d (List.mem_reverse.mp hd)
    rw [trim, List.append_assoc, hfront, List.reverse_append, dropWhile_blank hreverse hback,
      List.reverse_reverse]

/-- **Dropping blanks strips a text**, and nothing else is left of it. -/
theorem stripped_iff {cs t : List Char} : Stripped cs t ↔ trim cs = t :=
  ⟨Stripped.trim_eq, fun h => h ▸ stripped_trim cs⟩

theorem stripped_between {v t w : List Char} (hv : Blank v) (hw : Blank w)
    (ht : ∀ c ∈ t, c.toNat ∉ whiteSpace) : Stripped (v ++ t ++ w) t :=
  ⟨⟨v, w, rfl, hv, hw⟩, fun c hc => ht c (List.mem_of_mem_head? hc),
    fun c hc => ht c (List.mem_of_getLast? hc)⟩

end GoTree.Text
