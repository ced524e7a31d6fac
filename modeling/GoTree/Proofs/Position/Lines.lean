import Mathlib.Order.Basic
import Mathlib.Order.Defs.LinearOrder
import GoTree.Position.LineIndex
/-!
# Lines and the order of positions

Positions are a linear order, and the index of a text turns offsets into positions
without changing their order.

* `LineIndex.Valid`: what the index of every text has. Its first line starts at zero,
  later lines start later, and there is at most one more than there are bytes.
* `Valid.lt_lineOf_iff`: halving finds the number of the line.
* `Valid.resolve_mono`: later offsets have later positions, or the same.
-/
namespace GoTree

/-! ## The order of positions -/

namespace Position

theorem le_iff {p q : Position} : p ≤ q ↔
    p.line.toNat < q.line.toNat ∨
      (p.line.toNat = q.line.toNat ∧ p.column.toNat ≤ q.column.toNat) := by
  rw [UInt32.toNat_inj]
  exact Iff.rfl

theorem lt_iff {p q : Position} : p < q ↔
    p.line.toNat < q.line.toNat ∨
      (p.line.toNat = q.line.toNat ∧ p.column.toNat < q.column.toNat) := by
  rw [UInt32.toNat_inj]
  exact Iff.rfl

instance : LinearOrder Position where
  le_refl p := by
    rw [le_iff]
    omega
  le_trans p q r hpq hqr := by
    rw [le_iff] at *
    omega
  le_antisymm p q hpq hqp := by
    rw [le_iff] at *
    have hline : p.line = q.line := UInt32.toNat_inj.mp (by omega)
    have hcolumn : p.column = q.column := UInt32.toNat_inj.mp (by omega)
    cases p
    cases q
    simp_all
  le_total p q := by
    rw [le_iff, le_iff]
    omega
  lt_iff_le_not_ge p q := by
    rw [lt_iff, le_iff, le_iff]
    omega
  toDecidableLE := inferInstance
  toDecidableLT := inferInstance
  toDecidableEq := inferInstance

end Position

/-! ## The starts of lines -/

namespace LineIndex

/-- The starts of lines of every text. -/
structure Valid (x : LineIndex) : Prop where
  first : x.starts.getD 0 0 = 0
  size_pos : 0 < x.starts.size
  size_le : x.starts.size ≤ x.length.toNat + 1
  increasing : ∀ i j, i < j → j < x.starts.size → x.starts.getD i 0 < x.starts.getD j 0

theorem toNat_succ {i : UInt32} (h : i.toNat + 1 < UInt32.size) : (i + 1).toNat = i.toNat + 1 := by
  rw [UInt32.toNat_add, UInt32.toNat_one]
  exact Nat.mod_eq_of_lt h

/-- A line starts after each newline. -/
theorem length_startsFrom : ∀ (i : UInt32) (bs : List UInt8),
    (startsFrom i bs).length = bs.count newline
  | _, [] => rfl
  | i, b :: bs => by
    have ih := length_startsFrom (i + 1) bs
    rw [startsFrom, List.count_cons]
    by_cases h : b = newline <;> simp [h, ih]

/-- Lines start after the offset that is counted from, the later ones later. -/
theorem startsFrom_increasing : ∀ (i : UInt32) (bs : List UInt8),
    i.toNat + bs.length < UInt32.size → (i :: startsFrom i bs).Pairwise (· < ·)
  | i, [], _ => List.pairwise_singleton _ i
  | i, b :: bs, h => by
    rw [List.length_cons] at h
    have hnext := toNat_succ (i := i) (by omega)
    have ih := startsFrom_increasing (i + 1) bs (by omega)
    have hi : i < i + 1 := UInt32.lt_iff_toNat_lt.mpr (by omega)
    have hafter : ∀ a ∈ (i + 1) :: startsFrom (i + 1) bs, i < a := by
      intro a ha
      rcases List.mem_cons.mp ha with rfl | ha
      · exact hi
      · exact UInt32.lt_trans hi (List.rel_of_pairwise_cons ih ha)
    unfold startsFrom
    split
    · exact .cons hafter ih
    · exact .cons (fun a ha => hafter a (List.mem_cons_of_mem _ ha)) ih.of_cons

/-- A text that the offsets can tell apart has a valid index. -/
theorem valid_ofText {text : String} (h : text.utf8ByteSize < UInt32.size) :
    (ofText text).Valid ∧ (ofText text).length.toNat = text.utf8ByteSize := by
  have hbytes : text.toUTF8.data.toList.length = text.utf8ByteSize := rfl
  have hlength : (ofText text).length.toNat = text.utf8ByteSize := by
    change (UInt32.ofNat text.toUTF8.data.toList.length).toNat = _
    rw [hbytes, UInt32.toNat_ofNat_of_lt' h]
  have hsorted := startsFrom_increasing 0 text.toUTF8.data.toList (by rw [hbytes]; simpa using h)
  refine ⟨⟨rfl, Nat.succ_pos _, ?_, fun i j hij hj => ?_⟩, hlength⟩
  · rw [hlength, ← hbytes]
    refine Nat.succ_le_succ ?_
    rw [length_startsFrom]
    exact List.count_le_length
  · have hi : i < (ofText text).starts.size := Nat.lt_trans hij hj
    rw [Array.getD_eq_getD_getElem?, Array.getD_eq_getD_getElem?,
      Array.getElem?_eq_getElem hi, Array.getElem?_eq_getElem hj]
    exact List.pairwise_iff_getElem.mp hsorted i j hi hj hij

/-! ## The line of an offset -/

/-- Number of lines that start up to an offset. -/
def lineOf (x : LineIndex) (o : UInt32) : Nat := countUpTo x.starts o 0 x.starts.size

section
variable {x : LineIndex} {o : UInt32}

/-- Halving keeps what it looks for between its bounds: lines before `lo` start up to
the offset, lines from `hi` on after it. -/
theorem Valid.countUpTo_spec (hx : x.Valid) (lo hi : Nat) (hle : lo ≤ hi)
    (hsize : hi ≤ x.starts.size) (hlo : ∀ i < lo, x.starts.getD i 0 ≤ o)
    (hhi : ∀ i, hi ≤ i → i < x.starts.size → o < x.starts.getD i 0) :
    countUpTo x.starts o lo hi ≤ x.starts.size ∧
      ∀ i < x.starts.size, i < countUpTo x.starts o lo hi ↔ x.starts.getD i 0 ≤ o := by
  have hmono : ∀ i j, i ≤ j → j < x.starts.size → x.starts.getD i 0 ≤ x.starts.getD j 0 := by
    intro i j hij hj
    rcases Nat.lt_or_eq_of_le hij with h | rfl
    · exact UInt32.le_of_lt (hx.increasing i j h hj)
    · exact UInt32.le_refl _
  fun_induction countUpTo x.starts o lo hi with
  | case1 lo hi hlt mid hmid ih =>
    have hbound : mid < hi := by omega
    refine ih (by omega) hsize (fun i hi' => ?_) hhi
    exact UInt32.le_trans (hmono i mid (by omega) (by omega)) hmid
  | case2 lo hi hlt mid hmid ih =>
    have hbound : mid < hi := by omega
    refine ih (by omega) (by omega) hlo (fun i hi' hsize' => ?_)
    exact UInt32.lt_of_lt_of_le (UInt32.not_le.mp hmid) (hmono mid i hi' hsize')
  | case3 lo hi hlt =>
    obtain rfl : lo = hi := by omega
    refine ⟨hsize, fun i hi => ⟨hlo i, fun h => ?_⟩⟩
    by_contra hge
    exact UInt32.not_le.mpr (hhi i (by omega) hi) h

theorem Valid.lineOf_le_size (hx : x.Valid) : x.lineOf o ≤ x.starts.size :=
  (hx.countUpTo_spec 0 x.starts.size (Nat.zero_le _) (Nat.le_refl _) (by simp) (by omega)).1

/-- A line starts up to an offset if it comes before the number that halving finds. -/
theorem Valid.lt_lineOf_iff (hx : x.Valid) {i : Nat} (hi : i < x.starts.size) :
    i < x.lineOf o ↔ x.starts.getD i 0 ≤ o :=
  (hx.countUpTo_spec 0 x.starts.size (Nat.zero_le _) (Nat.le_refl _) (by simp) (by omega)).2 i hi

theorem Valid.lineOf_pos (hx : x.Valid) : 0 < x.lineOf o := by
  rw [hx.lt_lineOf_iff hx.size_pos, hx.first]
  exact UInt32.le_iff_toNat_le.mpr (Nat.zero_le _)

theorem Valid.lineOf_mono (hx : x.Valid) {a b : UInt32} (h : a ≤ b) : x.lineOf a ≤ x.lineOf b := by
  by_contra hlt
  have hsize : x.lineOf b < x.starts.size := by
    have := hx.lineOf_le_size (o := a)
    omega
  have hstart := (hx.lt_lineOf_iff (o := a) hsize).mp (by omega)
  exact absurd ((hx.lt_lineOf_iff hsize).mpr (UInt32.le_trans hstart h)) (Nat.lt_irrefl _)

/-- The start of the line of an offset. -/
def startOf (x : LineIndex) (o : UInt32) : UInt32 := x.starts.getD (x.lineOf o - 1) 0

theorem Valid.startOf_le (hx : x.Valid) : x.startOf o ≤ o := by
  have hpos := hx.lineOf_pos (o := o)
  have hsize := hx.lineOf_le_size (o := o)
  exact (hx.lt_lineOf_iff (by omega)).mp (by omega)

/-- The first offset is on the first line, whatever the text. -/
theorem Valid.lineOf_zero (hx : x.Valid) : x.lineOf 0 = 1 := by
  have hpos := hx.lineOf_pos (o := 0)
  have hsize := hx.lineOf_le_size (o := 0)
  by_contra hne
  have hsecond : x.starts.getD 1 0 ≤ 0 := (hx.lt_lineOf_iff (by omega)).mp (by omega)
  have hfirst := hx.increasing 0 1 (by omega) (by omega)
  rw [hx.first] at hfirst
  exact UInt32.not_le.mpr hfirst hsecond

/-- An offset in the text, or its end. -/
def clamp (x : LineIndex) (o : UInt32) : UInt32 := if o ≤ x.length then o else x.length

theorem toNat_clamp (x : LineIndex) (o : UInt32) :
    (x.clamp o).toNat = min o.toNat x.length.toNat := by
  unfold clamp
  split
  · rename_i h
    exact (Nat.min_eq_left (UInt32.le_iff_toNat_le.mp h)).symm
  · rename_i h
    exact (Nat.min_eq_right (Nat.le_of_lt (UInt32.lt_iff_toNat_lt.mp (UInt32.not_le.mp h)))).symm

theorem resolve_eq (x : LineIndex) (o : UInt32) :
    x.resolve o = ⟨UInt32.ofNat (x.lineOf (x.clamp o)), x.clamp o - x.startOf (x.clamp o) + 1⟩ :=
  rfl

/-- The first offset has the first position. -/
theorem Valid.resolve_zero (hx : x.Valid) : x.resolve 0 = ⟨1, 1⟩ := by
  have hclamp : x.clamp 0 = 0 := by
    have := x.toNat_clamp 0
    exact UInt32.toNat_inj.mp (by simpa using this)
  rw [resolve_eq, hclamp, startOf, hx.lineOf_zero, hx.first]
  rfl

/-- In a text short enough, neither line nor column goes over. -/
theorem Valid.toNat_resolve (hx : x.Valid) (hlen : x.length.toNat < 4294967295) :
    (x.resolve o).line.toNat = x.lineOf (x.clamp o) ∧
      (x.resolve o).column.toNat = (x.clamp o).toNat - (x.startOf (x.clamp o)).toNat + 1 := by
  have hline := hx.lineOf_le_size (o := x.clamp o)
  have hsize := hx.size_le
  have hclamp := x.toNat_clamp o
  rw [resolve_eq]
  constructor
  · exact UInt32.toNat_ofNat_of_lt' (by simp only [UInt32.size]; omega)
  · rw [UInt32.toNat_add, UInt32.toNat_sub_of_le _ _ hx.startOf_le, UInt32.toNat_one,
      Nat.mod_eq_of_lt]
    omega

/-- **Later offsets have later positions**, or the same. -/
theorem Valid.resolve_mono (hx : x.Valid) (hlen : x.length.toNat < 4294967295) {a b : UInt32}
    (h : a ≤ b) : x.resolve a ≤ x.resolve b := by
  have hab : x.clamp a ≤ x.clamp b := by
    rw [UInt32.le_iff_toNat_le, toNat_clamp, toNat_clamp]
    have := UInt32.le_iff_toNat_le.mp h
    omega
  obtain ⟨hla, hca⟩ := hx.toNat_resolve (o := a) hlen
  obtain ⟨hlb, hcb⟩ := hx.toNat_resolve (o := b) hlen
  rw [Position.le_iff, hla, hlb, hca, hcb]
  rcases Nat.lt_or_eq_of_le (hx.lineOf_mono hab) with hlt | heq
  · exact .inl hlt
  · -- on one line, columns are counted from the same start
    refine .inr ⟨heq, ?_⟩
    have hstart : x.startOf (x.clamp a) = x.startOf (x.clamp b) := by rw [startOf, startOf, heq]
    have := UInt32.le_iff_toNat_le.mp hab
    rw [hstart]
    omega

theorem resolve_ofText_mono {text : String} (hlen : text.utf8ByteSize < 4294967295)
    {a b : UInt32} (h : a ≤ b) : (ofText text).resolve a ≤ (ofText text).resolve b := by
  obtain ⟨hx, hlength⟩ := valid_ofText (Nat.lt_succ_of_lt hlen)
  exact hx.resolve_mono (by omega) h

end
end LineIndex
end GoTree
