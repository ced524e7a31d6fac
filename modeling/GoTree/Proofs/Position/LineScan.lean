import Mathlib.Data.List.Induction
import Mathlib.Data.List.TakeWhile
import GoTree.Proofs.Position.Lines
/-!
# The index of lines is a scan of the bytes

The position of an offset is found by halving the starts of lines, which were noted when
the text was indexed. Here it is set beside a scan of the bytes before the offset: the
newlines among them give the line, and the bytes since the last newline the column.

* `startsFrom_append`, `toNat_getLast_startsFrom`: the starts of lines, read off the bytes.
* `lineOf_ofText`, `toNat_startOf_ofText`: the lines that start up to an offset are the
  lines of the text cut there.
* `resolve_eq_scan`: positions are what the scan finds.
-/
namespace GoTree.LineIndex

/-! ## Bytes since the last newline -/

/-- Number of bytes since the last newline; all bytes if there is none. -/
def sinceNewline (bytes : List UInt8) : Nat := (bytes.reverse.takeWhile (· ≠ newline)).length

theorem sinceNewline_concat (bs : List UInt8) (b : UInt8) :
    sinceNewline (bs ++ [b]) = if b = newline then 0 else sinceNewline bs + 1 := by
  by_cases h : b = newline <;> simp [sinceNewline, h]

theorem sinceNewline_of_notMem {bs : List UInt8} (h : newline ∉ bs) :
    sinceNewline bs = bs.length := by
  have hall : ∀ b ∈ bs.reverse, decide (b ≠ newline) = true := by
    intro b hb
    exact decide_eq_true fun heq => h (heq ▸ List.mem_reverse.mp hb)
  rw [sinceNewline, List.takeWhile_eq_self_iff.mpr hall, List.length_reverse]

/-! ## Starts of lines -/

theorem startsFrom_append : ∀ (as bs : List UInt8) (i : UInt32),
    startsFrom i (as ++ bs) = startsFrom i as ++ startsFrom (i + UInt32.ofNat as.length) bs
  | [], bs, i => by simp [startsFrom]
  | a :: as, bs, i => by
    have hnext : i + UInt32.ofNat (as.length + 1) = i + 1 + UInt32.ofNat as.length := by
      rw [UInt32.ofNat_add, UInt32.add_comm (UInt32.ofNat as.length), ← UInt32.add_assoc]
      rfl
    have ih := startsFrom_append as bs (i + 1)
    rw [List.cons_append, startsFrom, startsFrom, List.length_cons, hnext, ih]
    split <;> rfl

/-- The last line starts right after the last newline. -/
theorem toNat_getLast_startsFrom (i : UInt32) (bs : List UInt8)
    (h : i.toNat + bs.length < UInt32.size) :
    ((startsFrom i bs).getLast?.getD i).toNat + sinceNewline bs = i.toNat + bs.length := by
  -- bytes are added at the end, since that is where both counts look
  induction bs using List.reverseRecOn with
  | nil => rfl
  | append_singleton bs b ih =>
    rw [List.length_append, List.length_singleton] at h ⊢
    rw [startsFrom_append, sinceNewline_concat, startsFrom, startsFrom]
    by_cases hb : b = newline
    · have hend : (i + UInt32.ofNat bs.length).toNat = i.toNat + bs.length := by
        rw [UInt32.toNat_add, UInt32.toNat_ofNat_of_lt' (by omega)]
        exact Nat.mod_eq_of_lt (by simp only [UInt32.size] at h; omega)
      rw [if_pos hb, if_pos hb, List.getLast?_concat, Option.getD_some, toNat_succ (by omega), hend]
      omega
    · have := ih (by omega)
      rw [if_neg hb, if_neg hb, List.append_nil]
      omega

/-- Lines start no later than the end of the text. -/
theorem toNat_le_of_mem_startsFrom {a : UInt32} : ∀ {i : UInt32} {bs : List UInt8},
    i.toNat + bs.length < UInt32.size → a ∈ startsFrom i bs → a.toNat ≤ i.toNat + bs.length
  | _, [], _, ha => by cases ha
  | i, b :: bs, h, ha => by
    rw [List.length_cons] at h ⊢
    have hnext := toNat_succ (i := i) (by omega)
    have ih : a ∈ startsFrom (i + 1) bs → a.toNat ≤ (i + 1).toNat + bs.length :=
      toNat_le_of_mem_startsFrom (by omega)
    rw [startsFrom] at ha
    split at ha
    · rcases List.mem_cons.mp ha with rfl | ha
      · omega
      · have := ih ha
        omega
    · have := ih ha
      omega

/-! ## Lines up to an offset -/

/-- Halving finds the place where the starts of lines pass an offset. -/
theorem Valid.lineOf_eq_length {x : LineIndex} (hx : x.Valid) {o : UInt32} {as bs : List UInt32}
    (hsplit : x.starts.toList = as ++ bs) (has : ∀ a ∈ as, a ≤ o) (hbs : ∀ b ∈ bs, o < b) :
    x.lineOf o = as.length := by
  have hsize : x.starts.size = as.length + bs.length := by
    rw [← Array.length_toList, hsplit, List.length_append]
  have hget : ∀ i, x.starts.getD i 0 = ((as ++ bs)[i]?).getD 0 := by
    intro i
    rw [Array.getD_eq_getD_getElem?, ← Array.getElem?_toList, hsplit]
  rcases Nat.lt_trichotomy (x.lineOf o) as.length with hlt | heq | hgt
  · -- the line that would be the first one after the offset starts before it
    have hnot := (hx.lt_lineOf_iff (o := o) (by omega)).not.mp (Nat.lt_irrefl (x.lineOf o))
    rw [hget, List.getElem?_append_left hlt, List.getElem?_eq_getElem hlt] at hnot
    exact absurd (has _ (List.getElem_mem hlt)) hnot
  · exact heq
  · have hle := hx.lineOf_le_size (o := o)
    have hlt : 0 < bs.length := by omega
    have hstart := (hx.lt_lineOf_iff (o := o) (by omega)).mp hgt
    rw [hget, List.getElem?_append_right (Nat.le_refl _), Nat.sub_self,
      List.getElem?_eq_getElem hlt] at hstart
    exact absurd hstart (UInt32.not_le.mpr (hbs _ (List.getElem_mem hlt)))

section
variable {text : String} {o : UInt32}

/-- The bytes of a text before an offset. -/
def bytesBefore (text : String) (o : UInt32) : List UInt8 := text.toUTF8.data.toList.take o.toNat

theorem length_bytesBefore (h : o.toNat ≤ text.utf8ByteSize) :
    (bytesBefore text o).length = o.toNat := by
  have hbytes : text.toUTF8.data.toList.length = text.utf8ByteSize := rfl
  rw [bytesBefore, List.length_take, hbytes, Nat.min_eq_left h]

/-- The lines of a text are those of the part before an offset, and those of the rest. -/
theorem starts_ofText (h : o.toNat ≤ text.utf8ByteSize) :
    (ofText text).starts.toList = (0 :: startsFrom 0 (bytesBefore text o)) ++
      startsFrom o (text.toUTF8.data.toList.drop o.toNat) := by
  have happend := startsFrom_append (bytesBefore text o) (text.toUTF8.data.toList.drop o.toNat) 0
  rw [bytesBefore, List.take_append_drop, ← bytesBefore, length_bytesBefore h, UInt32.ofNat_toNat,
    UInt32.zero_add] at happend
  rw [List.cons_append, ← happend]
  rfl

/-- The lines that start up to an offset are the lines of the text cut there. -/
theorem lineOf_ofText (hlen : text.utf8ByteSize < UInt32.size) (h : o.toNat ≤ text.utf8ByteSize) :
    (ofText text).lineOf o = (0 :: startsFrom 0 (bytesBefore text o)).length := by
  have hbefore := length_bytesBefore h
  have hrest : (text.toUTF8.data.toList.drop o.toNat).length = text.utf8ByteSize - o.toNat :=
    List.length_drop
  refine (valid_ofText hlen).1.lineOf_eq_length (starts_ofText h) (fun a ha => ?_) fun b hb => ?_
  · rw [UInt32.le_iff_toNat_le]
    rcases List.mem_cons.mp ha with rfl | ha
    · exact Nat.zero_le _
    · have := toNat_le_of_mem_startsFrom (by rw [UInt32.toNat_zero, hbefore]; omega) ha
      rw [UInt32.toNat_zero] at this
      omega
  · exact List.rel_of_pairwise_cons (startsFrom_increasing o _ (by rw [hrest]; omega)) hb

/-- The line of an offset starts right after the last newline before it. -/
theorem toNat_startOf_ofText (hlen : text.utf8ByteSize < UInt32.size)
    (h : o.toNat ≤ text.utf8ByteSize) :
    ((ofText text).startOf o).toNat + sinceNewline (bytesBefore text o) = o.toNat := by
  have hbefore := length_bytesBefore h
  have hlast := toNat_getLast_startsFrom 0 (bytesBefore text o)
    (by rw [UInt32.toNat_zero, hbefore]; omega)
  have hstart : (ofText text).startOf o = (startsFrom 0 (bytesBefore text o)).getLast?.getD 0 := by
    rw [startOf, Array.getD_eq_getD_getElem?, ← Array.getElem?_toList, starts_ofText h,
      lineOf_ofText hlen h, List.getElem?_append_left (by simp), ← List.getLast?_eq_getElem?,
      List.getLast?_cons, Option.getD_some]
  rw [hstart, hlast, hbefore, UInt32.toNat_zero, Nat.zero_add]

/-- In a text short enough, positions are found by a scan up to the offset. -/
theorem toNat_resolve_ofText (hlen : text.utf8ByteSize < 4294967295) (o : UInt32) :
    ((ofText text).resolve o).line.toNat =
        1 + (bytesBefore text ((ofText text).clamp o)).count newline ∧
      ((ofText text).resolve o).column.toNat =
        1 + sinceNewline (bytesBefore text ((ofText text).clamp o)) := by
  have hsize : text.utf8ByteSize < UInt32.size := Nat.lt_succ_of_lt hlen
  obtain ⟨hx, hlength⟩ := valid_ofText hsize
  have hin : ((ofText text).clamp o).toNat ≤ text.utf8ByteSize := by
    rw [toNat_clamp, hlength]
    exact Nat.min_le_right _ _
  obtain ⟨hline, hcolumn⟩ := hx.toNat_resolve (o := o) (by omega)
  have hstart := toNat_startOf_ofText hsize hin
  constructor
  · rw [hline, lineOf_ofText hsize hin, List.length_cons, length_startsFrom, Nat.add_comm]
  · omega

/-- **Positions are what a scan finds.** In a text shorter than `2 ^ 32 - 1` bytes, take any
offset, or the end of the text if the offset lies past it. The newlines before it give the
line, and the bytes since the last of them the column; with no newline these are all bytes
before it. The start of the line is read inside the index. -/
theorem resolve_eq_scan (hlen : text.utf8ByteSize < 4294967295) (o : UInt32) :
    let x := ofText text
    let k := min o.toNat text.utf8ByteSize
    let before := text.toUTF8.data.toList.take k
    before.length = k ∧
    (x.resolve o).line.toNat = 1 + before.count newline ∧
    (x.resolve o).column.toNat = 1 + sinceNewline before ∧
    (newline ∉ before → (x.resolve o).column.toNat = k + 1) ∧
    0 < x.lineOf (x.clamp o) ∧
    x.starts[x.lineOf (x.clamp o) - 1]? = some (x.startOf (x.clamp o)) := by
  intro x k before
  obtain ⟨hx, hlength⟩ := valid_ofText (Nat.lt_succ_of_lt hlen)
  have hclamp : (x.clamp o).toNat = k := by rw [toNat_clamp, hlength]
  have hbefore : bytesBefore text (x.clamp o) = before := by rw [bytesBefore, hclamp]
  have hk : before.length = k := by
    rw [← hbefore, length_bytesBefore (hclamp ▸ Nat.min_le_right _ _), hclamp]
  obtain ⟨hline, hcolumn⟩ := toNat_resolve_ofText hlen o
  rw [hbefore] at hline hcolumn
  have hpos : 0 < x.lineOf (x.clamp o) := hx.lineOf_pos
  have hle : x.lineOf (x.clamp o) ≤ x.starts.size := hx.lineOf_le_size
  refine ⟨hk, hline, hcolumn, fun hnone => ?_, hpos, ?_⟩
  · rw [hcolumn, sinceNewline_of_notMem hnone, hk, Nat.add_comm]
  · rw [startOf, Array.getD_eq_getD_getElem?, Array.getElem?_eq_getElem (by omega)]
    rfl

end

/-- The first line has one character of two bytes and a newline, the second a newline only.
The offset 3 is that of the second newline; the offset 99 stands for the end of the text. -/
theorem scan_blankLine :
    let text := "é\n\nab"
    let x := ofText text
    text.utf8ByteSize < 4294967295 ∧
      (x.resolve 3).line.toNat = 2 ∧ (x.resolve 3).column.toNat = 1 ∧
      (x.resolve 99).line.toNat = 3 ∧ (x.resolve 99).column.toNat = 3 := by
  intro text x
  have hlen : text.utf8ByteSize < 4294967295 := by decide
  obtain ⟨-, hline, hcolumn, -⟩ := resolve_eq_scan hlen 3
  obtain ⟨-, hline', hcolumn', -⟩ := resolve_eq_scan hlen 99
  refine ⟨hlen, hline.trans ?_, hcolumn.trans ?_, hline'.trans ?_, hcolumn'.trans ?_⟩
  all_goals decide +kernel

end GoTree.LineIndex
