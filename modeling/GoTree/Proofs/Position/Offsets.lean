import GoTree.Proofs.Position.LineScan
/-!
# Offsets and positions are inverse

An offset is turned into a position by halving the starts of lines, a position into an
offset by looking its line up. The two rules do not mention each other: one cuts at the
end of the text and counts lines, the other reads where the next line starts. They undo
each other all the same, so positions of a text are its offsets in the same order.

* `Bounded`: the index is valid, and no line starts past the end of the text.
* `Valid.lineOf_eq_iff`: the line of an offset has started and the next one has not.
* `Bounded.lt_lineEnd_iff`: what lies before the end of a line.
* `Bounded.offset?_eq_some_iff`: a position has an offset exactly if it is the position of
  that offset.
* `offset_resolve_inverse`: the order isomorphism, for every text.
-/
namespace GoTree.LineIndex

/-- The index of a text, which also knows that its lines start inside the text. -/
structure Bounded (x : LineIndex) : Prop extends Valid x where
  start_le : ∀ i < x.starts.size, x.starts.getD i 0 ≤ x.length

theorem bounded_ofText {text : String} (h : text.utf8ByteSize < UInt32.size) :
    (ofText text).Bounded := by
  obtain ⟨hx, hlength⟩ := valid_ofText h
  refine ⟨hx, fun i hi => ?_⟩
  rw [Array.getD_eq_getD_getElem?, Array.getElem?_eq_getElem hi, Option.getD_some,
    UInt32.le_iff_toNat_le, hlength]
  have hmem : (ofText text).starts[i] ∈ 0 :: startsFrom 0 text.toUTF8.data.toList :=
    List.getElem_mem (l := 0 :: startsFrom 0 text.toUTF8.data.toList) hi
  rcases List.mem_cons.mp hmem with hzero | hlater
  · rw [hzero]
    exact Nat.zero_le _
  · have hbytes : text.toUTF8.data.toList.length = text.utf8ByteSize := rfl
    have := toNat_le_of_mem_startsFrom (by rw [UInt32.toNat_zero, hbytes]; omega) hlater
    rwa [UInt32.toNat_zero, hbytes, Nat.zero_add] at this

section
variable {x : LineIndex} {o : UInt32} {p : Position}

/-! ## Lines -/

theorem eq_zero_iff_toNat {w : UInt32} : w = 0 ↔ w.toNat = 0 := by
  rw [← UInt32.toNat_inj, UInt32.toNat_zero]

/-- Lines are counted from one up to their number. -/
theorem lineStart?_eq_some_iff {line start : UInt32} : x.lineStart? line = some start ↔
    (0 < line.toNat ∧ line.toNat ≤ x.starts.size) ∧ x.starts.getD (line.toNat - 1) 0 = start := by
  unfold lineStart?
  split
  · rename_i h
    simp [eq_zero_iff_toNat.mp h]
  · rename_i h
    rw [eq_zero_iff_toNat] at h
    rw [Array.getD_eq_getD_getElem?, Array.getElem?_eq_some_iff]
    constructor
    · rintro ⟨hlt, rfl⟩
      rw [Array.getElem?_eq_getElem hlt]
      exact ⟨by omega, rfl⟩
    · rintro ⟨hin, rfl⟩
      have hlt : line.toNat - 1 < x.starts.size := by omega
      rw [Array.getElem?_eq_getElem hlt]
      exact ⟨hlt, rfl⟩

/-- An offset is on a line that has started by then, while the next one has not. -/
theorem Valid.lineOf_eq_iff (hx : x.Valid) {line : Nat} (hpos : 0 < line)
    (hsize : line ≤ x.starts.size) : x.lineOf o = line ↔
      x.starts.getD (line - 1) 0 ≤ o ∧ (line < x.starts.size → o < x.starts.getD line 0) := by
  have hstarted := hx.lt_lineOf_iff (o := o) (i := line - 1) (by omega)
  have hle := hx.lineOf_le_size (o := o)
  constructor
  · rintro rfl
    refine ⟨hstarted.mp (by omega), fun hlt => ?_⟩
    exact UInt32.not_le.mp ((hx.lt_lineOf_iff hlt).not.mp (Nat.lt_irrefl _))
  · rintro ⟨hstart, hnext⟩
    have hge := hstarted.mpr hstart
    by_contra hne
    have hlt : line < x.starts.size := by omega
    exact UInt32.not_le.mpr (hnext hlt) ((hx.lt_lineOf_iff hlt).mp (by omega))

theorem toNat_past (hlen : x.length.toNat < 4294967295) : x.past.toNat = x.length.toNat + 1 := by
  have hne : x.length ≠ 4294967295 := by
    intro h
    rw [h] at hlen
    exact absurd hlen (by decide)
  rw [past, if_neg hne, toNat_succ (Nat.succ_lt_succ hlen)]

/-- A line ends where the next one starts, the last one with the end of the text. -/
theorem Bounded.lt_lineEnd_iff (hx : x.Bounded) (hlen : x.length.toNat < 4294967295)
    {line : UInt32} (hsize : line.toNat ≤ x.starts.size) :
    o < (x.lineStart? (line + 1)).getD x.past ↔
      o ≤ x.length ∧ (line.toNat < x.starts.size → o < x.starts.getD line.toNat 0) := by
  have hlines := hx.size_le
  rcases Nat.lt_or_eq_of_le hsize with hlt | heq
  · have hnext : (line + 1).toNat = line.toNat + 1 := toNat_succ (by simp only [UInt32.size]; omega)
    have hstart : x.lineStart? (line + 1) = some (x.starts.getD line.toNat 0) :=
      lineStart?_eq_some_iff.mpr ⟨by omega, by rw [hnext, Nat.add_sub_cancel]⟩
    rw [hstart, Option.getD_some]
    have hin := hx.start_le line.toNat hlt
    exact ⟨fun h => ⟨UInt32.le_trans (UInt32.le_of_lt h) hin, fun _ => h⟩, fun h => h.2 hlt⟩
  · -- past the last line there is none, even if its number does not fit
    have hnone : x.lineStart? (line + 1) = none := by
      refine Option.eq_none_iff_forall_ne_some.mpr fun start hstart => ?_
      obtain ⟨⟨hpos, hle⟩, -⟩ := lineStart?_eq_some_iff.mp hstart
      rw [UInt32.toNat_add, UInt32.toNat_one] at hpos hle
      omega
    rw [hnone, Option.getD_none, UInt32.lt_iff_toNat_lt, toNat_past hlen, UInt32.le_iff_toNat_le]
    exact ⟨fun h => ⟨Nat.le_of_lt_succ h, fun hlt => absurd hlt (by omega)⟩,
      fun h => Nat.lt_succ_of_le h.1⟩

/-! ## Offsets of positions -/

theorem addOffset?_eq_some_iff {a b c : UInt32} :
    addOffset? a b = some c ↔ a.toNat + b.toNat = c.toNat := by
  unfold addOffset?
  split
  · rename_i h
    rw [Option.some.injEq, ← UInt32.toNat_inj, UInt32.toNat_add, Nat.mod_eq_of_lt h]
  · rename_i h
    have hc : c.toNat < UInt32.size := c.toNat_lt_size
    exact ⟨by simp, by omega⟩

/-- A column is counted from one at the start of its line. -/
theorem columnOffset_eq_some_iff {start column : UInt32} :
    (if column = 0 then none else addOffset? start (column - 1)) = some o ↔
      0 < column.toNat ∧ start.toNat + column.toNat = o.toNat + 1 := by
  rw [Option.ite_none_left_eq_some, eq_zero_iff_toNat, addOffset?_eq_some_iff]
  constructor
  · rintro ⟨hne, hsum⟩
    have hle : (1 : UInt32) ≤ column := UInt32.le_iff_toNat_le.mpr (Nat.one_le_iff_ne_zero.mpr hne)
    rw [UInt32.toNat_sub_of_le _ _ hle, UInt32.toNat_one] at hsum
    omega
  · rintro ⟨hpos, hsum⟩
    have hle : (1 : UInt32) ≤ column := UInt32.le_iff_toNat_le.mpr hpos
    rw [UInt32.toNat_sub_of_le _ _ hle, UInt32.toNat_one]
    omega

theorem offset?_eq (x : LineIndex) (p : Position) : x.offset? p =
    (x.lineStart? p.line).bind fun start =>
      (if p.column = 0 then none else addOffset? start (p.column - 1)).bind fun o =>
        if o < (x.lineStart? (p.line + 1)).getD x.past then some o else none := by
  unfold offset?
  by_cases h : p.column = 0
  · simp only [if_pos h]
    rfl
  · simp only [if_neg h]
    rfl

/-- The offset of a position lies before the end of its line, by its column after the start. -/
theorem offset?_eq_some : x.offset? p = some o ↔
    ∃ start, x.lineStart? p.line = some start ∧
      (0 < p.column.toNat ∧ start.toNat + p.column.toNat = o.toNat + 1) ∧
      o < (x.lineStart? (p.line + 1)).getD x.past := by
  simp only [offset?_eq, Option.bind_eq_some_iff, columnOffset_eq_some_iff,
    Option.ite_none_right_eq_some, Option.some.injEq]
  constructor
  · rintro ⟨start, hstart, _, hcolumn, hend, rfl⟩
    exact ⟨start, hstart, hcolumn, hend⟩
  · rintro ⟨start, hstart, hcolumn, hend⟩
    exact ⟨start, hstart, o, hcolumn, hend, rfl⟩

/-! ## Positions of offsets -/

theorem clamp_of_le (h : o ≤ x.length) : x.clamp o = o := if_pos h

theorem clamp_le (x : LineIndex) (o : UInt32) : x.clamp o ≤ x.length := by
  rw [UInt32.le_iff_toNat_le, toNat_clamp]
  exact Nat.min_le_right _ _

theorem resolve_clamp (x : LineIndex) (o : UInt32) : x.resolve (x.clamp o) = x.resolve o := by
  rw [resolve_eq, resolve_eq, clamp_of_le (x.clamp_le o)]

/-- The position of an offset in the text, by the line that the offset is on. -/
theorem Valid.resolve_eq_iff (hx : x.Valid) (hlen : x.length.toNat < 4294967295)
    (ho : o ≤ x.length) : x.resolve o = p ↔
      x.lineOf o = p.line.toNat ∧ (x.startOf o).toNat + p.column.toNat = o.toNat + 1 := by
  obtain ⟨hline, hcolumn⟩ := hx.toNat_resolve (o := o) hlen
  rw [clamp_of_le ho] at hline hcolumn
  have hstart := UInt32.le_iff_toNat_le.mp (hx.startOf_le (o := o))
  constructor
  · rintro rfl
    exact ⟨hline.symm, by omega⟩
  · rintro ⟨hsame, hsum⟩
    have hlines : (x.resolve o).line = p.line := UInt32.toNat_inj.mp (hline.trans hsame)
    have hcolumns : (x.resolve o).column = p.column := UInt32.toNat_inj.mp (by omega)
    exact congrArg₂ Position.mk hlines hcolumns

/-- **A position has an offset exactly if it is the position of that offset**, and the
offset is in the text or at its end. -/
theorem Bounded.offset?_eq_some_iff (hx : x.Bounded) (hlen : x.length.toNat < 4294967295) :
    x.offset? p = some o ↔ o ≤ x.length ∧ x.resolve o = p := by
  rw [offset?_eq_some]
  constructor
  · rintro ⟨start, hstart, ⟨hpos, hcolumn⟩, hend⟩
    obtain ⟨⟨hfirst, hlast⟩, rfl⟩ := lineStart?_eq_some_iff.mp hstart
    obtain ⟨ho, hnext⟩ := (hx.lt_lineEnd_iff hlen hlast).mp hend
    have hstarted : x.starts.getD (p.line.toNat - 1) 0 ≤ o := UInt32.le_iff_toNat_le.mpr (by omega)
    have hline := (hx.lineOf_eq_iff hfirst hlast).mpr ⟨hstarted, hnext⟩
    refine ⟨ho, (hx.resolve_eq_iff hlen ho).mpr ⟨hline, ?_⟩⟩
    rw [startOf, hline, hcolumn]
  · rintro ⟨ho, hp⟩
    obtain ⟨hline, hcolumn⟩ := (hx.resolve_eq_iff hlen ho).mp hp
    have hfirst : 0 < p.line.toNat := hline ▸ hx.lineOf_pos
    have hlast : p.line.toNat ≤ x.starts.size := hline ▸ hx.lineOf_le_size
    have hstart := UInt32.le_iff_toNat_le.mp (hx.startOf_le (o := o))
    refine ⟨x.startOf o, lineStart?_eq_some_iff.mpr ⟨⟨hfirst, hlast⟩, by rw [startOf, hline]⟩,
      ⟨by omega, hcolumn⟩, (hx.lt_lineEnd_iff hlen hlast).mpr ⟨ho, ?_⟩⟩
    exact ((hx.lineOf_eq_iff hfirst hlast).mp hline).2

theorem Bounded.offset?_resolve (hx : x.Bounded) (hlen : x.length.toNat < 4294967295) :
    x.offset? (x.resolve o) = some (x.clamp o) :=
  (hx.offset?_eq_some_iff hlen).mpr ⟨x.clamp_le o, x.resolve_clamp o⟩

/-- Two offsets in the text have two positions, in their order. -/
theorem Bounded.resolve_lt (hx : x.Bounded) (hlen : x.length.toNat < 4294967295) {a b : UInt32}
    (hab : a < b) (hb : b ≤ x.length) : x.resolve a < x.resolve b := by
  have ha : a ≤ x.length := UInt32.le_trans (UInt32.le_of_lt hab) hb
  refine lt_of_le_of_ne (hx.resolve_mono hlen (UInt32.le_of_lt hab)) fun heq => ?_
  have hsame : some a = some b := by
    rw [← clamp_of_le ha, ← clamp_of_le hb, ← hx.offset?_resolve hlen, heq, hx.offset?_resolve hlen]
  exact UInt32.ne_of_lt hab (Option.some.inj hsame)

/-- The start of a line is the offset of its first column. -/
theorem Bounded.offset?_one (hx : x.Bounded) (hlen : x.length.toNat < 4294967295)
    {line start : UInt32} (h : x.lineStart? line = some start) :
    x.offset? ⟨line, 1⟩ = some start := by
  obtain ⟨⟨hfirst, hlast⟩, hstart⟩ := lineStart?_eq_some_iff.mp h
  refine offset?_eq_some.mpr ⟨start, h, ⟨Nat.one_pos, rfl⟩,
    (hx.lt_lineEnd_iff hlen hlast).mpr ⟨?_, fun hlt => ?_⟩⟩
  · rw [← hstart]
    exact hx.start_le _ (by omega)
  · rw [← hstart]
    exact hx.increasing _ _ (by omega) hlt

end

/-! ## Texts -/

/-- **Offsets and positions are inverse.** In a text of fewer than `2 ^ 32 - 2` bytes, each
offset is found again from its position, offsets past the end as the end, and a position
that has an offset is the position of it. Later offsets in the text have later positions,
and all offsets from the end on the same one. The lines are those from one up to their
number, and each starts at the offset of its first column. -/
theorem offset_resolve_inverse {text : String} (hlen : text.utf8ByteSize < 4294967294) :
    let x := ofText text
    let n := text.utf8ByteSize
    (∀ o : UInt32, x.offset? (x.resolve o) = some (UInt32.ofNat (min o.toNat n))) ∧
    (∀ (p : Position) (o : UInt32), x.offset? p = some o → o.toNat ≤ n ∧ x.resolve o = p) ∧
    (∀ a b : UInt32, a < b → b.toNat ≤ n → x.resolve a < x.resolve b) ∧
    (∀ o : UInt32, n ≤ o.toNat → x.resolve o = x.resolve (UInt32.ofNat n)) ∧
    (∀ line : UInt32, (x.lineStart? line).isSome ↔
      1 ≤ line.toNat ∧ line.toNat ≤ x.lineCount) ∧
    (∀ line : UInt32, (x.lineStart? line).isSome →
      x.lineStart? line = x.offset? ⟨line, 1⟩) := by
  intro x n
  have hword : n < UInt32.size := Nat.lt_trans hlen (by decide)
  have hx : x.Bounded := bounded_ofText hword
  have hlength : x.length.toNat = n := (valid_ofText hword).2
  have hfits : x.length.toNat < 4294967295 := by omega
  have hclamp : ∀ o, x.clamp o = UInt32.ofNat (min o.toNat n) := by
    intro o
    rw [← hlength, ← toNat_clamp, UInt32.ofNat_toNat]
  refine ⟨fun o => ?_, fun p o h => ?_, fun a b hab hb => ?_, fun o ho => ?_, fun line => ?_,
    fun line h => ?_⟩
  · rw [hx.offset?_resolve hfits, hclamp]
  · obtain ⟨ho, hp⟩ := (hx.offset?_eq_some_iff hfits).mp h
    exact ⟨hlength ▸ UInt32.le_iff_toNat_le.mp ho, hp⟩
  · exact hx.resolve_lt hfits hab (UInt32.le_iff_toNat_le.mpr (hlength ▸ hb))
  · rw [← x.resolve_clamp o, hclamp, Nat.min_eq_right ho]
  · rw [Option.isSome_iff_exists]
    exact ⟨fun ⟨_, h⟩ => (lineStart?_eq_some_iff.mp h).1,
      fun h => ⟨_, lineStart?_eq_some_iff.mpr ⟨h, rfl⟩⟩⟩
  · obtain ⟨start, hstart⟩ := Option.isSome_iff_exists.mp h
    rw [hstart, hx.offset?_one hfits hstart]

/-- The first line has one character of two bytes and a newline, the second a newline only.
The offset 3 is that of the second newline, the offset 6 the end of the text. -/
theorem inverse_blankLine :
    let text := "é\n\nab"
    let x := ofText text
    text.utf8ByteSize < 4294967294 ∧
      x.offset? (x.resolve 3) = some 3 ∧ x.offset? (x.resolve 99) = some 6 ∧
      x.offset? ⟨2, 1⟩ = some 3 ∧ x.resolve 3 = ⟨2, 1⟩ ∧ x.resolve 3 < x.resolve 4 ∧
      x.resolve 99 = x.resolve 6 ∧ (x.lineStart? 3).isSome ∧ x.lineStart? 3 = x.offset? ⟨3, 1⟩ := by
  intro text x
  have hlen : text.utf8ByteSize < 4294967294 := by decide
  obtain ⟨hback, hforth, hlt, hconst, hlines, hfirst⟩ := offset_resolve_inverse hlen
  have hsecond : x.offset? ⟨2, 1⟩ = some 3 := by
    rw [← hfirst 2 ((hlines 2).mpr (by decide))]
    decide
  have hthird : (x.lineStart? 3).isSome := (hlines 3).mpr (by decide)
  exact ⟨hlen, hback 3, hback 99, hsecond, (hforth _ _ hsecond).2, hlt 3 4 (by decide) (by decide),
    hconst 99 (by decide), hthird, hfirst 3 hthird⟩

end GoTree.LineIndex
