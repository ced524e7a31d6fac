import GoTree.Proofs.Position.Offsets
/-!
# Where the words of an index run out

Offsets, lines and columns are words, and a text may have as many bytes as the greatest
word says. The index takes three sums and one difference without a check: the offset after
a newline, the column of an offset, and the line after a given one. Here it is said for
every such text which of them fit. The starts of lines always do. The other two fail for
the longest texts only, and for these the end of the text has no position that leads back.

* `map_toNat_startsFrom`: the starts of lines are the offsets after newlines, as numbers.
* `columns_fit_iff`, `lines_fit_iff`: when the sums fit.
* `offset?_end_iff`: when the end of the text is found again.
* `word_limits`: all of it, for every text that has an index.
* `resolve_longestLine`, `longestLine_overflows`: texts of one line for which they run out.
-/
namespace GoTree.LineIndex

/-! ## Starts of lines -/

/-- No start of a line is cut off: as numbers, they come one after each newline. -/
theorem map_toNat_startsFrom : ∀ (i : UInt32) (bs : List UInt8),
    i.toNat + bs.length < UInt32.size →
    (startsFrom i bs).map UInt32.toNat =
      (bs.zipIdx i.toNat).filterMap fun b => if b.1 = newline then some (b.2 + 1) else none
  | _, [], _ => rfl
  | i, b :: bs, h => by
    rw [List.length_cons] at h
    have hnext := toNat_succ (i := i) (by omega)
    have ih := map_toNat_startsFrom (i + 1) bs (by omega)
    rw [hnext] at ih
    rw [startsFrom, List.zipIdx_cons, List.filterMap_cons, ← ih]
    by_cases hb : b = newline
    · simp only [if_pos hb, List.map_cons, hnext]
    · simp only [if_neg hb]

theorem sinceNewline_eq_length_iff {bs : List UInt8} :
    sinceNewline bs = bs.length ↔ newline ∉ bs := by
  refine ⟨fun h hmem => ?_, sinceNewline_of_notMem⟩
  have hall : bs.reverse.takeWhile (· ≠ newline) = bs.reverse :=
    (List.takeWhile_prefix _).eq_of_length (by rw [← sinceNewline, h, List.length_reverse])
  have hne := List.takeWhile_eq_self_iff.mp hall newline (List.mem_reverse.mpr hmem)
  simp at hne

section
variable {text : String}

/-- The bytes of a text up to its end are all its bytes. -/
theorem bytesBefore_length (hlen : text.utf8ByteSize < UInt32.size) :
    bytesBefore text (ofText text).length = text.toUTF8.data.toList := by
  rw [bytesBefore, (valid_ofText hlen).2]
  exact List.take_length

/-- The last line starts where the bytes since the last newline do. -/
theorem toNat_startOf_end (hlen : text.utf8ByteSize < UInt32.size) :
    ((ofText text).startOf (ofText text).length).toNat + sinceNewline text.toUTF8.data.toList =
      text.utf8ByteSize := by
  have hlength := (valid_ofText hlen).2
  have hstart := toNat_startOf_ofText hlen (Nat.le_of_eq hlength)
  rwa [bytesBefore_length hlen, hlength] at hstart

/-! ## Columns and lines -/

/-- Columns run out in a text of the greatest length, if it is one line. -/
theorem columns_fit_iff (hlen : text.utf8ByteSize < UInt32.size) :
    (∀ o, ((ofText text).clamp o).toNat - ((ofText text).startOf ((ofText text).clamp o)).toNat + 1 <
        UInt32.size) ↔
      text.utf8ByteSize < 4294967295 ∨ newline ∈ text.toUTF8.data.toList := by
  have hbytes : text.toUTF8.data.toList.length = text.utf8ByteSize := rfl
  have hlength := (valid_ofText hlen).2
  have hend := toNat_startOf_end hlen
  have hsince : sinceNewline text.toUTF8.data.toList = text.utf8ByteSize ↔
      newline ∉ text.toUTF8.data.toList := by
    rw [← hbytes, sinceNewline_eq_length_iff]
  simp only [UInt32.size] at hlen ⊢
  constructor
  · intro hfit
    by_contra hnot
    rw [not_or] at hnot
    have hsum := hfit (ofText text).length
    rw [clamp_of_le (UInt32.le_refl _)] at hsum
    have := hsince.mpr hnot.2
    omega
  · intro hcase o
    have hclamp := (ofText text).toNat_clamp o
    by_cases hlast : (ofText text).clamp o = (ofText text).length
    · rw [hlast]
      rcases hcase with hshort | hmem
      · omega
      · have : sinceNewline text.toUTF8.data.toList ≠ text.utf8ByteSize :=
          fun heq => hsince.mp heq hmem
        omega
    · rw [← UInt32.toNat_inj] at hlast
      omega

theorem lineCount_ofText (text : String) :
    (ofText text).lineCount = text.toUTF8.data.toList.count newline + 1 :=
  congrArg Nat.succ (length_startsFrom 0 text.toUTF8.data.toList)

/-- The number after that of a line runs out if there are as many lines as the greatest
word. -/
theorem lines_fit_iff (text : String) :
    (∀ line, ((ofText text).lineStart? line).isSome → line.toNat + 1 < UInt32.size) ↔
      text.toUTF8.data.toList.count newline + 1 < 4294967295 := by
  have hcount := lineCount_ofText text
  rw [lineCount] at hcount
  rw [← hcount]
  constructor
  · intro hfit
    by_contra hmany
    have hgreatest : (4294967295 : UInt32).toNat = 4294967295 := rfl
    have hsome : ((ofText text).lineStart? 4294967295).isSome :=
      Option.isSome_iff_exists.mpr ⟨_, lineStart?_eq_some_iff.mpr ⟨by omega, rfl⟩⟩
    exact absurd (hfit _ hsome) (by decide)
  · intro hfew line hsome
    obtain ⟨start, hstart⟩ := Option.isSome_iff_exists.mp hsome
    obtain ⟨⟨-, hline⟩, -⟩ := lineStart?_eq_some_iff.mp hstart
    simp only [UInt32.size]
    omega

/-! ## The end of the text -/

/-- Of the positions, none leads to the greatest word: no line ends after it. -/
theorem lt_greatest_of_offset? {x : LineIndex} {p : Position} {o : UInt32}
    (h : x.offset? p = some o) : o.toNat < 4294967295 := by
  obtain ⟨-, -, -, hend⟩ := offset?_eq_some.mp h
  have hlt := UInt32.lt_iff_toNat_lt.mp hend
  have hword := ((x.lineStart? (p.line + 1)).getD x.past).toNat_lt_size
  simp only [UInt32.size] at hword
  omega

theorem offset?_end_iff (hlen : text.utf8ByteSize < UInt32.size) :
    (ofText text).offset? ((ofText text).resolve (ofText text).length) =
        some (ofText text).length ↔
      text.utf8ByteSize < 4294967295 := by
  have hlength := (valid_ofText hlen).2
  constructor
  · intro h
    have := lt_greatest_of_offset? h
    omega
  · intro hshort
    rw [(bounded_ofText hlen).offset?_resolve (by omega), clamp_of_le (UInt32.le_refl _)]

/-- **Where the words of an index run out.** In a text of at most `2 ^ 32 - 1` bytes, the
starts of lines and the length are kept as they are, and no column is counted from a start
that lies after its offset. Columns fit a word unless the text has all these bytes and no
newline. The number after that of a line fits unless `2 ^ 32 - 1` lines are there. The end
of the text is found again from its position unless the text has all these bytes. -/
theorem word_limits (hlen : text.utf8ByteSize ≤ 4294967295) :
    let x := ofText text
    let bytes := text.toUTF8.data.toList
    x.length.toNat = text.utf8ByteSize ∧
    x.starts.toList.map UInt32.toNat =
      0 :: bytes.zipIdx.filterMap (fun b => if b.1 = newline then some (b.2 + 1) else none) ∧
    (∀ o, x.startOf (x.clamp o) ≤ x.clamp o) ∧
    ((∀ o, (x.clamp o).toNat - (x.startOf (x.clamp o)).toNat + 1 < UInt32.size) ↔
      text.utf8ByteSize < 4294967295 ∨ newline ∈ bytes) ∧
    ((∀ line, (x.lineStart? line).isSome → line.toNat + 1 < UInt32.size) ↔
      bytes.count newline + 1 < 4294967295) ∧
    (x.offset? (x.resolve x.length) = some x.length ↔ text.utf8ByteSize < 4294967295) := by
  intro x bytes
  have hword : text.utf8ByteSize < UInt32.size := Nat.lt_succ_of_le hlen
  obtain ⟨hx, hlength⟩ := valid_ofText hword
  have hstarts := map_toNat_startsFrom 0 bytes (by rw [UInt32.toNat_zero, Nat.zero_add]; exact hword)
  exact ⟨hlength, congrArg (0 :: ·) hstarts, fun o => hx.startOf_le, columns_fit_iff hword,
    lines_fit_iff text, offset?_end_iff hword⟩

end

/-! ## A text for which they run out -/

/-- In a text of one line, the column of the end comes after that of every byte. -/
theorem resolve_end_of_notMem {text : String} (hlen : text.utf8ByteSize < UInt32.size)
    (hnone : newline ∉ text.toUTF8.data.toList) :
    (ofText text).startOf (ofText text).length = 0 ∧
      (ofText text).resolve (ofText text).length = ⟨1, (ofText text).length + 1⟩ := by
  have hbytes : text.toUTF8.data.toList.length = text.utf8ByteSize := rfl
  have hstart : (ofText text).startOf (ofText text).length = 0 := by
    have hend := toNat_startOf_end hlen
    rw [sinceNewline_of_notMem hnone, hbytes] at hend
    exact UInt32.toNat_inj.mp (by rw [UInt32.toNat_zero]; omega)
  have hline : (ofText text).lineOf (ofText text).length = 1 := by
    rw [lineOf_ofText hlen (Nat.le_of_eq (valid_ofText hlen).2), bytesBefore_length hlen,
      List.length_cons, length_startsFrom, List.count_eq_zero.mpr hnone]
  refine ⟨hstart, ?_⟩
  rw [resolve_eq, clamp_of_le (UInt32.le_refl _), hstart, hline, UInt32.sub_zero]
  rfl

/-- The column of the end of a longest text of one line is one more than the greatest word
and comes out as zero. No position has a column zero, so that this one leads nowhere. -/
theorem resolve_longestLine {text : String} (hsize : text.utf8ByteSize = 4294967295)
    (hnone : newline ∉ text.toUTF8.data.toList) :
    let x := ofText text
    (x.clamp 4294967295).toNat - (x.startOf (x.clamp 4294967295)).toNat + 1 = UInt32.size ∧
      x.resolve 4294967295 = ⟨1, 0⟩ ∧ x.offset? ⟨1, 0⟩ = none := by
  intro x
  have hlen : text.utf8ByteSize < UInt32.size := by
    rw [hsize]
    decide
  have hlength : x.length = 4294967295 := by
    refine UInt32.toNat_inj.mp ?_
    rw [(valid_ofText hlen).2, hsize]
    rfl
  have hclamp : x.clamp x.length = x.length := clamp_of_le (UInt32.le_refl _)
  obtain ⟨hstart, hresolve⟩ := resolve_end_of_notMem hlen hnone
  rw [← hlength]
  refine ⟨?_, ?_, ?_⟩
  · rw [hclamp, hstart, hlength]
    decide
  · rw [hresolve, hlength]
    decide
  · refine Option.eq_none_iff_forall_ne_some.mpr fun o ho => ?_
    obtain ⟨-, -, ⟨hpos, -⟩, -⟩ := offset?_eq_some.mp ho
    exact absurd hpos (by decide)

/-- One line of `n` letters. -/
def oneLine (n : Nat) : String := String.ofList (List.replicate n 'a')

theorem bytes_oneLine (n : Nat) : (oneLine n).toUTF8.data.toList = List.replicate n 97 := by
  have hletter : String.utf8EncodeChar 'a' = [97] := by decide
  rw [oneLine, String.toUTF8, String.toByteArray_ofList, List.utf8Encode, List.data_toByteArray]
  induction n with
  | zero => rfl
  | succ n ih =>
    rw [List.replicate_succ, List.flatMap_cons, hletter, List.replicate_succ, ← ih]
    rfl

theorem utf8ByteSize_oneLine (n : Nat) : (oneLine n).utf8ByteSize = n := by
  have hbytes : (oneLine n).toUTF8.data.toList.length = (oneLine n).utf8ByteSize := rfl
  rw [← hbytes, bytes_oneLine, List.length_replicate]

theorem newline_notMem_oneLine (n : Nat) : newline ∉ (oneLine n).toUTF8.data.toList := by
  rw [bytes_oneLine, List.mem_replicate]
  exact fun h => absurd h.2 (by decide)

/-- So words do run out: for a text that is admitted, the end has no position. -/
theorem longestLine_overflows :
    (oneLine 4294967295).utf8ByteSize = 4294967295 ∧
      (ofText (oneLine 4294967295)).resolve 4294967295 = ⟨1, 0⟩ ∧
      (ofText (oneLine 4294967295)).offset? ⟨1, 0⟩ = none :=
  ⟨utf8ByteSize_oneLine _,
    (resolve_longestLine (utf8ByteSize_oneLine _) (newline_notMem_oneLine _)).2⟩

end GoTree.LineIndex
