import GoTree.Position.Reader
import GoTree.Proofs.Text.Blanks
import GoTree.Proofs.Text.Numerals
/-!
# Reading positions by their grammar

A text is read as a position by dropping blanks, cutting at the first colon and reading
both parts. Here it is said which texts are positions, and for each of the others what it
is told to be wrong with it: no colon, or the first part that is bad, and that part is
either zero or no number at all. Written positions are then among those that are read.

* `splitColon_eq_none_iff`, `splitColon_of_notMem`: the cut at the first colon.
* `Counts`: the parts that are lines or columns.
* `readPart_of_counts`, `readPart_of_zero`, `readPart_of_invalid`: one part.
* `read_of_split`, `read_cases`: reading stripped text part by part.
* `read_classified`: what is read from every text.
* `read_written`: writing and reading back.
-/
namespace GoTree.Position
open Text

/-! ## The first colon -/

theorem splitColon_eq_none_iff {t : List Char} : splitColon t = none ↔ ':' ∉ t := by
  induction t with
  | nil => simp [splitColon]
  | cons c t ih =>
    by_cases h : c = ':'
    · simp [splitColon, h]
    · simp [splitColon, h, ih, Ne.symm h]

theorem splitColon_of_notMem {a : List Char} (b : List Char) (ha : ':' ∉ a) :
    splitColon (a ++ ':' :: b) = some (a, b) := by
  induction a with
  | nil => simp [splitColon]
  | cons c a ih =>
    rw [List.mem_cons, not_or] at ha
    simp [splitColon, Ne.symm ha.1, ih ha.2]

/-! ## One part -/

/-- A part that is a line or a column: a numeral from one up to the greatest word. -/
def Counts (cs : List Char) (n : Nat) : Prop := Numeral cs n ∧ 1 ≤ n ∧ n ≤ 4294967295

theorem one_le_toNat_iff {w : UInt32} : 1 ≤ w.toNat ↔ w ≠ 0 := by
  rw [Nat.one_le_iff_ne_zero, ne_eq, ne_eq, ← UInt32.toNat_inj, UInt32.toNat_zero]

theorem readPart_eq_ok_iff (part : Part) {cs : List Char} {w : UInt32} :
    readPart part cs = .ok w ↔ Counts cs w.toNat := by
  have hword : w.toNat ≤ 4294967295 := Nat.le_of_lt_succ w.toNat_lt_size
  rw [Counts, ← readWord?_eq_some_iff, one_le_toNat_iff, readPart]
  split
  · rename_i h
    simp [h]
  · rename_i n h
    rw [h, Option.some.injEq]
    by_cases hn : n = 0
    · rw [if_pos hn]
      exact ⟨nofun, fun hw => absurd (hw.1 ▸ hn) hw.2.1⟩
    · rw [if_neg hn, Except.ok.injEq]
      exact ⟨fun hw => ⟨hw, hw ▸ hn, hword⟩, fun hw => hw.1⟩

theorem readPart_of_counts (part : Part) {cs : List Char} {n : Nat} (h : Counts cs n) :
    readPart part cs = .ok (UInt32.ofNat n) := by
  have hword : n < UInt32.size := Nat.lt_succ_of_le h.2.2
  rw [readPart_eq_ok_iff, UInt32.toNat_ofNat_of_lt' hword]
  exact h

theorem readPart_of_zero (part : Part) {cs : List Char} (h : Numeral cs 0) :
    readPart part cs = .error (.zero part) := by
  have hread : readWord? cs = some 0 := readWord?_eq_some_iff.mpr h
  rw [readPart, hread]
  rfl

/-- A part that is neither a count nor zero is no number of a word. -/
theorem readPart_of_invalid (part : Part) {cs : List Char} (hcounts : ¬ ∃ n, Counts cs n)
    (hzero : ¬ Numeral cs 0) :
    readPart part cs = .error (.invalidNumber part (String.ofList cs)) := by
  have hread : readWord? cs = none := by
    refine readWord?_eq_none_iff.mpr fun n hn hnum => ?_
    rcases Nat.eq_zero_or_pos n with rfl | hpos
    · exact hzero hnum
    · exact hcounts ⟨n, hnum, hpos, Nat.le_of_lt_succ hn⟩
  rw [readPart, hread]

/-- One part is never blamed for a colon that is missing. -/
theorem readPart_ne_missingColon (part : Part) (cs : List Char) :
    readPart part cs ≠ .error .missingColon := by
  unfold readPart
  split
  · simp
  · split <;> simp

/-! ## Whole texts -/

section
variable {s : String} {t a b : List Char}

/-- What is left of a text is read part by part, cut at its first colon. -/
theorem read_of_split (ht : Stripped s.toList t) (hsplit : t = a ++ ':' :: b) (ha : ':' ∉ a) :
    read s = (readPart .line a).bind fun line =>
      (readPart .column b).bind fun column => .ok ⟨line, column⟩ := by
  rw [read, ht.trim_eq, hsplit, splitColon_of_notMem b ha]
  rfl

/-- The line is judged first, and the column only if the line is read. -/
theorem read_cases (ht : Stripped s.toList t) (hsplit : t = a ++ ':' :: b) (ha : ':' ∉ a) :
    (∃ e, readPart .line a = .error e ∧ read s = .error e) ∨
    (∃ line e, readPart .line a = .ok line ∧ readPart .column b = .error e ∧ read s = .error e) ∨
    (∃ line column, readPart .line a = .ok line ∧ readPart .column b = .ok column ∧
      read s = .ok ⟨line, column⟩) := by
  rw [read_of_split ht hsplit ha]
  cases readPart .line a with
  | error e => exact .inl ⟨e, rfl, rfl⟩
  | ok line =>
    cases readPart .column b with
    | error e => exact .inr (.inl ⟨line, e, rfl, rfl, rfl⟩)
    | ok column => exact .inr (.inr ⟨line, column, rfl, rfl, rfl⟩)

theorem read_eq_missingColon_iff (ht : Stripped s.toList t) :
    read s = .error .missingColon ↔ ':' ∉ t := by
  constructor
  · intro hread hcolon
    -- with a colon there are two parts, and neither is blamed for a missing one
    obtain ⟨a, b, hsplit, ha⟩ := List.eq_append_cons_of_mem hcolon
    rcases read_cases ht hsplit ha with ⟨e, hline, he⟩ | ⟨_, e, _, hcolumn, he⟩ | ⟨_, _, _, _, hok⟩
    · obtain rfl : e = .missingColon := Except.error.inj (he.symm.trans hread)
      exact readPart_ne_missingColon .line a hline
    · obtain rfl : e = .missingColon := Except.error.inj (he.symm.trans hread)
      exact readPart_ne_missingColon .column b hcolumn
    · rw [hok] at hread
      cases hread
  · intro hcolon
    rw [read, ht.trim_eq, splitColon_eq_none_iff.mpr hcolon]

/-- A position is read exactly if both parts are counts, and it has these. -/
theorem read_eq_ok_iff (ht : Stripped s.toList t) (hsplit : t = a ++ ':' :: b) (ha : ':' ∉ a)
    {p : Position} : read s = .ok p ↔ Counts a p.line.toNat ∧ Counts b p.column.toNat := by
  rw [← readPart_eq_ok_iff .line, ← readPart_eq_ok_iff .column]
  constructor
  · intro hread
    rcases read_cases ht hsplit ha with ⟨e, _, he⟩ | ⟨_, e, _, _, he⟩ | ⟨_, _, hline, hcolumn, hok⟩
    · rw [he] at hread
      cases hread
    · rw [he] at hread
      cases hread
    · rw [hok] at hread
      cases hread
      exact ⟨hline, hcolumn⟩
  · rintro ⟨hline, hcolumn⟩
    rw [read_of_split ht hsplit ha, hline, hcolumn]
    rfl

/-- Only counts are read. -/
theorem ne_zero_of_read {p : Position} (h : read s = .ok p) : p.line ≠ 0 ∧ p.column ≠ 0 := by
  have ht := stripped_trim s.toList
  by_cases hcolon : ':' ∈ trim s.toList
  · obtain ⟨a, b, hsplit, ha⟩ := List.eq_append_cons_of_mem hcolon
    obtain ⟨hline, hcolumn⟩ := (read_eq_ok_iff ht hsplit ha).mp h
    exact ⟨one_le_toNat_iff.mp hline.2.1, one_le_toNat_iff.mp hcolumn.2.1⟩
  · rw [(read_eq_missingColon_iff ht).mpr hcolon] at h
    cases h

theorem read_of_line_error (ht : Stripped s.toList t) (hsplit : t = a ++ ':' :: b) (ha : ':' ∉ a)
    {e : ReadError} (hline : readPart .line a = .error e) : read s = .error e := by
  rw [read_of_split ht hsplit ha, hline]
  rfl

theorem read_of_column_error (ht : Stripped s.toList t) (hsplit : t = a ++ ':' :: b)
    (ha : ':' ∉ a) {n : Nat} (hline : Counts a n) {e : ReadError}
    (hcolumn : readPart .column b = .error e) : read s = .error e := by
  rw [read_of_split ht hsplit ha, readPart_of_counts .line hline, hcolumn]
  rfl

end

/-- **What is read from a text.** Take the white space off both ends of it. If no colon is
left, that is the error. Else cut at the first colon. A position is read exactly if both
parts are numerals from one up to the greatest word, and these are its line and column.
Else the line is to blame if its part is bad, and the column otherwise: for being zero if
the part is a numeral of zero, and for not being a number in every other case, with the
part as it stands. -/
theorem read_classified (s : String) :
    (∃! t, Stripped s.toList t) ∧
    ∀ t, Stripped s.toList t →
      (read s = .error .missingColon ↔ ':' ∉ t) ∧
      (':' ∈ t → ∃ a b, t = a ++ ':' :: b ∧ ':' ∉ a) ∧
      ∀ a b, t = a ++ ':' :: b → ':' ∉ a →
        (∀ p : Position, read s = .ok p ↔ Counts a p.line.toNat ∧ Counts b p.column.toNat) ∧
        ((¬ ∃ n, Counts a n) →
          (Numeral a 0 → read s = .error (.zero .line)) ∧
          (¬ Numeral a 0 → read s = .error (.invalidNumber .line (String.ofList a)))) ∧
        ((∃ n, Counts a n) → (¬ ∃ n, Counts b n) →
          (Numeral b 0 → read s = .error (.zero .column)) ∧
          (¬ Numeral b 0 → read s = .error (.invalidNumber .column (String.ofList b)))) := by
  refine ⟨⟨trim s.toList, stripped_trim _, fun t ht => ht.trim_eq.symm⟩, fun t ht => ?_⟩
  refine ⟨read_eq_missingColon_iff ht, List.eq_append_cons_of_mem, fun a b hsplit ha => ?_⟩
  refine ⟨fun p => read_eq_ok_iff ht hsplit ha, fun hbad => ⟨fun hzero => ?_, fun hzero => ?_⟩, ?_⟩
  · exact read_of_line_error ht hsplit ha (readPart_of_zero .line hzero)
  · exact read_of_line_error ht hsplit ha (readPart_of_invalid .line hbad hzero)
  · rintro ⟨n, hline⟩ hbad
    refine ⟨fun hzero => ?_, fun hzero => ?_⟩
    · exact read_of_column_error ht hsplit ha hline (readPart_of_zero .column hzero)
    · exact read_of_column_error ht hsplit ha hline (readPart_of_invalid .column hbad hzero)

/-- Blanks stand around the text, and the line has a sign and zeros in front of it. The
column is well formed and zero. -/
theorem classified_zeroColumn :
    let s := "\t +007:00\u3000"
    let a := ['+', '0', '0', '7']
    let b := ['0', '0']
    Stripped s.toList (a ++ ':' :: b) ∧ ':' ∉ a ∧ Counts a 7 ∧ (¬ ∃ n, Counts b n) ∧ Numeral b 0 ∧
      read s = .error (.zero .column) := by
  intro s a b
  have ht : Stripped s.toList (a ++ ':' :: b) := stripped_iff.mpr (by decide)
  have ha : ':' ∉ a := by decide
  have hline : Counts a 7 :=
    ⟨.plus (.snoc (.snoc (.digit 0) 0) 7), by decide, by decide⟩
  have hzero : Numeral b 0 := .plain (.snoc (.digit 0) 0)
  have hbad : ¬ ∃ n, Counts b n := by
    rintro ⟨n, hnum, hpos, -⟩
    rw [hnum.unique hzero] at hpos
    exact absurd hpos (by decide)
  obtain ⟨-, -, hparts⟩ := (read_classified s).2 _ ht
  exact ⟨ht, ha, hline, hbad, hzero, ((hparts a b rfl ha).2.2 ⟨7, hline⟩ hbad).1 hzero⟩

/-! ## Written positions -/

section
variable {s : String} {p : Position}

/-- A written position has the digits of its line, a colon and the digits of its column. -/
theorem toList_text (p : Position) :
    p.text.toList = digits p.line.toNat ++ ':' :: digits p.column.toNat := by
  simp [text, numeral]

theorem notMem_whiteSpace_of_isDigit {c : Char} (h : c.isDigit = true) : c.toNat ∉ whiteSpace := by
  obtain ⟨d, rfl⟩ := exists_digitChar h
  decide +revert

/-- A written position holds no white space. -/
theorem notMem_whiteSpace_of_mem_text {c : Char} (h : c ∈ p.text.toList) : c.toNat ∉ whiteSpace := by
  rw [toList_text, List.mem_append, List.mem_cons] at h
  rcases h with hline | rfl | hcolumn
  · exact notMem_whiteSpace_of_isDigit ((decimal_digits _).isDigit c hline)
  · decide
  · exact notMem_whiteSpace_of_isDigit ((decimal_digits _).isDigit c hcolumn)

theorem stripped_text_between {v w : String} (hv : Blank v.toList) (hw : Blank w.toList) :
    Stripped (v ++ p.text ++ w).toList p.text.toList := by
  rw [String.toList_append, String.toList_append]
  exact stripped_between hv hw fun c => notMem_whiteSpace_of_mem_text

theorem stripped_text (p : Position) : Stripped p.text.toList p.text.toList :=
  ⟨⟨[], [], (List.append_nil _).symm, nofun, nofun⟩,
    fun _ hc => notMem_whiteSpace_of_mem_text (List.mem_of_mem_head? hc),
    fun _ hc => notMem_whiteSpace_of_mem_text (List.mem_of_getLast? hc)⟩

/-- The digits of a number hold no colon. -/
theorem colon_notMem_digits (n : Nat) : ':' ∉ digits n := by
  intro h
  exact absurd ((decimal_digits n).isDigit ':' h) (by decide)

theorem counts_digits {w : UInt32} (h : w ≠ 0) : Counts (digits w.toNat) w.toNat :=
  ⟨.plain (decimal_digits _), one_le_toNat_iff.mpr h, Nat.le_of_lt_succ w.toNat_lt_size⟩

theorem numeral_digits_zero {w : UInt32} (h : w = 0) : Numeral (digits w.toNat) 0 := by
  subst h
  exact .plain (decimal_digits 0)

/-- A written position is read as that position. -/
theorem read_of_stripped_text (h : Stripped s.toList p.text.toList) (hline : p.line ≠ 0)
    (hcolumn : p.column ≠ 0) : read s = .ok p :=
  (read_eq_ok_iff h (toList_text p) (colon_notMem_digits _)).mpr
    ⟨counts_digits hline, counts_digits hcolumn⟩

end

/-- **Positions are written and read back.** A position with line and column from one up is
read from what is written for it, with any blanks around it. So whatever a position was
read from, it is read again from what is written. A written position with a zero in it is
refused for that zero, the first if there are two. -/
theorem read_written :
    (∀ (p : Position) (v w : String), p.line ≠ 0 → p.column ≠ 0 → Blank v.toList →
      Blank w.toList → read (v ++ p.text ++ w) = .ok p) ∧
    (∀ (s : String) (p : Position), read s = .ok p → read p.text = .ok p) ∧
    (∀ p : Position, p.line = 0 → read p.text = .error (.zero .line)) ∧
    (∀ p : Position, p.line ≠ 0 → p.column = 0 → read p.text = .error (.zero .column)) := by
  refine ⟨fun p v w hline hcolumn hv hw => ?_, fun s p hread => ?_, fun p hline => ?_,
    fun p hline hcolumn => ?_⟩
  · exact read_of_stripped_text (stripped_text_between hv hw) hline hcolumn
  · obtain ⟨hline, hcolumn⟩ := ne_zero_of_read hread
    exact read_of_stripped_text (stripped_text p) hline hcolumn
  · exact read_of_line_error (stripped_text p) (toList_text p) (colon_notMem_digits _)
      (readPart_of_zero .line (numeral_digits_zero hline))
  · exact read_of_column_error (stripped_text p) (toList_text p) (colon_notMem_digits _)
      (counts_digits hline) (readPart_of_zero .column (numeral_digits_zero hcolumn))

/-- The greatest line, written between blanks; and two positions with a zero in them. -/
theorem written_greatestLine :
    read ("\n" ++ text ⟨4294967295, 1⟩ ++ " \u2003") = .ok ⟨4294967295, 1⟩ ∧
      read (text ⟨4294967295, 1⟩) = .ok ⟨4294967295, 1⟩ ∧
      read (text ⟨0, 0⟩) = .error (.zero .line) ∧ read (text ⟨3, 0⟩) = .error (.zero .column) := by
  obtain ⟨hbetween, hagain, hline, hcolumn⟩ := read_written
  have hread : read ("\n" ++ text ⟨4294967295, 1⟩ ++ " \u2003") = .ok ⟨4294967295, 1⟩ :=
    hbetween _ _ _ (by decide) (by decide) (by simp [Blank, whiteSpace]) (by simp [Blank, whiteSpace])
  exact ⟨hread, hagain _ _ hread, hline ⟨0, 0⟩ rfl, hcolumn ⟨3, 0⟩ (by decide) rfl⟩

end GoTree.Position
