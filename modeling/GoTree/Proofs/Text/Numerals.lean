import Mathlib.Data.List.Induction
import GoTree.Text.Numeral
/-!
# Decimal numerals as a grammar

A number is read by taking a plus sign off, looking whether digits are left, and adding
the digits up. Here stands the grammar beside it: how a numeral is built, and with each
step what it is worth. Numbers of any length have a numeral; only those below `2 ^ 32`
are read.

* `Decimal`, `Numeral`: the grammar.
* `decimal_iff`: a run of digits has the value that is read.
* `readWord?_eq_some_iff`, `readWord?_eq_none_iff`: what is read, and what is refused.
* `decimal_digits`: the digits of a number are a numeral of that number.
-/
namespace GoTree.Text

/-- A run of decimal digits, at least one, and what it stands for. Zeros in front count for
nothing. -/
inductive Decimal : List Char → Nat → Prop
  | digit (d : Fin 10) : Decimal [d.val.digitChar] d
  | snoc {ds : List Char} {n : Nat} (h : Decimal ds n) (d : Fin 10) :
      Decimal (ds ++ [d.val.digitChar]) (10 * n + d)

/-- A run of decimal digits with an optional plus sign before it. -/
inductive Numeral : List Char → Nat → Prop
  | plain {ds : List Char} {n : Nat} (h : Decimal ds n) : Numeral ds n
  | plus {ds : List Char} {n : Nat} (h : Decimal ds n) : Numeral ('+' :: ds) n

/-! ## Digits -/

theorem exists_digitChar {c : Char} (h : c.isDigit = true) : ∃ d : Fin 10, c = d.val.digitChar := by
  obtain ⟨hlow, hhigh⟩ := Char.isDigit_iff_toNat.mp h
  have hzero : '0'.toNat = 48 := rfl
  have hnine : '9'.toNat = 57 := rfl
  have hlt : c.toNat - 48 < 10 := by omega
  refine ⟨⟨c.toNat - 48, hlt⟩, Char.toNat_inj.mp ?_⟩
  rw [Nat.toNat_digitChar_of_lt_ten hlt]
  omega

@[simp] theorem digitsValue_nil : digitsValue [] = 0 := rfl

theorem digitsValue_concat (ds : List Char) (d : Fin 10) :
    digitsValue (ds ++ [d.val.digitChar]) = 10 * digitsValue ds + d := by
  have hvalue : d.val.digitChar.toNat - '0'.toNat = d :=
    Nat.toNat_digitChar_sub_48_of_lt_ten d.isLt
  simp only [digitsValue, List.foldl_append, List.foldl_cons, List.foldl_nil, hvalue]

/-- Every nonempty run of digits stands for a number, the one that is read. -/
theorem decimal_iff {ds : List Char} {n : Nat} :
    Decimal ds n ↔ ds ≠ [] ∧ ds.all Char.isDigit = true ∧ digitsValue ds = n := by
  constructor
  · intro h
    induction h with
    | digit d => exact ⟨by simp, by simp, by simpa using digitsValue_concat [] d⟩
    | snoc h d ih =>
      obtain ⟨-, hall, rfl⟩ := ih
      exact ⟨by simp, by simp [hall], digitsValue_concat _ d⟩
  · rintro ⟨hne, hall, rfl⟩
    -- digits are added at the end, as the grammar has it
    induction ds using List.reverseRecOn with
    | nil => exact absurd rfl hne
    | append_singleton ds c ih =>
      simp only [List.all_append, List.all_cons, List.all_nil, Bool.and_true,
        Bool.and_eq_true] at hall
      obtain ⟨d, rfl⟩ := exists_digitChar hall.2
      rw [digitsValue_concat]
      by_cases hnil : ds = []
      · subst hnil
        simpa using Decimal.digit d
      · exact .snoc (ih hnil hall.1) d

theorem Decimal.isDigit {ds : List Char} {n : Nat} (h : Decimal ds n) :
    ∀ c ∈ ds, c.isDigit = true :=
  List.all_eq_true.mp (decimal_iff.mp h).2.1

/-- The digits of a number are one of its numerals. -/
theorem decimal_digits (n : Nat) : Decimal (digits n) n := by
  induction n using Nat.strongRecOn with
  | ind n ih =>
    rw [digits, Nat.toDigits_eq_if (by omega)]
    split
    · rename_i h
      exact .digit ⟨n, h⟩
    · have hlast := Decimal.snoc (ih (n / 10) (by omega)) ⟨n % 10, Nat.mod_lt n (by omega)⟩
      rwa [Nat.div_add_mod] at hlast

/-! ## Numerals -/

/-- A sign is told from a digit by its character, so that there is one way to read. -/
theorem numeral_iff {cs : List Char} {n : Nat} : Numeral cs n ↔ Decimal (unsigned cs) n := by
  constructor
  · rintro (h | h)
    · have hsign : unsigned cs = cs := by
        unfold unsigned
        split
        · exact absurd (h.isDigit '+' (by simp)) (by decide)
        · rfl
      rwa [hsign]
    · exact h
  · intro h
    unfold unsigned at h
    split at h
    · exact .plus h
    · exact .plain h

theorem Numeral.unique {cs : List Char} {m n : Nat} (hm : Numeral cs m) (hn : Numeral cs n) :
    m = n := by
  rw [← (decimal_iff.mp (numeral_iff.mp hm)).2.2, ← (decimal_iff.mp (numeral_iff.mp hn)).2.2]

/-- **Reading accepts the numerals of words**, and gives each its value. -/
theorem readWord?_eq_some_iff {cs : List Char} {w : UInt32} :
    readWord? cs = some w ↔ Numeral cs w.toNat := by
  rw [numeral_iff, decimal_iff, readWord?, Option.ite_none_right_eq_some, Option.some.injEq]
  constructor
  · rintro ⟨⟨hne, hall, hlt⟩, rfl⟩
    exact ⟨hne, hall, (UInt32.toNat_ofNat_of_lt' hlt).symm⟩
  · rintro ⟨hne, hall, hvalue⟩
    exact ⟨⟨hne, hall, hvalue ▸ w.toNat_lt_size⟩, by rw [hvalue, UInt32.ofNat_toNat]⟩

theorem readWord?_eq_none_iff {cs : List Char} :
    readWord? cs = none ↔ ∀ n < UInt32.size, ¬ Numeral cs n := by
  constructor
  · intro h n hn hnum
    rw [← UInt32.toNat_ofNat_of_lt' hn, ← readWord?_eq_some_iff, h] at hnum
    cases hnum
  · intro h
    refine Option.eq_none_iff_forall_ne_some.mpr fun w hw => ?_
    exact h w.toNat w.toNat_lt_size (readWord?_eq_some_iff.mp hw)

end GoTree.Text
