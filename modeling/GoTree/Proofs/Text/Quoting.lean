import GoTree.Text.Quoted
/-!
# Quoted text can be read back

A quoted text ends at the first quote that no backslash precedes, and what
stands between determines the text: no two texts are quoted alike, and a quoted
text is known as soon as one is given something that starts with it.

Statements of this kind have one form here: if two printed things, each followed
by a rest, give the same characters, then the things are the same and so are the
rests.

* `word_append_inj`: runs of characters of a class, cut where the class ends.
* `toDigits_sixteen_injective`: numbers in hexadecimal.
* `escape_append_inj`: one escaped character.
* `quote_append_inj`: a quoted text.
-/
namespace GoTree.Text

/-- The rest of a text after a run of characters in `p`: it does not go on with
one of them. -/
def Cut (p : Char → Prop) (rest : List Char) : Prop := ∀ c ∈ rest.head?, ¬ p c

theorem word_append_inj {p : Char → Prop} {v w x y : List Char} (hv : ∀ c ∈ v, p c)
    (hw : ∀ c ∈ w, p c) (hx : Cut p x) (hy : Cut p y) (h : v ++ x = w ++ y) : v = w ∧ x = y := by
  induction v generalizing w with
  | nil =>
    cases w with
    | nil => exact ⟨rfl, h⟩
    | cons c w =>
      rw [List.nil_append] at h
      exact absurd (hw c (by simp)) (hx c (by simp [h]))
  | cons c v ih =>
    cases w with
    | nil =>
      rw [List.nil_append] at h
      exact absurd (hv c (by simp)) (hy c (by simp [← h]))
    | cons d w =>
      simp only [List.cons_append, List.cons.injEq] at h
      obtain ⟨rfl, h⟩ := h
      obtain ⟨rfl, rfl⟩ := ih (fun c hc => hv c (by simp [hc])) (fun c hc => hw c (by simp [hc])) h
      exact ⟨rfl, rfl⟩

/-! ## Hexadecimal -/

theorem digitChar_inj {a b : Nat} (ha : a < 16) (hb : b < 16)
    (h : a.digitChar = b.digitChar) : a = b := by
  have key : ∀ i : Fin 16, ∀ j : Fin 16, i.val.digitChar = j.val.digitChar → i = j := by decide
  exact congrArg Fin.val (key ⟨a, ha⟩ ⟨b, hb⟩ h)

theorem toDigits_sixteen (n : Nat) :
    Nat.toDigits 16 n =
      if n < 16 then [n.digitChar] else Nat.toDigits 16 (n / 16) ++ [(n % 16).digitChar] :=
  Nat.toDigits_eq_if (by omega)

theorem toDigits_sixteen_injective {m n : Nat} (h : Nat.toDigits 16 m = Nat.toDigits 16 n) :
    m = n := by
  induction m using Nat.strongRecOn generalizing n with
  | ind m ih =>
    rw [toDigits_sixteen m, toDigits_sixteen n] at h
    split at h <;> split at h
    · rename_i hm hn
      exact digitChar_inj hm hn (by simpa using h)
    · have hlen := congrArg List.length h
      have hpos := Nat.length_toDigits_pos (b := 16) (n := n / 16)
      simp only [List.length_append, List.length_singleton] at hlen
      omega
    · have hlen := congrArg List.length h
      have hpos := Nat.length_toDigits_pos (b := 16) (n := m / 16)
      simp only [List.length_append, List.length_singleton] at hlen
      omega
    · obtain ⟨hdiv, hmod⟩ := List.append_inj' h rfl
      have hd := ih (m / 16) (by omega) hdiv
      have hr := digitChar_inj (Nat.mod_lt m (by omega)) (Nat.mod_lt n (by omega))
        (by simpa using hmod)
      omega

/-- A character that is no hexadecimal digit is not among those of a number. -/
theorem ne_of_mem_toDigits {n : Nat} {c d : Char} (h : c ∈ Nat.toDigits 16 n)
    (hd : ∀ i : Fin 16, i.val.digitChar ≠ d) : c ≠ d := by
  induction n using Nat.strongRecOn with
  | ind n ih =>
    rw [toDigits_sixteen] at h
    split at h
    · rename_i hn
      obtain rfl : c = n.digitChar := by simpa using h
      exact hd ⟨n, hn⟩
    · rcases List.mem_append.mp h with h | h
      · exact ih (n / 16) (by omega) h
      · obtain rfl : c = (n % 16).digitChar := by simpa using h
        exact hd ⟨n % 16, Nat.mod_lt n (by omega)⟩

theorem ne_brace_of_mem_toDigits {n : Nat} {c : Char} (h : c ∈ Nat.toDigits 16 n) : c ≠ '\x7d' :=
  ne_of_mem_toDigits h (by decide)

theorem codePoint_append_inj {c d : Char} {x y : List Char}
    (h : codePoint c ++ x = codePoint d ++ y) : c = d ∧ x = y := by
  simp only [codePoint, List.cons_append, List.append_assoc, List.cons.injEq, true_and,
    List.nil_append] at h
  obtain ⟨hdigits, hrest⟩ := word_append_inj (p := (· ≠ '\x7d'))
    (fun _ => ne_brace_of_mem_toDigits) (fun _ => ne_brace_of_mem_toDigits) (by simp [Cut])
    (by simp [Cut]) h
  refine ⟨Char.toNat_inj.mp (toDigits_sixteen_injective hdigits), ?_⟩
  simpa using hrest

/-! ## Escapes -/

/-- The character that a backslash and a letter stand for. -/
def shortEscape? : Char → Option Char
  | '0' => some '\x00'
  | 't' => some '\t'
  | 'r' => some '\r'
  | 'n' => some '\n'
  | '\\' => some '\\'
  | '"' => some '"'
  | _ => none

/-- A character stands between quotes as itself, after a backslash, or by its
code point. -/
theorem escape_cases (c : Char) :
    (escape c = [c] ∧ c ≠ '\\' ∧ c ≠ '"') ∨
      (∃ e, escape c = ['\\', e] ∧ shortEscape? e = some c) ∨ escape c = codePoint c := by
  unfold escape
  split
  · rename_i h
    subst h
    exact .inr (.inl ⟨'0', rfl, rfl⟩)
  split
  · rename_i h
    subst h
    exact .inr (.inl ⟨'t', rfl, rfl⟩)
  split
  · rename_i h
    subst h
    exact .inr (.inl ⟨'r', rfl, rfl⟩)
  split
  · rename_i h
    subst h
    exact .inr (.inl ⟨'n', rfl, rfl⟩)
  split
  · rename_i h
    subst h
    exact .inr (.inl ⟨'\\', rfl, rfl⟩)
  split
  · rename_i h
    subst h
    exact .inr (.inl ⟨'"', rfl, rfl⟩)
  rename_i hb hq
  split
  · exact .inl ⟨rfl, hb, hq⟩
  · exact .inr (.inr rfl)

theorem escape_append_inj {c d : Char} {x y : List Char} (h : escape c ++ x = escape d ++ y) :
    c = d ∧ x = y := by
  rcases escape_cases c with ⟨hc, hcb, -⟩ | ⟨e, hc, he⟩ | hc <;>
    rcases escape_cases d with ⟨hd, hdb, -⟩ | ⟨f, hd, hf⟩ | hd <;> rw [hc, hd] at h
  · simpa using h
  · simp at h
    exact absurd h.1 hcb
  · simp [codePoint] at h
    exact absurd h.1 hcb
  · simp at h
    exact absurd h.1.symm hdb
  · simp at h
    obtain ⟨rfl, rfl⟩ := h
    rw [he] at hf
    exact ⟨by simpa using hf, rfl⟩
  · simp [codePoint] at h
    rw [h.1] at he
    cases he
  · simp [codePoint] at h
    exact absurd h.1.symm hdb
  · simp [codePoint] at h
    rw [← h.1] at hf
    cases hf
  · exact codePoint_append_inj h

/-- No escaped character starts like the closing quote. -/
theorem escape_append_ne_quote (c : Char) (x y : List Char) : escape c ++ x ≠ '"' :: y := by
  rcases escape_cases c with ⟨hc, -, hq⟩ | ⟨e, hc, -⟩ | hc <;> rw [hc]
  · simp [hq]
  · simp
  · simp [codePoint]

theorem escapes_append_inj {cs ds x y : List Char}
    (h : cs.flatMap escape ++ '"' :: x = ds.flatMap escape ++ '"' :: y) : cs = ds ∧ x = y := by
  induction cs generalizing ds with
  | nil =>
    cases ds with
    | nil => simpa using h
    | cons d ds =>
      rw [List.flatMap_cons, List.append_assoc] at h
      exact absurd h.symm (escape_append_ne_quote d _ _)
  | cons c cs ih =>
    cases ds with
    | nil =>
      rw [List.flatMap_cons, List.append_assoc] at h
      exact absurd h (escape_append_ne_quote c _ _)
    | cons d ds =>
      rw [List.flatMap_cons, List.flatMap_cons, List.append_assoc, List.append_assoc] at h
      obtain ⟨rfl, hrest⟩ := escape_append_inj h
      obtain ⟨rfl, rfl⟩ := ih hrest
      exact ⟨rfl, rfl⟩

theorem toList_quote (s : String) :
    (quote s).toList = '"' :: (s.toList.flatMap escape ++ ['"']) := by
  simp [quote]

/-- **Quoting.** A quoted text can be cut off whatever starts with it. -/
theorem quote_append_inj {s t : String} {x y : List Char}
    (h : (quote s).toList ++ x = (quote t).toList ++ y) : s = t ∧ x = y := by
  rw [toList_quote, toList_quote] at h
  simp only [List.cons_append, List.append_assoc, List.cons.injEq, true_and,
    List.nil_append] at h
  obtain ⟨hs, hx⟩ := escapes_append_inj h
  exact ⟨String.toList_inj.mp hs, hx⟩

end GoTree.Text
