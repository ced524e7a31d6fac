import Mathlib.Algebra.Group.Nat.Defs
import Mathlib.Data.List.Basic
import Mathlib.Data.List.Nodup
import GoTree.Interner
/-!
# Interning is a linear search

An interner looks a text up among the texts of equal hash. Here it is set beside one that
knows no hashes and searches all its texts from the first one on. Both give the same
symbols and store the same texts, whatever the hash function is and however often texts
collide.

* `Linear.internAll_eq`: what a linear search makes of any sequence of texts.
* `Interner.intern_eq_linear`, `Interner.internAll_eq_linear`: interning is a linear search,
  for one text and for any sequence.
* `Interner.Sound`: a symbol is listed under the hash of its text only.
* `Interner.internAll_empty`: all of it, from an interner that holds nothing.
-/
namespace GoTree

/-! ## Sequences of texts -/

/-- Interns texts one after another. -/
def internAll {σ : Type} (intern : σ → String → Symbol × σ) : σ → List String → List Symbol × σ
  | t, [] => ([], t)
  | t, s :: ss =>
    let r := intern t s
    let q := internAll intern r.2 ss
    (r.1 :: q.1, q.2)

theorem internAll_append {σ : Type} {intern : σ → String → Symbol × σ} :
    ∀ (t : σ) (ss us : List String),
      (internAll intern t (ss ++ us)).2 = (internAll intern (internAll intern t ss).2 us).2
  | _, [], _ => rfl
  | t, s :: ss, us => internAll_append (intern t s).2 ss us

/-- The texts that are not among `old`, each where it first occurs. -/
def newTexts (old texts : List String) : List String := (texts.filter (· ∉ old)).eraseDups

theorem newTexts_cons_of_mem {old : List String} {s : String} (h : s ∈ old) (ss : List String) :
    newTexts old (s :: ss) = newTexts old ss := by
  simp [newTexts, h]

theorem newTexts_cons_of_notMem {old : List String} {s : String} (h : s ∉ old)
    (ss : List String) : newTexts old (s :: ss) = s :: newTexts (old ++ [s]) ss := by
  have hrest : (ss.filter (· ∉ old)).filter (fun u => !u == s) =
      ss.filter (· ∉ old ++ [s]) := by
    rw [List.filter_filter]
    refine List.filter_congr fun u _ => ?_
    rw [Bool.eq_iff_iff]
    simp [and_comm]
  rw [newTexts, List.filter_cons_of_pos (by simpa using h), List.eraseDups_cons, hrest, newTexts]

/-! ## Linear search -/

/-- Interns a text among texts that are searched from the first one on. Its symbol is the
index at which it is found; a text that is not found is appended. -/
def Linear.intern (ss : List String) (s : String) : Symbol × List String :=
  match ss.idxOf? s with
  | some i => (⟨i⟩, ss)
  | none => (⟨ss.length⟩, ss ++ [s])

namespace Linear

theorem intern_of_mem {ss : List String} {s : String} (h : s ∈ ss) :
    intern ss s = (⟨ss.idxOf s⟩, ss) := by
  unfold intern
  cases hi : ss.idxOf? s with
  | some i => rw [List.idxOf_eq_getD_idxOf?, hi]; rfl
  | none => exact absurd h (List.idxOf?_eq_none_iff.mp hi)

theorem intern_of_notMem {ss : List String} {s : String} (h : s ∉ ss) :
    intern ss s = (⟨ss.length⟩, ss ++ [s]) := by
  rw [intern, List.idxOf?_eq_none_iff.mpr h]

/-- A sequence of texts leaves those that are new behind, each where it first occurs. Every
symbol is the index of its text among what is stored in the end. -/
theorem internAll_eq : ∀ (ts ss : List String),
    internAll intern ss ts =
      (ts.map fun s => ⟨(ss ++ newTexts ss ts).idxOf s⟩, ss ++ newTexts ss ts)
  | [], ss => by simp [internAll, newTexts]
  | s :: ts, ss => by
    by_cases h : s ∈ ss
    · have ih := internAll_eq ts ss
      rw [internAll, intern_of_mem h, newTexts_cons_of_mem h]
      simp [ih, List.idxOf_append_of_mem h]
    · have ih := internAll_eq ts (ss ++ [s])
      rw [internAll, intern_of_notMem h, newTexts_cons_of_notMem h]
      simp [ih, List.idxOf_append_of_notMem h]

end Linear

/-! ## Interning with hashes -/

namespace Interner

variable {hash : String → UInt64}

theorem nodup_strings (t : Interner hash) : t.strings.toList.Nodup := by
  refine List.nodup_iff_getElem?_ne_getElem?.mpr fun i j hij hj heq => ?_
  have hs : t.strings[j]? = some t.strings[j] := Array.getElem?_eq_getElem (by simpa using hj)
  simp only [Array.getElem?_toList] at heq
  have := t.distinct i j _ (heq.trans hs) hs
  omega

theorem mem_strings_iff {t : Interner hash} {s : String} :
    s ∈ t.strings.toList ↔ ∃ y, t.text? y = some s := by
  rw [List.mem_iff_getElem?]
  constructor
  · rintro ⟨i, hi⟩
    exact ⟨⟨i⟩, by simpa [text?] using hi⟩
  · rintro ⟨y, hy⟩
    exact ⟨y.raw, by simpa [text?] using hy⟩

/-- Interning a text is a linear search for it. -/
theorem intern_eq_linear (t : Interner hash) (s : String) :
    ((t.intern s).1, (t.intern s).2.strings.toList) = Linear.intern t.strings.toList s := by
  cases h : t.find? s with
  | some y =>
    have hy : t.strings.toList[y.raw]? = some s := by
      simpa [text?] using text?_of_find? h
    have hindex : t.strings.toList.idxOf s = y.raw := by
      obtain ⟨hlt, rfl⟩ := List.getElem?_eq_some_iff.mp hy
      exact t.nodup_strings.idxOf_getElem y.raw hlt
    rw [intern_of_find? h, Linear.intern_of_mem (List.mem_of_getElem? hy), hindex]
  | none =>
    have hnew : s ∉ t.strings.toList := by
      rw [mem_strings_iff]
      rintro ⟨y, hy⟩
      exact text?_ne_of_find?_none h y hy
    rw [intern_of_find?_none h, Linear.intern_of_notMem hnew]
    simp [push]

theorem internAll_eq_linear : ∀ (t : Interner hash) (ts : List String),
    ((internAll intern t ts).1, (internAll intern t ts).2.strings.toList) =
      internAll Linear.intern t.strings.toList ts
  | _, [] => rfl
  | t, s :: ts => by
    have ih := internAll_eq_linear (t.intern s).2 ts
    have hstep := t.intern_eq_linear s
    rw [internAll, internAll, ← hstep, ← ih]

/-- A sequence of texts appends those that are new, each where it first occurs. -/
theorem internAll_strings (t : Interner hash) (ts : List String) :
    (internAll intern t ts).2.strings.toList =
      t.strings.toList ++ newTexts t.strings.toList ts := by
  have h := t.internAll_eq_linear ts
  rw [Linear.internAll_eq] at h
  exact (Prod.mk.inj h).2

/-! ## Buckets -/

/-- Every symbol that is listed under a hash resolves, to a text of that hash. -/
def Sound (t : Interner hash) : Prop :=
  ∀ h y, y ∈ t.buckets.getD h [] → ∃ s, t.text? y = some s ∧ hash s = h

theorem sound_empty : (empty : Interner hash).Sound := by
  intro h y hy
  simp [empty] at hy

theorem Sound.intern {t : Interner hash} (ht : t.Sound) (s : String) : (t.intern s).2.Sound := by
  cases hfind : t.find? s with
  | some y =>
    rw [intern_of_find? hfind]
    exact ht
  | none =>
    rw [intern_of_find?_none hfind]
    have hlater : ∀ {y u}, t.text? y = some u → (t.push s hfind).text? y = some u := by
      intro y u hy
      have hlt : y.raw < t.strings.size := (Array.getElem?_eq_some_iff.mp hy).1
      simp only [text?, push] at hy ⊢
      rw [Array.getElem?_push_lt hlt, ← hy, Array.getElem?_eq_getElem hlt]
    intro h y hy
    simp only [push, Std.TreeMap.getD_insert, Std.LawfulEqCmp.compare_eq_iff_eq] at hy
    split at hy
    · rename_i hh
      rcases List.mem_append.mp hy with hy | hy
      · obtain ⟨u, hu, hhash⟩ := ht _ y hy
        exact ⟨u, hlater hu, hhash.trans hh⟩
      · -- the symbol that was just listed
        obtain rfl := List.mem_singleton.mp hy
        exact ⟨s, by simp [text?, push], hh⟩
    · obtain ⟨u, hu, hhash⟩ := ht h y hy
      exact ⟨u, hlater hu, hhash⟩

theorem Sound.internAll : ∀ {t : Interner hash}, t.Sound → ∀ ts : List String,
    (internAll Interner.intern t ts).2.Sound
  | _, ht, [] => ht
  | _, ht, s :: ts => Sound.internAll (ht.intern s) ts

theorem Sound.mem_buckets_iff {t : Interner hash} (ht : t.Sound) {h : UInt64} {y : Symbol} :
    y ∈ t.buckets.getD h [] ↔ ∃ s, t.text? y = some s ∧ hash s = h := by
  refine ⟨ht h y, ?_⟩
  rintro ⟨s, hs, rfl⟩
  exact t.listed y.raw s hs

/-- **Interning.** From an interner that holds nothing, for any hash function and any
sequence of texts:

* the texts that are stored are the distinct ones, each where it first occurs, and the symbol
  of a text is its index among them;
* two symbols are equal exactly if their texts are;
* a symbol resolves exactly if it lies below the number of texts, to the text at its index;
* the symbols listed under a hash are those of the texts of that hash;
* as long as there are at most `2 ^ 32` distinct texts, every symbol fits into 32 bits;
* a linear search does the same, and so does an interner with any other hash function. -/
theorem internAll_empty (hash hash' : String → UInt64) (texts : List String) :
    let run := internAll intern (empty : Interner hash) texts
    let run' := internAll intern (empty : Interner hash') texts
    run.2.strings.toList = texts.eraseDups ∧
    run.1 = texts.map (fun s => ⟨texts.eraseDups.idxOf s⟩) ∧
    (∀ i j : Nat, run.1[i]? = run.1[j]? ↔ texts[i]? = texts[j]?) ∧
    (∀ y, run.2.text? y = texts.eraseDups[y.raw]?) ∧
    (∀ y, (∃ s, run.2.text? y = some s) ↔ y.raw < run.2.size) ∧
    (∀ h y, y ∈ run.2.buckets.getD h [] ↔ ∃ s, run.2.text? y = some s ∧ hash s = h) ∧
    (texts.eraseDups.length ≤ 2 ^ 32 → ∀ y ∈ run.1, y.raw < 2 ^ 32) ∧
    (run.1, run.2.strings.toList) = internAll Linear.intern [] texts ∧
    run.1 = run'.1 ∧ run.2.strings = run'.2.strings := by
  intro run run'
  have hlinear : (run.1, run.2.strings.toList) = internAll Linear.intern [] texts :=
    internAll_eq_linear empty texts
  have hlinear' : (run'.1, run'.2.strings.toList) = internAll Linear.intern [] texts :=
    internAll_eq_linear empty texts
  have hrun := hlinear
  rw [Linear.internAll_eq] at hrun
  have hnew : newTexts [] texts = texts.eraseDups := by simp [newTexts]
  rw [List.nil_append, hnew] at hrun
  obtain ⟨hsymbols, hstrings⟩ := Prod.mk.inj hrun
  have htext : ∀ y, run.2.text? y = texts.eraseDups[y.raw]? := by
    intro y
    rw [← hstrings, Array.getElem?_toList]
    rfl
  have hsize : run.2.size = texts.eraseDups.length := by
    rw [← hstrings, Array.length_toList]
    rfl
  have hsame := Prod.mk.inj (hlinear.trans hlinear'.symm)
  refine ⟨hstrings, hsymbols, ?_, htext, ?_, ?_, ?_, hlinear, hsame.1, ?_⟩
  · intro i j
    rw [hsymbols, List.getElem?_map, List.getElem?_map]
    refine ⟨fun h => ?_, fun h => by rw [h]⟩
    cases hi : texts[i]? with
    | none =>
      rw [hi] at h
      exact (Option.map_eq_none_iff.mp h.symm).symm
    | some s =>
      obtain ⟨u, hj, hu⟩ := Option.map_eq_some_iff.mp (h.symm.trans (by rw [hi]; rfl))
      have hs : s ∈ texts.eraseDups := List.mem_eraseDups.mpr (List.mem_of_getElem? hi)
      rw [hj, (List.idxOf_inj hs).mp (Symbol.mk.inj hu).symm]
  · intro y
    simp [htext, hsize, List.getElem?_eq_some_iff]
  · intro h y
    exact (sound_empty.internAll texts).mem_buckets_iff
  · intro hlen y hy
    rw [hsymbols] at hy
    obtain ⟨s, hs, rfl⟩ := List.mem_map.mp hy
    exact Nat.lt_of_lt_of_le (List.idxOf_lt_length_of_mem (List.mem_eraseDups.mpr hs)) hlen
  · exact Array.toList_inj.mp hsame.2

/-- All texts have one hash here, and two of them come twice. -/
theorem internAll_colliding :
    let texts := ["x", "y", "x", "z", "y"]
    let run := internAll intern (empty : Interner fun _ => 7) texts
    texts.eraseDups.length ≤ 2 ^ 32 ∧ run.1 = [⟨0⟩, ⟨1⟩, ⟨0⟩, ⟨2⟩, ⟨1⟩] ∧
      run.2.strings.toList = ["x", "y", "z"] ∧ (∀ y ∈ run.1, y.raw < 2 ^ 32) ∧
      run.1 = (internAll intern (empty : Interner textHash) texts).1 := by
  intro texts run
  have hdistinct : texts.eraseDups = ["x", "y", "z"] := by decide +kernel
  have hlen : texts.eraseDups.length ≤ 2 ^ 32 := by rw [hdistinct]; decide
  obtain ⟨hstrings, hsymbols, -, -, -, -, hfit, -, hsame, -⟩ :=
    internAll_empty (fun _ => 7) textHash texts
  refine ⟨hlen, ?_, by rw [← hdistinct]; exact hstrings, hfit hlen, hsame⟩
  rw [hdistinct] at hsymbols
  exact hsymbols

end Interner
end GoTree
