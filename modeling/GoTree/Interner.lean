import Std.Data.TreeMap
import GoTree.Node
/-!
# Interned texts

An interner keeps each text once and names it by the index at which it was first
seen. To find a text again it compares it with the texts of equal hash only.
The hash function is a parameter: no answer depends on it, since two texts of
equal hash are told apart by comparing them.

* `find?_eq_some_iff`: a text is found exactly at the index that holds it.
* `intern_strings`, `text?_intern`: what interning does to the stored texts.
-/
namespace GoTree

/-- Texts by index, with the indices grouped by hash. Mirrors `Interner`. -/
structure Interner (hash : String → UInt64) where
  strings : Array String := #[]
  buckets : Std.TreeMap UInt64 (List Symbol) := ∅
  /-- Every text is listed under its hash. -/
  listed : ∀ (i : Nat) (s : String), strings[i]? = some s → ⟨i⟩ ∈ buckets.getD (hash s) [] := by simp
  /-- No text is stored twice. -/
  distinct : ∀ (i j : Nat) (s : String), strings[i]? = some s → strings[j]? = some s → i = j := by
    simp

namespace Interner

variable {hash : String → UInt64}

/-- The interner that holds nothing. Mirrors `Interner.new`. -/
def empty : Interner hash := {}

/-- Number of texts. Mirrors `Interner.len`. -/
def size (t : Interner hash) : Nat := t.strings.size

/-- The text of a symbol. Mirrors `Interner.try_resolve`. -/
def text? (t : Interner hash) (y : Symbol) : Option String := t.strings[y.raw]?

/-- The symbol of a text that is stored. Mirrors the loop of `Interner.intern`. -/
def find? (t : Interner hash) (s : String) : Option Symbol :=
  (t.buckets.getD (hash s) []).find? fun y => t.text? y == some s

theorem text?_of_find? {t : Interner hash} {s : String} {y : Symbol} (h : t.find? s = some y) :
    t.text? y = some s := by
  have := List.find?_some h
  simpa using this

theorem text?_ne_of_find?_none {t : Interner hash} {s : String} (h : t.find? s = none)
    (y : Symbol) : t.text? y ≠ some s := by
  intro hy
  have hm := t.listed y.raw s hy
  have := List.find?_eq_none.mp h y hm
  simp [hy] at this

theorem find?_eq_some_iff {t : Interner hash} {s : String} {y : Symbol} :
    t.find? s = some y ↔ t.text? y = some s := by
  refine ⟨text?_of_find?, fun hy => ?_⟩
  cases h : t.find? s with
  | none => exact absurd hy (text?_ne_of_find?_none h y)
  | some z =>
    have := t.distinct z.raw y.raw s (text?_of_find? h) hy
    cases y; cases z; simp_all

/-- Appends a text that is not stored yet. Mirrors the rest of `Interner.intern`. -/
def push (t : Interner hash) (s : String) (h : t.find? s = none) : Interner hash where
  strings := t.strings.push s
  buckets := t.buckets.insert (hash s) (t.buckets.getD (hash s) [] ++ [⟨t.strings.size⟩])
  listed i u hu := by
    rw [Std.TreeMap.getD_insert]
    simp only [Std.LawfulEqCmp.compare_eq_iff_eq]
    rw [Array.getElem?_push] at hu
    split at hu
    · rename_i hi
      obtain rfl : s = u := by simpa using hu
      simp [hi]
    · have hm := t.listed i u hu
      split
      · rename_i he
        rw [he]
        exact List.mem_append_left _ hm
      · exact hm
  distinct i j u hi hj := by
    have hnew : ∀ k, t.strings[k]? ≠ some s := fun k => text?_ne_of_find?_none h ⟨k⟩
    rw [Array.getElem?_push] at hi hj
    split at hi <;> split at hj
    · omega
    · obtain rfl : s = u := by simpa using hi
      exact absurd hj (hnew j)
    · obtain rfl : s = u := by simpa using hj
      exact absurd hi (hnew i)
    · exact t.distinct i j u hi hj

/-- The symbol of a text, which is appended if it is not stored yet. Mirrors
`Interner.intern`. -/
def intern (t : Interner hash) (s : String) : Symbol × Interner hash :=
  match h : t.find? s with
  | some y => (y, t)
  | none => (⟨t.strings.size⟩, t.push s h)

theorem intern_of_find? {t : Interner hash} {s : String} {y : Symbol} (h : t.find? s = some y) :
    t.intern s = (y, t) := by
  unfold intern
  split
  · rename_i z hz
    rw [h] at hz
    cases hz
    rfl
  · rename_i hz
    rw [h] at hz
    cases hz

theorem intern_of_find?_none {t : Interner hash} {s : String} (h : t.find? s = none) :
    t.intern s = (⟨t.strings.size⟩, t.push s h) := by
  unfold intern
  split
  · rename_i z hz
    rw [h] at hz
    cases hz
  · rfl

/-- Interning appends a new text and keeps the texts otherwise. -/
theorem intern_strings (t : Interner hash) (s : String) :
    (t.intern s).2.strings = if t.find? s = none then t.strings.push s else t.strings := by
  cases h : t.find? s with
  | none => simp [intern_of_find?_none h, push]
  | some y => simp [intern_of_find? h]

/-- An interned text is read back under its symbol. -/
theorem text?_intern (t : Interner hash) (s : String) :
    (t.intern s).2.text? (t.intern s).1 = some s := by
  cases h : t.find? s with
  | none => simp [intern_of_find?_none h, push, text?]
  | some y => simpa [intern_of_find? h] using text?_of_find? h

end Interner

/-- The hash of a text: its bytes folded by multiplication and exclusive or. -/
def textHash (s : String) : UInt64 :=
  s.toUTF8.data.foldl (fun h b => (h ^^^ b.toUInt64) * 1099511628211) 14695981039346656037

end GoTree
