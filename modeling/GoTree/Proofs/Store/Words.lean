import GoTree.Proofs.Store.Growth
/-!
# Names of 32 bits

A store hands out its names as 32-bit words. The index of a new node, the start and
the length of a new list and the index of a new text are cut to 32 bits without a
check, and the end of a range is a sum of two words, which wraps round. In the rest
of the library a name is the number itself. The two agree as long as the store fits
its names.

* `WordRange.items?_of_exact`, `items?_of_wraps`: what a range of words reads.
* `Fits.rangeAt?_eq`: in a store that fits, every range reads as its numbers do,
  whoever made it.
* `Grows.fits`: a store that fits now did so all along, so no name on the way was cut.
* `fresh_alloc_iff`, `rangeAt?_allocList_iff`: past the limit the word of a new node
  names an older one, and a list that ends there cannot be read back.
-/
namespace GoTree

/-! ## Words -/

/-- A node as it is handed out. Mirrors `Id`. -/
structure NodeId where
  kind : Kind
  word : UInt32
  deriving DecidableEq, Repr

/-- The word of a node. Mirrors the cast in `SpannedArena.alloc`. -/
def Node.toId (n : Node) : NodeId := ⟨n.kind, UInt32.ofNat n.raw⟩

/-- The node that a word is read as. Mirrors `Id.to_usize`. -/
def NodeId.node (i : NodeId) : Node := ⟨i.kind, i.word.toNat⟩

/-- A range as it is handed out. Mirrors `ListRef`. -/
structure WordRange where
  start : UInt32
  len : UInt32
  deriving DecidableEq, Repr

/-- One past the last index, wrapped round at 2^32. Mirrors `ListRef.end`. -/
def WordRange.stop (r : WordRange) : UInt32 := r.start + r.len

/-- The words of a range. Mirrors the casts in `AstArena.push_list`. -/
def ListRef.words (r : ListRef) : WordRange := ⟨UInt32.ofNat r.start, UInt32.ofNat r.len⟩

/-- The range with the numbers of its words. -/
def WordRange.listRef (r : WordRange) : ListRef := ⟨r.start.toNat, r.len.toNat⟩

/-- The items in a range of a buffer, if it does not end before it starts or past the
buffer. Mirrors `ListStore.try_list`; `ListStore.list` gives the same items and stops
the program where this is `none`. -/
def WordRange.items? {α : Type} (r : WordRange) (buffer : Array α) : Option (List α) :=
  if r.start ≤ r.stop ∧ r.stop.toNat ≤ buffer.size then
    some (buffer.extract r.start.toNat r.stop.toNat).toList
  else none

/-- The word of a symbol. Mirrors the cast in `Interner.intern`. -/
def Symbol.word (y : Symbol) : UInt32 := UInt32.ofNat y.raw

namespace Store

/-- The nodes in a range of words. -/
def rangeAt? (s : Store) (k : Kind) (r : WordRange) : Option (List (Handle k)) :=
  r.items? (s.lists.get k)

end Store

/-! ## Names that words hold -/

/-- The word of a node is its index. -/
def Node.Exact (n : Node) : Prop := n.raw < UInt32.size

/-- The words of a range and their sum are what they are cut from. -/
def ListRef.Exact (r : ListRef) : Prop := r.stop < UInt32.size

/-- The word of a symbol is its index. -/
def Symbol.Exact (y : Symbol) : Prop := y.raw < UInt32.size

theorem ListRef.listRef_words {r : ListRef} (hstart : r.start < UInt32.size)
    (hlen : r.len < UInt32.size) : r.words.listRef = r := by
  simp only [words, WordRange.listRef, UInt32.toNat_ofNat_of_lt' hstart,
    UInt32.toNat_ofNat_of_lt' hlen]

theorem ListRef.Exact.listRef_words {r : ListRef} (h : r.Exact) : r.words.listRef = r := by
  unfold Exact stop at h
  exact r.listRef_words (by omega) (by omega)

namespace WordRange

variable {α : Type} {r : WordRange} {buffer : Array α}

theorem stop_listRef : r.listRef.stop = r.start.toNat + r.len.toNat := rfl

theorem toNat_stop (h : r.listRef.Exact) : r.stop.toNat = r.listRef.stop := by
  rw [ListRef.Exact, stop_listRef] at h
  rw [stop, UInt32.toNat_add, Nat.mod_eq_of_lt h, stop_listRef]

/-- A range whose end is a word reads what its numbers say. -/
theorem items?_of_exact (h : r.listRef.Exact) : r.items? buffer =
    if r.listRef.stop ≤ buffer.size then
      some (buffer.extract r.listRef.start r.listRef.stop).toList
    else none := by
  have hstart : r.start ≤ r.stop := by
    rw [UInt32.le_iff_toNat_le, toNat_stop h]
    exact Nat.le_add_right _ _
  simp only [items?, hstart, true_and, toNat_stop h]
  rfl

/-- A range whose end wraps round ends before it starts, and reads nothing. -/
theorem items?_of_wraps (h : ¬ r.listRef.Exact) : r.items? buffer = none := by
  have hwrap : ¬ r.start ≤ r.stop := by
    have hs := r.start.toNat_lt
    have hl := r.len.toNat_lt
    rw [ListRef.Exact, stop_listRef, UInt32.size] at h
    rw [UInt32.le_iff_toNat_le, stop, UInt32.toNat_add]
    omega
  simp [items?, hwrap]

end WordRange

namespace Store

/-! ## Stores that fit their names -/

/-- Every node, every end of a list and every text of the store has a word. -/
structure Fits (s : Store) : Prop where
  nodes : ∀ k, (s.nodes.get k).size ≤ UInt32.size
  lists : ∀ k, (s.lists.get k).size < UInt32.size
  entries : s.entries.size < UInt32.size
  strings : s.interner.strings.size ≤ UInt32.size

/-- A store that fits its names did so before it grew. -/
theorem Grows.fits {s t : Store} (g : s.Grows t) (h : t.Fits) : s.Fits where
  nodes k := Nat.le_trans (g.size_nodes k) (h.nodes k)
  lists k := Nat.lt_of_le_of_lt (g.size_lists k) (h.lists k)
  entries := Nat.lt_of_le_of_lt g.size_entries h.entries
  strings := Nat.le_trans (by simpa using g.strings.length_le) h.strings

theorem rangeAt?_of_exact {s : Store} {k : Kind} {r : WordRange} (h : r.listRef.Exact) :
    s.rangeAt? k r = (s.listAt k r.listRef).toOption := by
  rw [rangeAt?, WordRange.items?_of_exact h, listAt]
  split <;> rfl

/-- **In a store that fits, words are as good as numbers.** Every range of words reads
what its numbers say. One that wraps round reads nothing, and lies past the end of
the buffer. -/
theorem Fits.rangeAt?_eq {s : Store} (hs : s.Fits) (k : Kind) (r : WordRange) :
    s.rangeAt? k r = (s.listAt k r.listRef).toOption := by
  by_cases h : r.listRef.Exact
  · exact rangeAt?_of_exact h
  · have hpast : ¬ r.listRef.stop ≤ (s.lists.get k).size := by
      have := hs.lists k
      unfold ListRef.Exact at h
      omega
    rw [rangeAt?, WordRange.items?_of_wraps h, listAt, if_neg hpast]
    rfl

/-! ## Past the limit -/

/-- The word of a new node is new as long as it is exact. From then on it names a node
that is there already. -/
theorem fresh_alloc_iff (s : Store) {k : Kind} (c : Content k) (span : Span) :
    s.content? (s.alloc c span).1.node.toId.node.handle = none ↔
      (s.alloc c span).1.node.Exact := by
  have hword : (s.alloc c span).1.node.toId.node.handle.raw =
      (s.nodes.get k).size % UInt32.size := UInt32.toNat_ofNat' ..
  have hnew : (s.alloc c span).1.node.raw = (s.nodes.get k).size := rfl
  rw [← Option.not_isSome_iff_eq_none, content?_isSome, hword, Node.Exact, hnew, UInt32.size]
  change ¬ _ < (s.nodes.get k).size ↔ _
  omega

/-- A new list whose start and length are words can be read back exactly if its end is
a word too. -/
theorem rangeAt?_allocList_iff (s : Store) (k : Kind) (items : List (Handle k))
    (hstart : (s.lists.get k).size < UInt32.size) (hlen : items.length < UInt32.size) :
    (s.allocList k items).2.rangeAt? k (s.allocList k items).1.words = some items ↔
      (s.allocList k items).1.Exact := by
  have hwords : (s.allocList k items).1.words.listRef = (s.allocList k items).1 :=
    ListRef.listRef_words hstart hlen
  by_cases h : (s.allocList k items).1.Exact
  · refine iff_of_true ?_ h
    rw [rangeAt?_of_exact (by rwa [hwords]), hwords, listAt_allocList]
    rfl
  · refine iff_of_false ?_ h
    rw [rangeAt?, WordRange.items?_of_wraps (by rwa [hwords])]
    simp

end Store
end GoTree
