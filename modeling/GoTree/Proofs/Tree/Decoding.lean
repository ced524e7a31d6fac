import GoTree.Proofs.Text.Quoting
import GoTree.Proofs.Tree.Arrangement
import GoTree.Proofs.Tree.Unfolding
/-!
# Printed trees can be read back

What is printed for a part of a store ends where its own text says it does, and
determines the trees: a construct by its parentheses, a list by its brackets, a
text by its quotes, a word by the delimiter that follows it. So two nodes that
are printed alike, whatever follows, unfold to the same tree.

* `Tag.name_injective`, `ScalarType.name_injective`: names are told apart.
* `Unfolds.append_inj`: the trees of a part can be cut off whatever starts with
  their text.
-/
namespace GoTree

open Text

/-! ## Words -/

/-- Whether a character may stand in a tag or in the name of a scalar: none that
can follow one does. -/
def InWord (c : Char) : Prop := c ≠ ' ' ∧ c ≠ ')' ∧ c ≠ ']'

instance : DecidablePred InWord :=
  fun c => inferInstanceAs (Decidable (c ≠ ' ' ∧ c ≠ ')' ∧ c ≠ ']'))

theorem inWord_of_all {l : List Char} (h : (l.all fun c => decide (InWord c)) = true) :
    ∀ c ∈ l, InWord c := by
  simpa using h

namespace Tag

theorem ofName?_name (t : Tag) : ofName? t.name = some t := by
  have key : ∀ t ∈ all, ofName? t.name = some t := by decide +kernel
  exact key t (mem_all t)

theorem name_injective {t u : Tag} (h : t.name = u.name) : t = u := by
  have ht := ofName?_name t
  rw [h, ofName?_name u] at ht
  exact (Option.some.inj ht).symm

theorem inWord_name (t : Tag) : ∀ c ∈ t.name.toList, InWord c := by
  have key : ∀ t ∈ all, (t.name.toList.all fun c => decide (InWord c)) = true := by decide +kernel
  exact inWord_of_all (key t (mem_all t))

end Tag

namespace ScalarType

theorem ofName?_name (t : ScalarType) (v : t.Value) : t.ofName? (t.name v) = some v := by
  cases t <;> cases v <;> rfl

theorem name_injective {t : ScalarType} {v w : t.Value} (h : t.name v = t.name w) : v = w := by
  have hv := ofName?_name t v
  rw [h, ofName?_name t w] at hv
  exact (Option.some.inj hv).symm

theorem inWord_name (t : ScalarType) (v : t.Value) : ∀ c ∈ (t.name v).toList, InWord c :=
  inWord_of_all (by cases t <;> cases v <;> decide)

/-- No scalar is printed like what is absent. -/
theorem name_ne_nil (t : ScalarType) (v : t.Value) : t.name v ≠ "nil" := by
  cases t <;> cases v <;> decide

end ScalarType

/-! ## The characters of a part -/

theorem Shown.toList_lead (f : Shown) : ∃ l, f.lead.toList = ' ' :: l := by
  unfold Shown.lead
  split <;> simp

namespace Tree

theorem toList_print_node (tag : Tag) (ts : List Tree) :
    (print (.node tag ts)).toList =
      '(' :: (tag.name.toList ++ ((printFields tag.shown ts).toList ++ [')'])) := by
  simp [print_node]

theorem toList_print_list (ts : List Tree) :
    (print (.list ts)).toList = '[' :: ((printItems ts).toList ++ [']']) := by
  simp [print]

theorem toList_print_entry (name : String) (file : Tree) :
    (print (.entry name file)).toList =
      (quote name).toList ++ (':' :: ' ' :: (print file).toList) := by
  simp [print]

theorem toList_printFields_cons (f : Shown) (fs : List Shown) (t : Tree) (ts : List Tree) :
    (printFields (f :: fs) (t :: ts)).toList =
      f.lead.toList ++ ((print t).toList ++ (printFields fs ts).toList) := by
  simp [printFields]

/-- What stands after the first item of a list. -/
def moreItems : List Tree → List Char
  | [] => []
  | t :: ts => ' ' :: (printItems (t :: ts)).toList

theorem toList_printItems_cons (t : Tree) (ts : List Tree) :
    (printItems (t :: ts)).toList = (print t).toList ++ moreItems ts := by
  cases ts <;> simp [printItems, moreItems]

end Tree

namespace Part

/-- What is printed for the trees of a part, fields as in `shown`. -/
def chars (shown : List Shown) : (p : Part) → p.Shape → List Char
  | node _, t | value _, t => (Tree.print t).toList
  | values _, ts => (Tree.printFields shown ts).toList
  | items _, ts | entries, ts => (Tree.printItems ts).toList

/-- Whether `shown` has a place for every field of a part. -/
def Places (shown : List Shown) : Part → Prop
  | values fs => shown.length = fs.length
  | node _ | value _ | items _ | entries => True

/-- What may follow a part: a delimiter after a value, the closing parenthesis
after fields, the closing bracket after items. -/
def Ends : Part → List Char → Prop
  | node _, x | value _, x => Cut InWord x
  | values _, x => x.head? = some ')'
  | items _, x | entries, x => x.head? = some ']'

end Part

theorem cut_of_head? {c : Char} {x : List Char} (hc : ¬ InWord c) (h : x.head? = some c) :
    Cut InWord x := by
  intro d hd
  rw [h] at hd
  obtain rfl : c = d := by simpa using hd
  exact hc

theorem cut_moreItems (ts : List Tree) {x : List Char} (hx : x.head? = some ']') :
    Cut InWord (Tree.moreItems ts ++ x) := by
  cases ts with
  | nil => exact cut_of_head? (by decide) hx
  | cons t ts => exact cut_of_head? (c := ' ') (by decide) (by simp [Tree.moreItems])

theorem cut_printFields (fs : List Shown) (ts : List Tree) {x : List Char}
    (hx : x.head? = some ')') : Cut InWord ((Tree.printFields fs ts).toList ++ x) := by
  match fs, ts with
  | [], _ => exact cut_of_head? (c := ')') (by decide) (by simpa [Tree.printFields] using hx)
  | _ :: _, [] => exact cut_of_head? (c := ')') (by decide) (by simpa [Tree.printFields] using hx)
  | f :: fs, t :: ts =>
    obtain ⟨l, hl⟩ := f.toList_lead
    rw [Tree.toList_printFields_cons, hl]
    exact cut_of_head? (c := ' ') (by decide) (by simp)

/-- The tag of a construct is read up to its first field or its end. -/
theorem print_node_append_inj {t u : Tag} {ts us : List Tree} {x y : List Char}
    (h : (Tree.print (.node t ts)).toList ++ x = (Tree.print (.node u us)).toList ++ y) :
    t = u ∧ (Tree.printFields t.shown ts).toList ++ ')' :: x =
      (Tree.printFields u.shown us).toList ++ ')' :: y := by
  simp only [Tree.toList_print_node, List.cons_append, List.append_assoc, List.cons.injEq,
    true_and, List.nil_append] at h
  obtain ⟨hname, hrest⟩ := word_append_inj t.inWord_name u.inWord_name
    (cut_printFields _ _ (by simp)) (cut_printFields _ _ (by simp)) h
  exact ⟨Tag.name_injective (String.toList_inj.mp hname), hrest⟩

theorem print_list_append_inj {ts us : List Tree} {x y : List Char}
    (h : (Tree.print (.list ts)).toList ++ x = (Tree.print (.list us)).toList ++ y) :
    (Tree.printItems ts).toList ++ ']' :: x = (Tree.printItems us).toList ++ ']' :: y := by
  simpa [Tree.toList_print_list] using h

theorem moreItems_append_inj {ts us : List Tree} {x y : List Char} (hx : x.head? = some ']')
    (hy : y.head? = some ']') (h : Tree.moreItems ts ++ x = Tree.moreItems us ++ y) :
    (Tree.printItems ts).toList ++ x = (Tree.printItems us).toList ++ y := by
  cases ts <;> cases us
  · exact h
  · rw [Tree.moreItems, List.nil_append] at h
    simp [h, Tree.moreItems] at hx
  · rw [Tree.moreItems, Tree.moreItems, List.nil_append] at h
    simp [← h] at hy
  · simpa [Tree.moreItems] using h

/-- What stands for an absent value is no scalar's name. -/
theorem nil_append_ne_name {t : ScalarType} (v : t.Value) {x y : List Char} (hx : Cut InWord x)
    (hy : Cut InWord y) : "nil".toList ++ x ≠ (t.name v).toList ++ y := by
  intro h
  obtain ⟨hname, -⟩ := word_append_inj (inWord_of_all (by decide)) (t.inWord_name v) hx hy h
  exact t.name_ne_nil v (String.toList_inj.mp hname).symm

namespace Store

theorem Unfolds.print_head {s : Store} {k : Kind} {h : Handle k} {t : Tree}
    (ht : s.Unfolds (.node k) h t) : ∃ l, t.print.toList = '(' :: l := by
  cases ht with
  | node hc hv => exact ⟨_, Tree.toList_print_node _ _⟩

/-- **Decoding.** Two stores that print a part alike, each with something after
it, hold the same trees there, and what comes after is the same. -/
theorem Unfolds.append_inj {A B : Store} {p : Part} {v w : p.Value} {t u : p.Shape}
    (ht : A.Unfolds p v t) (hu : B.Unfolds p w u) (shown : List Shown) (hs : p.Places shown)
    {x y : List Char} (hx : p.Ends x) (hy : p.Ends y)
    (h : p.chars shown t ++ x = p.chars shown u ++ y) : t = u ∧ x = y := by
  induction ht generalizing shown x y with
  | @node k a c ts hc hv ih =>
    cases hu with
    | @node _ _ c' us hc' hv' =>
      obtain ⟨tag, vs, hk⟩ := c
      obtain ⟨tag', ws, hk'⟩ := c'
      obtain ⟨rfl, hrest⟩ := print_node_append_inj h
      obtain ⟨rfl, hxy⟩ := ih hv' tag.shown tag.length_shown (by simp [Part.Ends])
        (by simp [Part.Ends]) hrest
      exact ⟨rfl, (List.cons.inj hxy).2⟩
  | slot _ ih =>
    cases hu with
    | slot hu => exact ih hu shown hs hx hy h
  | optNone =>
    cases hu with
    | optNone => exact ⟨rfl, List.append_cancel_left h⟩
    | optSome hu =>
      obtain ⟨l, hl⟩ := hu.print_head
      simp [Part.chars, hl, Tree.print] at h
  | optSome hn ih =>
    cases hu with
    | optNone =>
      obtain ⟨l, hl⟩ := hn.print_head
      simp [Part.chars, hl, Tree.print] at h
    | optSome hu => exact ih hu shown hs hx hy h
  | listNone =>
    cases hu with
    | listNone => exact ⟨rfl, List.append_cancel_left h⟩
    | listSome _ _ => simp [Part.chars, Tree.print] at h
  | listSome _ _ ih =>
    cases hu with
    | listNone => simp [Part.chars, Tree.print] at h
    | listSome _ hu =>
      obtain ⟨rfl, hxy⟩ := ih hu [] trivial (by simp [Part.Ends]) (by simp [Part.Ends])
        (print_list_append_inj h)
      exact ⟨rfl, (List.cons.inj hxy).2⟩
  | package _ _ ih =>
    cases hu with
    | package _ hu =>
      obtain ⟨rfl, hxy⟩ := ih hu [] trivial (by simp [Part.Ends]) (by simp [Part.Ends])
        (print_list_append_inj h)
      exact ⟨rfl, (List.cons.inj hxy).2⟩
  | text _ =>
    cases hu with
    | text _ =>
      obtain ⟨rfl, hxy⟩ := quote_append_inj h
      exact ⟨rfl, hxy⟩
  | @scalar ty a =>
    cases hu with
    | scalar =>
      obtain ⟨hname, hxy⟩ := word_append_inj (ty.inWord_name a) (ty.inWord_name w) hx hy h
      exact ⟨congrArg Tree.word (String.toList_inj.mp hname), hxy⟩
  | optScalarNone =>
    cases hu with
    | optScalarNone => exact ⟨rfl, List.append_cancel_left h⟩
    | optScalarSome b => exact absurd h (nil_append_ne_name b hx hy)
  | @optScalarSome ty a =>
    cases hu with
    | optScalarNone => exact absurd h.symm (nil_append_ne_name a hy hx)
    | optScalarSome b =>
      obtain ⟨hname, hxy⟩ := word_append_inj (ty.inWord_name a) (ty.inWord_name b) hx hy h
      exact ⟨congrArg Tree.word (String.toList_inj.mp hname), hxy⟩
  | valuesNil =>
    cases hu with
    | valuesNil => exact ⟨rfl, List.append_cancel_left h⟩
  | valuesCons _ _ ih ihs =>
    cases hu with
    | valuesCons hu hus =>
      cases shown with
      | nil => cases hs
      | cons f shown =>
        simp only [Part.chars, Tree.toList_printFields_cons, List.append_assoc] at h
        obtain ⟨rfl, hrest⟩ := ih hu [] trivial (cut_printFields _ _ hx)
          (cut_printFields _ _ hy) (List.append_cancel_left h)
        obtain ⟨rfl, hxy⟩ := ihs hus shown (Nat.succ.inj hs) hx hy hrest
        exact ⟨rfl, hxy⟩
  | itemsNil =>
    cases hu with
    | itemsNil => exact ⟨rfl, h⟩
    | itemsCons hu _ =>
      obtain ⟨l, hl⟩ := hu.print_head
      simp only [Part.chars, Tree.toList_printItems_cons, hl] at h
      simp [Part.Ends, Tree.printItems] at hx h
      simp [h] at hx
  | itemsCons hn _ ih ihs =>
    cases hu with
    | itemsNil =>
      obtain ⟨l, hl⟩ := hn.print_head
      simp only [Part.chars, Tree.toList_printItems_cons, hl] at h
      simp [Part.Ends, Tree.printItems] at hy h
      simp [← h] at hy
    | itemsCons hu hus =>
      simp only [Part.chars, Tree.toList_printItems_cons, List.append_assoc] at h
      obtain ⟨rfl, hrest⟩ := ih hu [] trivial (cut_moreItems _ hx)
        (cut_moreItems _ hy) h
      obtain ⟨rfl, hxy⟩ := ihs hus shown hs hx hy (moreItems_append_inj hx hy hrest)
      exact ⟨rfl, hxy⟩
  | entriesNil =>
    cases hu with
    | entriesNil => exact ⟨rfl, h⟩
    | entriesCons _ _ _ =>
      simp only [Part.chars, Tree.toList_printItems_cons, Tree.toList_print_entry,
        toList_quote] at h
      simp [Part.Ends, Tree.printItems] at hx h
      simp [h] at hx
  | entriesCons _ _ _ ih ihs =>
    cases hu with
    | entriesNil =>
      simp only [Part.chars, Tree.toList_printItems_cons, Tree.toList_print_entry,
        toList_quote] at h
      simp [Part.Ends, Tree.printItems] at hy h
      simp [← h] at hy
    | entriesCons _ hu hus =>
      simp only [Part.chars, Tree.toList_printItems_cons, Tree.toList_print_entry,
        List.append_assoc] at h
      obtain ⟨rfl, hfile⟩ := quote_append_inj h
      simp only [List.cons_append, List.cons.injEq, true_and] at hfile
      obtain ⟨rfl, hrest⟩ := ih hu [] trivial (cut_moreItems _ hx)
        (cut_moreItems _ hy) hfile
      obtain ⟨rfl, hxy⟩ := ihs hus shown hs hx hy (moreItems_append_inj hx hy hrest)
      exact ⟨rfl, hxy⟩

end Store
end GoTree
