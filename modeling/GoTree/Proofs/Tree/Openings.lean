import GoTree.Proofs.Tree.Decoding
/-!
# The constructs that a printed tree opens

A printed text is read from left to right: a parenthesis opens a construct whose
tag follows, a word before a colon is the label of a field of the construct around
it, and what stands in quotes is passed over. `openings` lists the constructs that
the text opens, each with those it stands in. It looks at the characters only.

* `Unfolds.reads`: reading what is printed for a part of a store finds the
  constructs of its trees.
* `openings_print`: the same for the whole text.
-/
namespace GoTree

open Text

/-- A construct that a text opens: its tag, and the constructs that it stands in,
the nearest first, each with its last label before it. -/
structure Opening where
  tag : String
  inside : List (String × String)
  deriving DecidableEq, Repr

/-- What the characters read last belong to. -/
inductive Lexeme where
  /-- A label, the name of a scalar or nothing yet. -/
  | word (cs : List Char)
  /-- The tag of a construct. -/
  | tag (cs : List Char)
  | quoted
  /-- Between quotes after a backslash. -/
  | escaped
  deriving DecidableEq, Repr

/-- How far a text was read. -/
structure Reading where
  lexeme : Lexeme
  /-- The constructs that are open, the nearest first, each with its last label. -/
  inside : List (String × String)
  /-- The constructs opened so far. -/
  found : List Opening
  deriving DecidableEq, Repr

/-- A word before a colon is a label; the colon after a quoted name has none. -/
def relabel (cs : List Char) : List (String × String) → List (String × String)
  | [] => []
  | (tag, label) :: outer => (tag, if cs = [] then label else String.ofList cs) :: outer

namespace Reading

/-- Reads a character outside of tags and quotes. -/
def readPlain (r : Reading) (cs : List Char) (c : Char) : Reading :=
  if c = '(' then { r with lexeme := .tag [] }
  else if c = ')' then { r with lexeme := .word [], inside := r.inside.tail }
  else if c = ':' then { r with lexeme := .word [], inside := relabel cs r.inside }
  else if c = '"' then { r with lexeme := .quoted }
  else if c = ' ' ∨ c = '[' ∨ c = ']' then { r with lexeme := .word [] }
  else { r with lexeme := .word (cs ++ [c]) }

/-- Opens a construct whose tag was read. -/
def enter (r : Reading) (tag : String) : Reading :=
  { r with inside := (tag, "") :: r.inside, found := r.found ++ [⟨tag, r.inside⟩] }

/-- Reads a character. -/
def read (r : Reading) (c : Char) : Reading :=
  match r.lexeme with
  | .word cs => r.readPlain cs c
  | .tag cs =>
    if c = ' ' ∨ c = ')' then (r.enter (String.ofList cs)).readPlain [] c
    else { r with lexeme := .tag (cs ++ [c]) }
  | .quoted =>
    if c = '"' then { r with lexeme := .word [] }
    else if c = '\\' then { r with lexeme := .escaped }
    else r
  | .escaped => { r with lexeme := .quoted }

end Reading

/-- The constructs that a text opens, from left to right. -/
def openings (text : String) : List Opening :=
  (text.toList.foldl Reading.read ⟨.word [], [], []⟩).found

/-! ## Words and quotes -/

/-- A character that belongs to a label or to the name of a scalar. -/
def Plain (c : Char) : Prop :=
  c ≠ '(' ∧ c ≠ ')' ∧ c ≠ ':' ∧ c ≠ '"' ∧ c ≠ ' ' ∧ c ≠ '[' ∧ c ≠ ']'

instance : DecidablePred Plain := fun c => inferInstanceAs (Decidable
  (c ≠ '(' ∧ c ≠ ')' ∧ c ≠ ':' ∧ c ≠ '"' ∧ c ≠ ' ' ∧ c ≠ '[' ∧ c ≠ ']'))

theorem plain_of_all {l : List Char} (h : (l.all fun c => decide (Plain c)) = true) :
    ∀ c ∈ l, Plain c := by
  simpa using h

theorem ScalarType.plain_name (t : ScalarType) (v : t.Value) : ∀ c ∈ (t.name v).toList, Plain c :=
  plain_of_all (by cases t <;> cases v <;> decide)

section
variable {inside : List (String × String)} {found : List Opening}

theorem foldl_read_word : ∀ {w : List Char} (cs : List Char), (∀ c ∈ w, Plain c) →
    w.foldl Reading.read ⟨.word cs, inside, found⟩ = ⟨.word (cs ++ w), inside, found⟩
  | [], cs, _ => by simp
  | c :: w, cs, h => by
    obtain ⟨h₁, h₂, h₃, h₄, h₅, h₆, h₇⟩ := h c List.mem_cons_self
    have ih := foldl_read_word (cs ++ [c]) fun d hd => h d (List.mem_cons_of_mem _ hd)
    rw [List.append_assoc, List.singleton_append] at ih
    simpa [Reading.read, Reading.readPlain, h₁, h₂, h₃, h₄, h₅, h₆, h₇] using ih

theorem foldl_read_tag : ∀ {w : List Char} (cs : List Char), (∀ c ∈ w, InWord c) →
    w.foldl Reading.read ⟨.tag cs, inside, found⟩ = ⟨.tag (cs ++ w), inside, found⟩
  | [], cs, _ => by simp
  | c :: w, cs, h => by
    obtain ⟨h₁, h₂, -⟩ := h c List.mem_cons_self
    have ih := foldl_read_tag (cs ++ [c]) fun d hd => h d (List.mem_cons_of_mem _ hd)
    rw [List.append_assoc, List.singleton_append] at ih
    simpa [Reading.read, h₁, h₂] using ih

theorem foldl_read_quoted : ∀ {w : List Char}, (∀ c ∈ w, c ≠ '"' ∧ c ≠ '\\') →
    w.foldl Reading.read ⟨.quoted, inside, found⟩ = ⟨.quoted, inside, found⟩
  | [], _ => rfl
  | c :: w, h => by
    obtain ⟨h₁, h₂⟩ := h c List.mem_cons_self
    simpa [Reading.read, h₁, h₂] using
      foldl_read_quoted fun d hd => h d (List.mem_cons_of_mem _ hd)

/-- An escaped character does not end the quotes. -/
theorem foldl_read_escape (c : Char) :
    (escape c).foldl Reading.read ⟨.quoted, inside, found⟩ = ⟨.quoted, inside, found⟩ := by
  rcases escape_cases c with ⟨hc, hb, hq⟩ | ⟨e, hc, -⟩ | hc <;> rw [hc]
  · exact foldl_read_quoted (by simp [hb, hq])
  · rfl
  · -- a code point: the backslash takes the letter with it, digits and braces follow
    have hrest : ∀ d ∈ '\x7b' :: Nat.toDigits 16 c.toNat ++ ['\x7d'], d ≠ '"' ∧ d ≠ '\\' := by
      intro d hd
      simp only [List.cons_append, List.mem_cons, List.mem_append, List.not_mem_nil,
        or_false] at hd
      rcases hd with rfl | hd | rfl
      · decide
      · exact ⟨ne_of_mem_toDigits hd (by decide), ne_of_mem_toDigits hd (by decide)⟩
      · decide
    change ('\x7b' :: Nat.toDigits 16 c.toNat ++ ['\x7d']).foldl Reading.read
      ⟨.quoted, inside, found⟩ = _
    exact foldl_read_quoted hrest

theorem foldl_read_quote (text : String) (cs : List Char) :
    (quote text).toList.foldl Reading.read ⟨.word cs, inside, found⟩ =
      ⟨.word [], inside, found⟩ := by
  have hbody : ∀ l : List Char,
      (l.flatMap escape).foldl Reading.read ⟨.quoted, inside, found⟩ =
        ⟨.quoted, inside, found⟩ := by
    intro l
    induction l with
    | nil => rfl
    | cons c l ih => rw [List.flatMap_cons, List.foldl_append, foldl_read_escape, ih]
  rw [toList_quote, List.foldl_cons, List.foldl_append]
  change [_].foldl Reading.read ((text.toList.flatMap escape).foldl Reading.read
    ⟨.quoted, inside, found⟩) = _
  rw [hbody]
  rfl

/-! ## Labels -/

/-- A label that can be read back, or none. -/
def Shown.Readable (f : Shown) : Prop :=
  ∀ l, f.label = some l → l ≠ "" ∧ ∀ c ∈ l.toList, Plain c

theorem Tag.readable_shown (t : Tag) : ∀ f ∈ t.shown, f.Readable := by
  have key : ∀ t ∈ Tag.all, ∀ f ∈ t.shown, ∀ l ∈ f.label,
      l ≠ "" ∧ (l.toList.all fun c => decide (Plain c)) = true := by decide +kernel
  intro f hf l hl
  obtain ⟨hne, hplain⟩ := key t t.mem_all f hf l hl
  exact ⟨hne, plain_of_all hplain⟩

/-- What stands before the value of a field leaves its label. -/
theorem foldl_read_lead {f : Shown} (hf : f.Readable) (cs : List Char) (tag label : String) :
    f.lead.toList.foldl Reading.read ⟨.word cs, (tag, label) :: inside, found⟩ =
      ⟨.word [], (tag, f.label.getD label) :: inside, found⟩ := by
  unfold Shown.lead
  cases hl : f.label with
  | none => rfl
  | some l =>
    obtain ⟨hne, hplain⟩ := hf l hl
    have hword : l.toList.foldl Reading.read ⟨.word [], (tag, label) :: inside, found⟩ =
        ⟨.word l.toList, (tag, label) :: inside, found⟩ := foldl_read_word [] hplain
    simp only [String.toList_append, List.foldl_append]
    change [':'].foldl Reading.read (l.toList.foldl Reading.read
      ⟨.word [], (tag, label) :: inside, found⟩) = _
    rw [hword]
    simp [Reading.read, Reading.readPlain, relabel, hne]

end

/-! ## The constructs of a tree -/

namespace Tree

mutual

/-- The constructs of a tree in printed order, where `inside` is what it stands in. -/
def openings (inside : List (String × String)) : Tree → List Opening
  | .node tag fields => ⟨tag.name, inside⟩ :: openingsFields inside tag.name "" tag.shown fields
  | .list items => openingsItems inside items
  | .entry _ file => openings inside file
  | .absent | .text _ | .word _ => []

/-- Those of the fields of a construct, where `label` is the last label before them. -/
def openingsFields (inside : List (String × String)) (tag label : String) :
    List Shown → List Tree → List Opening
  | f :: fs, t :: ts =>
    openings ((tag, f.label.getD label) :: inside) t ++
      openingsFields inside tag (f.label.getD label) fs ts
  | _, _ => []

def openingsItems (inside : List (String × String)) : List Tree → List Opening
  | [] => []
  | t :: ts => openings inside t ++ openingsItems inside ts

end

end Tree

/-- Reading what is printed for the trees of a part finds their constructs. -/
def Part.Reads : (p : Part) → p.Shape → Prop
  | .node _, t | .value _, t => ∀ inside found, ∃ cs,
    (Tree.print t).toList.foldl Reading.read ⟨.word [], inside, found⟩ =
      ⟨.word cs, inside, found ++ Tree.openings inside t⟩
  | .values fs, ts => ∀ shown : List Shown, shown.length = fs.length →
    (∀ f ∈ shown, f.Readable) → ∀ cs tag label inside found, ∃ cs' label',
    (Tree.printFields shown ts).toList.foldl Reading.read
        ⟨.word cs, (tag, label) :: inside, found⟩ =
      ⟨.word cs', (tag, label') :: inside,
        found ++ Tree.openingsFields inside tag label shown ts⟩
  | .items _, ts | .entries, ts => ∀ inside found, ∃ cs,
    (Tree.printItems ts).toList.foldl Reading.read ⟨.word [], inside, found⟩ =
      ⟨.word cs, inside, found ++ Tree.openingsItems inside ts⟩

/-- The end of a tag opens the construct. -/
theorem foldl_read_enter {tag : List Char} {inside : List (String × String)}
    {found : List Opening} {c : Char} (hc : c = ' ' ∨ c = ')') (rest : List Char) :
    (c :: rest).foldl Reading.read ⟨.tag tag, inside, found⟩ =
      (c :: rest).foldl Reading.read
        ⟨.word [], (String.ofList tag, "") :: inside, found ++ [⟨String.ofList tag, inside⟩]⟩ := by
  simp [Reading.read, Reading.enter, hc]
  rfl

theorem foldl_read_node {tag : Tag} {ts : List Tree} {inside : List (String × String)}
    (h : (Part.values tag.fields).Reads ts) (found : List Opening) :
    (Tree.print (.node tag ts)).toList.foldl Reading.read ⟨.word [], inside, found⟩ =
      ⟨.word [], inside, found ++ Tree.openings inside (.node tag ts)⟩ := by
  obtain ⟨cs, label, hfields⟩ := h tag.shown tag.length_shown tag.readable_shown [] tag.name ""
    inside (found ++ [⟨tag.name, inside⟩])
  -- after the tag comes the space before a field or the closing parenthesis
  have hrest : ∃ c rest, (c = ' ' ∨ c = ')') ∧
      (Tree.printFields tag.shown ts).toList ++ [')'] = c :: rest := by
    match tag.shown, ts with
    | [], _ => exact ⟨')', [], .inr rfl, by simp [Tree.printFields]⟩
    | _ :: _, [] => exact ⟨')', [], .inr rfl, by simp [Tree.printFields]⟩
    | f :: fs, t :: ts =>
      obtain ⟨l, hl⟩ := f.toList_lead
      exact ⟨' ', _, .inl rfl, by rw [Tree.toList_printFields_cons, hl]; rfl⟩
  obtain ⟨c, rest, hc, hrest⟩ := hrest
  rw [Tree.toList_print_node, List.foldl_cons, List.foldl_append]
  calc ((Tree.printFields tag.shown ts).toList ++ [')']).foldl Reading.read
        (tag.name.toList.foldl Reading.read ⟨.tag [], inside, found⟩)
      _ = ((Tree.printFields tag.shown ts).toList ++ [')']).foldl Reading.read
          ⟨.tag tag.name.toList, inside, found⟩ := by
        rw [foldl_read_tag [] tag.inWord_name, List.nil_append]
      _ = ((Tree.printFields tag.shown ts).toList ++ [')']).foldl Reading.read
          ⟨.word [], (tag.name, "") :: inside, found ++ [⟨tag.name, inside⟩]⟩ := by
        rw [hrest, foldl_read_enter hc, String.ofList_toList]
      _ = [')'].foldl Reading.read ⟨.word cs, (tag.name, label) :: inside,
          found ++ [⟨tag.name, inside⟩] ++
            Tree.openingsFields inside tag.name "" tag.shown ts⟩ := by
        rw [List.foldl_append, hfields]
      _ = ⟨.word [], inside, found ++ Tree.openings inside (.node tag ts)⟩ := by
        simp [Reading.read, Reading.readPlain, Tree.openings]

theorem foldl_read_list {ts : List Tree} {inside : List (String × String)} {found : List Opening}
    {cs : List Char} (h : (Tree.printItems ts).toList.foldl Reading.read
      ⟨.word [], inside, found⟩ = ⟨.word cs, inside, found ++ Tree.openingsItems inside ts⟩) :
    (Tree.print (.list ts)).toList.foldl Reading.read ⟨.word [], inside, found⟩ =
      ⟨.word [], inside, found ++ Tree.openings inside (.list ts)⟩ := by
  rw [Tree.toList_print_list, List.foldl_cons, List.foldl_append]
  change [']'].foldl Reading.read (List.foldl Reading.read ⟨.word [], inside, found⟩ _) = _
  rw [h]
  rfl

theorem relabel_nil (inside : List (String × String)) : relabel [] inside = inside := by
  cases inside <;> rfl

theorem foldl_read_entry {name : String} {file : Tree} {inside : List (String × String)}
    {found : List Opening} {cs : List Char}
    (h : (Tree.print file).toList.foldl Reading.read ⟨.word [], inside, found⟩ =
      ⟨.word cs, inside, found ++ Tree.openings inside file⟩) :
    (Tree.print (.entry name file)).toList.foldl Reading.read ⟨.word [], inside, found⟩ =
      ⟨.word cs, inside, found ++ Tree.openings inside (.entry name file)⟩ := by
  rw [Tree.toList_print_entry, List.foldl_append, foldl_read_quote, List.foldl_cons,
    List.foldl_cons]
  change List.foldl Reading.read ⟨.word [], relabel [] inside, found⟩ _ = _
  rw [relabel_nil, h, Tree.openings]

/-- The items of a list are read one after the other. -/
theorem foldl_read_items {t : Tree} {ts : List Tree} {inside : List (String × String)}
    {found : List Opening} {cs : List Char}
    (h : (Tree.print t).toList.foldl Reading.read ⟨.word [], inside, found⟩ =
      ⟨.word cs, inside, found ++ Tree.openings inside t⟩)
    (hs : ∀ found, ∃ cs, (Tree.printItems ts).toList.foldl Reading.read
      ⟨.word [], inside, found⟩ = ⟨.word cs, inside, found ++ Tree.openingsItems inside ts⟩) :
    ∃ cs, (Tree.printItems (t :: ts)).toList.foldl Reading.read ⟨.word [], inside, found⟩ =
      ⟨.word cs, inside, found ++ Tree.openingsItems inside (t :: ts)⟩ := by
  rw [Tree.toList_printItems_cons, List.foldl_append, h, Tree.openingsItems,
    ← List.append_assoc]
  cases ts with
  | nil => exact ⟨cs, by simp [Tree.moreItems, Tree.openingsItems]⟩
  | cons u us => exact hs (found ++ Tree.openings inside t)

namespace Store

/-- **Reading a printed part** finds the constructs of its trees. -/
theorem Unfolds.reads {s : Store} {p : Part} {v : p.Value} {x : p.Shape} (h : s.Unfolds p v x) :
    p.Reads x := by
  induction h with
  | node _ _ ih => exact fun inside found => ⟨[], foldl_read_node ih found⟩
  | slot _ ih => exact ih
  | optSome _ ih => exact ih
  | optNone | listNone | optScalarNone =>
    intro inside found
    refine ⟨"nil".toList, ?_⟩
    rw [Tree.openings, List.append_nil]
    exact foldl_read_word [] (plain_of_all (by decide))
  | listSome _ _ ih | package _ _ ih =>
    intro inside found
    obtain ⟨cs, hitems⟩ := ih inside found
    exact ⟨[], foldl_read_list hitems⟩
  | text _ =>
    intro inside found
    refine ⟨[], ?_⟩
    rw [Tree.openings, List.append_nil]
    exact foldl_read_quote _ _
  | @scalar t v =>
    intro inside found
    refine ⟨(t.name v).toList, ?_⟩
    rw [Tree.openings, List.append_nil]
    exact foldl_read_word [] (t.plain_name v)
  | @optScalarSome t v =>
    intro inside found
    refine ⟨(t.name v).toList, ?_⟩
    rw [Tree.openings, List.append_nil]
    exact foldl_read_word [] (t.plain_name v)
  | valuesNil =>
    intro shown hlen _ cs tag label inside found
    obtain rfl := List.length_eq_zero_iff.mp hlen
    exact ⟨cs, label, by simp [Tree.printFields, Tree.openingsFields]⟩
  | @valuesCons _ fs v vs t ts _ _ ih ihs =>
    intro shown hlen hshown cs tag label inside found
    obtain ⟨f, shown, rfl⟩ := List.exists_cons_of_length_eq_add_one hlen
    have hf := hshown f List.mem_cons_self
    obtain ⟨cs₁, hvalue⟩ := ih ((tag, f.label.getD label) :: inside) found
    obtain ⟨cs₂, label₂, hrest⟩ := ihs shown (Nat.succ.inj hlen)
      (fun g hg => hshown g (List.mem_cons_of_mem _ hg)) cs₁ tag (f.label.getD label) inside
      (found ++ Tree.openings ((tag, f.label.getD label) :: inside) t)
    refine ⟨cs₂, label₂, ?_⟩
    rw [Tree.toList_printFields_cons, List.foldl_append, List.foldl_append, foldl_read_lead hf,
      hvalue, hrest, Tree.openingsFields, List.append_assoc]
  | itemsNil | entriesNil =>
    intro inside found
    exact ⟨[], by simp [Tree.printItems, Tree.openingsItems]⟩
  | itemsCons _ _ ih ihs =>
    intro inside found
    obtain ⟨cs, hitem⟩ := ih inside found
    exact foldl_read_items hitem (ihs inside)
  | entriesCons _ _ _ ih ihs =>
    intro inside found
    obtain ⟨cs, hfile⟩ := ih inside found
    exact foldl_read_items (foldl_read_entry hfile) (ihs inside)

/-- The text of a node opens the constructs of its tree. -/
theorem Unfolds.openings_print {s : Store} {k : Kind} {h : Handle k} {t : Tree}
    (ht : s.Unfolds (.node k) h t) : openings t.print = t.openings [] := by
  obtain ⟨cs, hread⟩ := ht.reads [] []
  rw [openings, hread, List.nil_append]

end Store
end GoTree
