import Mathlib.Data.List.Basic
import GoTree.Tree.Printer
/-!
# The printed order is the declared one

The grammar declares the fields of a construct and the printer lists them by hand.
Nothing but agreement of the two tables makes a printed tree show every field once
and in declared order.

* `Tag.shown_fields`: the tables name the same fields in the same order.
* `Tag.arrange_eq`: so the printer leaves the values of a construct where they are.
* `Tree.print_node`: what is printed of a construct, field by field.
-/
namespace GoTree

namespace Tag

/-- **Agreement of the tables.** The printer lists the fields of every construct as
they are declared. -/
theorem shown_fields (t : Tag) : t.shown.map (·.field) = t.fields.map (·.name) := by
  have key : ∀ t ∈ all, t.shown.map (·.field) = t.fields.map (·.name) := by decide +kernel
  exact key t t.mem_all

theorem length_shown (t : Tag) : t.shown.length = t.fields.length := by
  simpa using congrArg List.length t.shown_fields

/-- A name stands for one field of a construct. -/
theorem nodup_shown (t : Tag) : (t.shown.map (·.field)).Nodup := by
  have key : ∀ t ∈ all, (t.shown.map (·.field)).Nodup := by decide +kernel
  exact key t t.mem_all

end Tag

/-- Where every name stands for one field, the values that are looked up are found in
the order of the names. -/
theorem Shown.filterMap_lookup {α : Type} : ∀ {fs : List Shown} (values : List α),
    (fs.map (·.field)).Nodup →
      (fs.filterMap fun f => (((fs.map (·.field)).zip values).lookup f.field).map (f, ·)) =
        fs.zip values
  | [], _, _ => rfl
  | _ :: _, [], _ => by simp
  | f :: fs, v :: values, h => by
    obtain ⟨hnew, hrest⟩ := List.nodup_cons.mp h
    have hskip : ∀ g ∈ fs, (((f :: fs).map (·.field)).zip (v :: values)).lookup g.field =
        ((fs.map (·.field)).zip values).lookup g.field := by
      intro g hg
      have hne : g.field ≠ f.field := fun e => hnew (List.mem_map.mpr ⟨g, hg, e⟩)
      simp [List.lookup_cons, beq_eq_false_iff_ne.mpr hne]
    have hlater := List.filterMap_congr fun g hg =>
      congrArg (Option.map fun w : α => (g, w)) (hskip g hg)
    rw [List.filterMap_cons, hlater, filterMap_lookup values hrest]
    simp

/-- The printer takes the values of a construct in declared order. -/
theorem Tag.arrange_eq {α : Type} (tag : Tag) (values : List α) :
    tag.arrange values = tag.shown.zip values := by
  rw [arrange, ← tag.shown_fields]
  exact Shown.filterMap_lookup values tag.nodup_shown

namespace Tree

/-- The fields of a construct, each after its label. -/
def printFields : List Shown → List Tree → String
  | f :: fs, t :: ts => f.lead ++ print t ++ printFields fs ts
  | _, _ => ""

theorem join_zip : ∀ (fs : List Shown) (ts : List Tree),
    Shown.join (fs.zip (printAll ts)) = printFields fs ts
  | [], _ => by simp [printFields, Shown.join]
  | _ :: _, [] => by simp [printAll, printFields, Shown.join]
  | f :: fs, t :: ts => by
    rw [printAll, List.zip_cons_cons, Shown.join, join_zip fs ts, printFields]

/-- A construct is printed with all its fields, in declared order. -/
theorem print_node (tag : Tag) (ts : List Tree) :
    print (.node tag ts) = "(" ++ tag.name ++ printFields tag.shown ts ++ ")" := by
  rw [print, Tag.arrange_eq, join_zip]

end Tree
end GoTree
