import Std.Data.HashMap
import Std.Data.HashMap.Lemmas
import Std.Data.TreeMap
import Std.Data.TreeMap.Lemmas

/-!
# Labellings

A selector looks at the labels of a thing only through one question: which value, if any, stands
under a name. `Labelling` is that question, so evaluation is defined once for every kind of table,
and can depend on nothing else of it. Names and values are compared character for character.

A labelling is usually a **table**, which comes about by putting labels into it one after another.
What is known of a table is its law: under a name stands the value that was put there last, whatever
was put under other names before, between and after. A hash table and a sorted table keep to it.

Two names are the same if they are the same characters, which is to say the same bytes in UTF-8.
-/

namespace LabelQuery

/-- Tables that can be asked for the value under a name. -/
class Labelling (α : Type) where
  /-- The value under the name, if the name is a label. -/
  value? : α → String → Option String

instance : Labelling (Std.HashMap String String) where
  value? labels name := labels[name]?

instance : Labelling (Std.TreeMap String String) where
  value? labels name := labels[name]?

/-! ## Tables of labels -/

/-- Tables that labels are put into. -/
class LabelTable (α : Type) extends Labelling α where
  /-- The table without labels. -/
  empty : α
  /-- The table with a value put under a name. -/
  insert : (table : α) → (name value : String) → α

/-- Tables in which a value stands until another one is put under its name. -/
class LawfulLabelTable (α : Type) [LabelTable α] : Prop where
  /-- No value stands in the table without labels. -/
  value?_empty (name : String) : Labelling.value? (LabelTable.empty : α) name = none
  /-- A value that is put under a name stands there, and changes nothing under other names. -/
  value?_insert (table : α) (name value other : String) :
    Labelling.value? (LabelTable.insert table name value) other =
      if name = other then some value else Labelling.value? table other

instance : LabelTable (Std.HashMap String String) :=
  { (inferInstance : Labelling (Std.HashMap String String)) with
    empty := ∅
    insert := fun table name value => table.insert name value }

instance : LabelTable (Std.TreeMap String String) :=
  { (inferInstance : Labelling (Std.TreeMap String String)) with
    empty := ∅
    insert := fun table name value => table.insert name value }

instance : LawfulLabelTable (Std.HashMap String String) where
  value?_empty _ := Std.HashMap.getElem?_empty
  value?_insert table name value other := by
    show (table.insert name value)[other]? = if name = other then some value else table[other]?
    simp only [Std.HashMap.getElem?_insert, beq_iff_eq]

instance : LawfulLabelTable (Std.TreeMap String String) where
  value?_empty _ := Std.TreeMap.getElem?_emptyc
  value?_insert table name value other := by
    show (table.insert name value)[other]? = if name = other then some value else table[other]?
    simp only [Std.TreeMap.getElem?_insert, Std.LawfulEqCmp.compare_eq_iff_eq]

/-- The table that comes about by putting the labels into it, the first of them first. -/
def LabelTable.ofInsertions {α : Type} [LabelTable α] (insertions : List (String × String)) : α :=
  insertions.foldl (fun table label => insert table label.1 label.2) empty

/-- The value that was put last under the name. -/
def lastInserted? (name : String) (insertions : List (String × String)) : Option String :=
  insertions.reverse.lookup name

end LabelQuery
