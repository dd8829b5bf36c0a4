import LabelQuery.Journal.Activity
import Mathlib.Data.List.Induction

/-!
# What an evaluation depends on

An evaluation asks a labelling for the values under the keys of the selector, and for nothing else.
**Two labellings that give the same answers there cannot be told apart**
(`Journaled.isMet_of_agree`), neither by what an evaluation comes to nor by what it reports,
whatever kind of table each of them is.

For tables this says which of the labels matter: of those that were put in under a key of the
selector, the last one of each key. The others can be left out, labels of different names can be put
in in any order, and the kind of the table can be changed.
-/

namespace LabelQuery

/-! ## Values put in last -/

section LastInserted

variable {name : String} {insertions : List (String × String)}

theorem lastInserted?_concat (label : String × String) :
    lastInserted? name (insertions ++ [label]) =
      if label.1 = name then some label.2 else lastInserted? name insertions := by
  obtain ⟨other, value⟩ := label
  rw [lastInserted?, List.reverse_append, List.reverse_singleton, List.singleton_append,
    List.lookup_cons]
  by_cases same : other = name
  · rw [if_pos same, same, beq_self_eq_true]
  · rw [if_neg same, beq_false_of_ne (Ne.symm same)]
    rfl

/-- Only what is put under a name decides what was put there last, so insertions under names that
nobody asks for can be dropped. -/
theorem lastInserted?_filter {names : List String} (named : name ∈ names) :
    lastInserted? name (insertions.filter (·.1 ∈ names)) = lastInserted? name insertions := by
  induction insertions using List.reverseRecOn with
  | nil => rfl
  | append_singleton insertions label ih =>
    rw [List.filter_append, lastInserted?_concat]
    by_cases kept : label.1 ∈ names
    · rw [List.filter_cons_of_pos (by simpa using kept), List.filter_nil, lastInserted?_concat, ih]
    · have other : label.1 ≠ name := fun same => kept (same ▸ named)
      rw [List.filter_cons_of_neg (by simpa using kept), List.filter_nil, List.append_nil,
        if_neg other, ih]

/-- If no name occurs twice, each value that was put in was put in last, so it can be looked for at
any place in the list. -/
theorem lastInserted?_eq_some_iff (once : (insertions.map (·.1)).Nodup) {value : String} :
    lastInserted? name insertions = some value ↔ (name, value) ∈ insertions := by
  induction insertions using List.reverseRecOn with
  | nil => simp [lastInserted?]
  | append_singleton insertions label ih =>
    rw [List.map_append, List.nodup_append] at once
    obtain ⟨once, -, apart⟩ := once
    rw [lastInserted?_concat, List.mem_append, List.mem_singleton, ← ih once]
    by_cases same : label.1 = name
    · have before : lastInserted? name insertions ≠ some value := by
        rw [ne_eq, ih once]
        intro mem
        exact apart _ (List.mem_map_of_mem mem) _ (List.mem_singleton_self _) same.symm
      simp [same, before, Prod.ext_iff, eq_comm]
    · simp [same, Prod.ext_iff, eq_comm]

/-- Labels of different names can be put in in any order, and under every name there is the same
value in the end. -/
theorem lastInserted?_perm {others : List (String × String)} (same : insertions.Perm others)
    (once : (insertions.map (·.1)).Nodup) :
    lastInserted? name insertions = lastInserted? name others := by
  have once' : (others.map (·.1)).Nodup := (same.map _).nodup_iff.mp once
  apply Option.ext
  intro value
  rw [lastInserted?_eq_some_iff once, lastInserted?_eq_some_iff once', same.mem_iff]

end LastInserted

/-- **Under a name stands the value that was put there last**, in every table that keeps to the two
laws of insertion. -/
theorem value?_ofInsertions {α : Type} [LabelTable α] [LawfulLabelTable α]
    (insertions : List (String × String)) (name : String) :
    Labelling.value? (LabelTable.ofInsertions insertions : α) name =
      lastInserted? name insertions := by
  induction insertions using List.reverseRecOn with
  | nil => exact LawfulLabelTable.value?_empty name
  | append_singleton insertions label ih =>
    rw [LabelTable.ofInsertions, List.foldl_append, lastInserted?_concat, ← ih]
    exact LawfulLabelTable.value?_insert _ label.1 label.2 name

namespace Journaled

/-! ## Answers under the keys -/

section Agree

variable {α β : Type} [Labelling α] [Labelling β] {labels : α} {others : β}

/-- Requirements are tried alike on labellings that agree on their keys: the same ones, up to the
same failing one. -/
theorem allHold_of_agree {requirements : List Requirement}
    (agree : ∀ requirement ∈ requirements,
      Labelling.value? labels requirement.key = Labelling.value? others requirement.key) :
    allHold labels requirements = allHold others requirements := by
  induction requirements with
  | nil => rfl
  | cons requirement requirements ih =>
    obtain ⟨same, agree⟩ := List.forall_mem_cons.mp agree
    have holds : requirement.holds labels = requirement.holds others := by
      rw [Requirement.holds, Requirement.holds, same]
    rw [allHold, allHold, holds, ih agree]

theorem isMet_of_keys {s : Selector}
    (agree : ∀ key ∈ s.keys, Labelling.value? labels key = Labelling.value? others key) :
    isMet labels s = isMet others s :=
  allHold_of_agree (List.forall_mem_map.mp agree)

end Agree

section Tables

variable {α β : Type} [LabelTable α] [LawfulLabelTable α] [LabelTable β] [LawfulLabelTable β]

/-- Tables are told apart only by what was put last under the keys, also if they are tables of two
different kinds. -/
theorem isMet_ofInsertions {s : Selector} {insertions others : List (String × String)}
    (agree : ∀ key ∈ s.keys, lastInserted? key insertions = lastInserted? key others) :
    isMet (LabelTable.ofInsertions insertions : α) s =
      isMet (LabelTable.ofInsertions others : β) s := by
  apply isMet_of_keys
  intro key mem
  rw [value?_ofInsertions, value?_ofInsertions, agree key mem]

end Tables

/-- **An evaluation depends on nothing but the values under the keys.** Labellings that agree on
these come to the same, and the same is reported on the way. In a table the value under a name is
the last one that was put there; so labels under other names make no difference, neither does the
order in which labels of different names were put in, and neither does the kind of the table. -/
theorem isMet_of_agree (s : Selector) :
    (∀ {α β : Type} [Labelling α] [Labelling β] (labels : α) (others : β),
      (∀ key ∈ s.keys, Labelling.value? labels key = Labelling.value? others key) →
      isMet labels s = isMet others s) ∧
    ∀ {α β : Type} [LabelTable α] [LawfulLabelTable α] [LabelTable β] [LawfulLabelTable β]
      (insertions : List (String × String)),
      (∀ name, Labelling.value? (LabelTable.ofInsertions insertions : α) name =
        lastInserted? name insertions) ∧
      isMet (LabelTable.ofInsertions (insertions.filter (·.1 ∈ s.keys)) : β) s =
        isMet (LabelTable.ofInsertions insertions : α) s ∧
      ∀ others : List (String × String), others.Perm insertions → (others.map (·.1)).Nodup →
        isMet (LabelTable.ofInsertions others : β) s =
          isMet (LabelTable.ofInsertions insertions : α) s := by
  refine ⟨fun labels others agree => isMet_of_keys agree, fun insertions =>
    ⟨value?_ofInsertions insertions, ?_, fun others same once => ?_⟩⟩
  · exact isMet_ofInsertions fun key mem => lastInserted?_filter mem
  · exact isMet_ofInsertions fun key _ => lastInserted?_perm same once

/-- A hash table in which a label is put twice, and a sorted table with a label of another name, put
in at either end. -/
theorem isMet_of_agree_tables :
    let s : Selector := ⟨[⟨"b", .absent⟩, ⟨"é", .oneOf ["x"]⟩]⟩
    let labels : Std.HashMap String String :=
      LabelTable.ofInsertions [("é", "x"), ("c", "x"), ("é", "y")]
    let others : Std.TreeMap String String := LabelTable.ofInsertions [("é", "y"), ("d", "x")]
    let swapped : Std.TreeMap String String := LabelTable.ofInsertions [("d", "x"), ("é", "y")]
    ((∀ key ∈ s.keys, Labelling.value? labels key = Labelling.value? others key) ∧
      isMet labels s = isMet others s) ∧
    ([("d", "x"), ("é", "y")].Perm [("é", "y"), ("d", "x")] ∧
      (["d", "é"] : List String).Nodup ∧ isMet swapped s = isMet others s) ∧
    isMet others s = ⟨false, [.unmet ⟨"é", .oneOf ["x"]⟩]⟩ := by
  intro s labels others swapped
  have agree : ∀ key ∈ s.keys, Labelling.value? labels key = Labelling.value? others key := by
    intro key mem
    rw [value?_ofInsertions, value?_ofInsertions]
    revert key
    decide
  have moved : [("d", "x"), ("é", "y")].Perm [("é", "y"), ("d", "x")] := .swap ..
  have once : (["d", "é"] : List String).Nodup := by decide
  obtain ⟨same, tables⟩ := isMet_of_agree s
  exact ⟨⟨agree, same labels others agree⟩, ⟨moved, once, (tables _).2.2 _ moved once⟩,
    by decide +kernel⟩

end Journaled

end LabelQuery
