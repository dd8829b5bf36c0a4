import LabelQuery.Journal.Activity
import LabelQuery.Proofs.Selector.Membership

/-!
# A selector is a set of requirements

Evaluation goes through the requirements in order and stops at the first that does not hold, and a
condition goes through its values in order. None of this shows in what it comes to: **the law**
(`Selector.isMet_as_set`) is that a selector is met exactly if each of its requirements holds, so
selectors with the same requirements, up to what their conditions list, are met by the same
labellings. That selectors put together are met exactly where each of them is, in whichever order,
is a case of it.
-/

namespace LabelQuery

/-! ## Counterparts hold together -/

/-- Whether some element has a property depends on the elements alone. -/
theorem any_eq_any_of_mem_iff {β : Type} {as bs : List β} (same : ∀ b, b ∈ as ↔ b ∈ bs)
    (p : β → Bool) : as.any p = bs.any p := by
  rw [Bool.eq_iff_iff, List.any_eq_true, List.any_eq_true]
  exact exists_congr fun b => and_congr_left fun _ => same b

/-- Counterparts admit the same, and rule out the same, of a label and of its absence; order and
repetition of values do not count. -/
theorem Condition.Counterpart.admits_eq {condition other : Condition}
    (same : condition.Counterpart other) (found : Option String) :
    condition.admits found = other.admits found := by
  have listed {values values' : List String} (same : ∀ value, value ∈ values ↔ value ∈ values') :
      (Condition.oneOf values).admits found = (Condition.oneOf values').admits found := by
    cases found with
    | none => rfl
    | some label => exact any_eq_any_of_mem_iff same _
  cases same with
  | present => rfl
  | absent => rfl
  | oneOf same => exact listed same
  | noneOf same => rw [Condition.admits_noneOf, Condition.admits_noneOf, listed same]
  | equals value => rfl
  | differs value => rfl

theorem Condition.Counterpart.refl (condition : Condition) : condition.Counterpart condition := by
  cases condition with
  | present => exact .present
  | absent => exact .absent
  | oneOf values => exact .oneOf fun _ => Iff.rfl
  | noneOf values => exact .noneOf fun _ => Iff.rfl
  | equals value => exact .equals value
  | differs value => exact .differs value

theorem Requirement.Counterpart.refl (requirement : Requirement) :
    requirement.Counterpart requirement :=
  ⟨rfl, .refl requirement.condition⟩

variable {α : Type} [Labelling α] (labels : α)

/-- Counterparts hold of the same labellings, since they look at one label and their conditions
admit the same of it. -/
theorem Requirement.Counterpart.holds_eq {requirement other : Requirement}
    (same : requirement.Counterpart other) : requirement.holds labels = other.holds labels := by
  rw [holds, holds, same.key, same.condition.admits_eq]

namespace Selector

/-- A selector is met exactly if each of its requirements holds, and the empty one, which asks
nothing, always is. -/
theorem isMet_iff {s : Selector} :
    s.isMet labels = true ↔ ∀ requirement ∈ s.requirements, requirement.holds labels = true :=
  List.all_eq_true

/-- Counterparts are met by the same labellings: a requirement of either that fails has a
counterpart in the other that fails with it. -/
theorem Counterpart.isMet_eq {s t : Selector} (same : s.Counterpart t) :
    s.isMet labels = t.isMet labels := by
  rw [Bool.eq_iff_iff, isMet_iff, isMet_iff]
  constructor
  · intro all other mem
    obtain ⟨requirement, mem', counterpart⟩ := same.back other mem
    rw [← counterpart.holds_eq labels]
    exact all requirement mem'
  · intro all requirement mem
    obtain ⟨other, mem', counterpart⟩ := same.forth requirement mem
    rw [counterpart.holds_eq labels]
    exact all other mem'

/-- Selectors with the same requirements are counterparts, however these are arranged. -/
theorem Counterpart.of_mem_iff {s t : Selector}
    (same : ∀ requirement, requirement ∈ s.requirements ↔ requirement ∈ t.requirements) :
    s.Counterpart t where
  forth requirement mem := ⟨requirement, (same requirement).mp mem, .refl requirement⟩
  back requirement mem := ⟨requirement, (same requirement).mpr mem, .refl requirement⟩

theorem isMet_join (selectors : List Selector) :
    (join selectors).isMet labels = selectors.all (·.isMet labels) := by
  rw [isMet, join, List.all_flatMap]
  rfl

/-- The order in which selectors are put together does not matter, for in either order the same
requirements come together. -/
theorem Counterpart.join_perm {selectors others : List Selector} (same : selectors.Perm others) :
    (join selectors).Counterpart (join others) := by
  apply of_mem_iff
  intro requirement
  simp only [join, List.mem_flatMap, same.mem_iff]

/-- **Requirements count as a set.** A selector is met exactly if each of its requirements holds,
also where the requirements are tried one by one up to the first that does not. So selectors that
are counterparts are met by the same labellings. Selectors put together are met exactly if each of
them is, in whichever order they stand. -/
theorem isMet_as_set :
    (∀ s : Selector,
      ((Journaled.isMet labels s).outcome = true ↔
        ∀ requirement ∈ s.requirements, requirement.holds labels = true) ∧
      (Journaled.allHold labels s.requirements).outcome =
        (Journaled.isMet labels s).outcome) ∧
    (∀ s t : Selector, s.Counterpart t →
      (Journaled.isMet labels s).outcome = (Journaled.isMet labels t).outcome) ∧
    (∀ selectors others : List Selector, selectors.Perm others →
      (Journaled.isMet labels (join others)).outcome =
        selectors.all fun s => (Journaled.isMet labels s).outcome) ∧
    (∀ s t : Selector,
      (Journaled.isMet labels (s ++ t)).outcome =
        ((Journaled.isMet labels s).outcome && (Journaled.isMet labels t).outcome) ∧
      (Journaled.isMet labels (t ++ s)).outcome =
        ((Journaled.isMet labels s).outcome && (Journaled.isMet labels t).outcome)) := by
  simp only [Journaled.outcome_isMet]
  refine ⟨fun s => ⟨isMet_iff labels, Journaled.outcome_isMet labels s⟩,
    fun s t same => same.isMet_eq labels, fun selectors others same => ?_, fun s t => ⟨?_, ?_⟩⟩
  · rw [← (Counterpart.join_perm same).isMet_eq labels, isMet_join]
  · exact isMet_append labels s t
  · rw [isMet_append, Bool.and_comm]

/-- Values in another order, and values and requirements that are given twice. -/
theorem isMet_as_set_repeated :
    let labels : Std.TreeMap String String := (∅ : Std.TreeMap String String).insert "é" "y"
    let s : Selector := ⟨[⟨"é", .oneOf ["x", "y"]⟩, ⟨"b", .noneOf []⟩]⟩
    let t : Selector := ⟨[⟨"b", .noneOf []⟩, ⟨"é", .oneOf ["y", "x", "y"]⟩, ⟨"b", .noneOf []⟩]⟩
    let u : Selector := ⟨[⟨"é", .differs "y"⟩]⟩
    (s.Counterpart t ∧ (Journaled.isMet labels s).outcome = true ∧
      (Journaled.isMet labels t).outcome = true) ∧
    [s, u, t].Perm [t, s, u] ∧ (Journaled.isMet labels (join [t, s, u])).outcome = false := by
  intro labels s t u
  have values : ∀ value, value ∈ ["x", "y"] ↔ value ∈ ["y", "x", "y"] := by
    intro value
    simp only [List.mem_cons, List.not_mem_nil, or_false]
    tauto
  have missing : Requirement.Counterpart ⟨"b", .noneOf []⟩ ⟨"b", .noneOf []⟩ := .refl _
  have listed : Requirement.Counterpart ⟨"é", .oneOf ["x", "y"]⟩ ⟨"é", .oneOf ["y", "x", "y"]⟩ :=
    ⟨rfl, .oneOf values⟩
  have counterparts : s.Counterpart t := by
    constructor
    · intro requirement mem
      rcases List.mem_pair.mp mem with rfl | rfl
      · exact ⟨_, .tail _ (.head _), listed⟩
      · exact ⟨_, .head _, missing⟩
    · intro other mem
      rcases List.mem_cons.mp mem with rfl | mem
      · exact ⟨_, .tail _ (.head _), missing⟩
      · rcases List.mem_pair.mp mem with rfl | rfl
        · exact ⟨_, .head _, listed⟩
        · exact ⟨_, .tail _ (.head _), missing⟩
  have isMet : (Journaled.isMet labels s).outcome = true := by decide +kernel
  have unmet : (Journaled.isMet labels u).outcome = false := by decide +kernel
  have moved : [s, u, t].Perm [t, s, u] := by decide +kernel
  obtain ⟨-, same, joined, -⟩ := isMet_as_set labels
  refine ⟨⟨counterparts, isMet, (same s t counterparts).symm.trans isMet⟩, moved, ?_⟩
  rw [joined _ _ moved, List.all_cons, List.all_cons, unmet, Bool.false_and, Bool.and_false]

end Selector

end LabelQuery
