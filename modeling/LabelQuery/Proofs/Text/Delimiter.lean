import Mathlib.Data.List.Basic

/-!
# Texts around a delimiter

Two texts that are joined by a **delimiter** can be told apart again if one of them keeps clear of a
character that the delimiter has. The other text is free: it may hold the whole delimiter, as often
as it likes. Where the first text keeps clear, the first place with that character is inside the
delimiter (`append_inj_of_first`), and where the second one does, the last place is
(`append_inj_of_last`).

The laws are about two such joins with one text, and say that they are the same join.
-/

namespace LabelQuery.Text

/-- What stands before the first place of a character is found by reading up to it. -/
theorem takeWhile_append_cons_of_notMem {front : List Char} {mark : Char} (clear : mark ∉ front)
    (rest : List Char) : (front ++ mark :: rest).takeWhile (· ≠ mark) = front := by
  have passed : ∀ c ∈ front, decide (c ≠ mark) = true := fun c mem =>
    decide_eq_true fun same => clear (same ▸ mem)
  rw [List.takeWhile_append_of_pos passed, List.takeWhile_cons_of_neg (by simp), List.append_nil]

section Lists

variable {delimiter as bs xs ys : List Char} {mark : Char}

/-- The characters before the delimiter are told from it by its first place with the mark: both
texts are read up to there, and what is read ends in the same front of the delimiter. -/
theorem list_append_inj_of_first (mem : mark ∈ delimiter) (left : mark ∉ as) (right : mark ∉ bs)
    (same : as ++ (delimiter ++ xs) = bs ++ (delimiter ++ ys)) : as = bs ∧ xs = ys := by
  obtain ⟨front, back, rfl, clear⟩ := List.eq_append_cons_of_mem mem
  have parts (cs zs : List Char) :
      cs ++ (front ++ mark :: back ++ zs) = cs ++ front ++ mark :: (back ++ zs) := by
    simp only [List.append_assoc, List.cons_append]
  have before {cs : List Char} (h : mark ∉ cs) : mark ∉ cs ++ front := fun mem =>
    (List.mem_append.mp mem).elim h clear
  have fronts := congrArg (List.takeWhile (· ≠ mark)) same
  rw [parts, parts, takeWhile_append_cons_of_notMem (before left),
    takeWhile_append_cons_of_notMem (before right)] at fronts
  obtain rfl := List.append_cancel_right fronts
  exact ⟨rfl, List.append_cancel_left (List.append_cancel_left same)⟩

/-- The same from the other end, by reading both texts backwards. -/
theorem list_append_inj_of_last (mem : mark ∈ delimiter) (left : mark ∉ xs) (right : mark ∉ ys)
    (same : as ++ (delimiter ++ xs) = bs ++ (delimiter ++ ys)) : as = bs ∧ xs = ys := by
  -- read from its end, the text has the delimiter behind the part that keeps clear
  have mirrored := congrArg List.reverse same
  simp only [List.reverse_append, List.append_assoc] at mirrored
  obtain ⟨backs, fronts⟩ := list_append_inj_of_first (List.mem_reverse.mpr mem)
    (mt List.mem_reverse.mp left) (mt List.mem_reverse.mp right) mirrored
  exact ⟨List.reverse_injective fronts, List.reverse_injective backs⟩

end Lists

section Texts

variable {delimiter a b x y : String} (mark : Char)

/-- **The first place counts** where the texts in front of the delimiter keep clear of one of its
characters. What follows the delimiter may hold anything. -/
theorem append_inj_of_first (mem : mark ∈ delimiter.toList) (left : mark ∉ a.toList)
    (right : mark ∉ b.toList) (same : a ++ (delimiter ++ x) = b ++ (delimiter ++ y)) :
    a = b ∧ x = y := by
  simp only [← String.toList_inj, String.toList_append] at same ⊢
  exact list_append_inj_of_first mem left right same

/-- **The last place counts** where the texts behind the delimiter keep clear of one of its
characters. What stands before the delimiter may hold anything. -/
theorem append_inj_of_last (mem : mark ∈ delimiter.toList) (left : mark ∉ x.toList)
    (right : mark ∉ y.toList) (same : a ++ (delimiter ++ x) = b ++ (delimiter ++ y)) :
    a = b ∧ x = y := by
  simp only [← String.toList_inj, String.toList_append] at same ⊢
  exact list_append_inj_of_last mem left right same

end Texts

end LabelQuery.Text
