import LabelQuery.Text.Basic

/-!
# Slices of a text

A part of a text is a **slice** of it at a byte (`IsSlice`) if the text can be cut at both of its
ends and its bytes are the bytes of the text between them. The standard library's boundaries of
characters and byte arrays say what that means; `isSlice_of_append` is the one way in which slices
are found here, as the middle of three parts.
-/

namespace LabelQuery.Text

/-- The bytes that characters take are those of the string of them, so places counted along a list
are places in a text. -/
theorem byteLength_eq_utf8ByteSize (cs : List Char) :
    byteLength cs = (String.ofList cs).utf8ByteSize := by
  induction cs with
  | nil => rfl
  | cons c cs ih =>
    have split : String.ofList (c :: cs) = String.singleton c ++ String.ofList cs := by
      rw [← String.toList_inj]
      simp
    rw [byteLength_cons, ih, split, String.utf8ByteSize_append, String.utf8ByteSize_singleton]

/-- A text that is not empty has a byte at least, so behind it is farther on. -/
theorem byteLength_pos {cs : List Char} (nonempty : cs ≠ []) : 0 < byteLength cs := by
  cases cs with
  | nil => exact absurd rfl nonempty
  | cons c cs =>
    rw [byteLength_cons]
    exact Nat.add_pos_left c.utf8Size_pos _

/-- Whether the part stands in the text at the given byte: the text can be cut before and behind it,
and has its bytes in between. -/
structure IsSlice (text part : String) (offset : Nat) : Prop where
  /-- A character of the text begins where the part does, or the text ends there. -/
  start : String.Pos.Raw.IsValid text ⟨offset⟩
  /-- A character of the text begins where the part ends, or the text ends there. -/
  stop : String.Pos.Raw.IsValid text ⟨offset + part.utf8ByteSize⟩
  /-- The bytes of the part are those of the text. -/
  bytes : text.toByteArray.extract offset (offset + part.utf8ByteSize) = part.toByteArray

/-- The middle of three parts is a slice of the whole, behind the bytes of the first. The two ends
are boundaries of characters, as whole parts stand before them. -/
theorem isSlice_of_append {text : String} {before part after : List Char}
    (whole : text.toList = before ++ part ++ after) :
    IsSlice text (String.ofList part) (byteLength before) := by
  have joined : text = String.ofList before ++ (String.ofList part ++ String.ofList after) := by
    rw [← String.toList_inj, whole]
    simp
  rw [byteLength_eq_utf8ByteSize, joined]
  refine ⟨?_, ?_, ?_⟩
  · exact String.Pos.Raw.isValid_iff_exists_append.mpr ⟨_, _, rfl, rfl⟩
  · refine String.Pos.Raw.isValid_iff_exists_append.mpr
      ⟨String.ofList before ++ String.ofList part, String.ofList after, ?_, ?_⟩
    · rw [String.append_assoc]
    · rw [← String.utf8ByteSize_append]
      rfl
  · rw [String.toByteArray_append, String.toByteArray_append]
    exact (ByteArray.extract_append_size_add' (i := 0) String.size_toByteArray.symm).trans
      (ByteArray.extract_append_eq_left String.size_toByteArray.symm)

end LabelQuery.Text
