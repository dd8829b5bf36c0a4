/-!
# Bytes and blanks

Places in a text are given in **bytes of its UTF-8 form**, while the text itself is taken apart
character by character. `byteLength` is the measure that joins the two: it is additive, so the
place of a part is the byte length of everything before it.

Selector text is divided at **blanks**, the characters of the Unicode property White_Space, and at
nothing else: the information separators U+001C to U+001F, the Mongolian vowel separator U+180E,
the zero-width space U+200B and the byte order mark U+FEFF are ordinary characters. The property has
been stable since Unicode 6.3, so the table carries its 25 characters outright. Blanks between the
parts of a JSON text are another and smaller set; they live with the JSON reader.
-/

namespace LabelQuery.Text

/-! ## Byte lengths -/

/-- The number of bytes that the characters take in UTF-8. -/
def byteLength : List Char → Nat
  | [] => 0
  | c :: cs => c.utf8Size + byteLength cs

@[simp] theorem byteLength_nil : byteLength [] = 0 := rfl

@[simp] theorem byteLength_cons (c : Char) (cs : List Char) :
    byteLength (c :: cs) = c.utf8Size + byteLength cs := rfl

/-- The bytes of two parts add up, so the place of a part of a text is the byte length of everything
that stands before it. -/
@[simp] theorem byteLength_append (as bs : List Char) :
    byteLength (as ++ bs) = byteLength as + byteLength bs := by
  induction as with
  | nil => simp
  | cons c cs ih => simp [ih, Nat.add_assoc]

/-! ## Blanks -/

/-- The code points of White_Space as closed ranges, ascending and apart. -/
def blankRanges : List (Nat × Nat) :=
  [(0x09, 0x0D), (0x20, 0x20), (0x85, 0x85), (0xA0, 0xA0), (0x1680, 0x1680), (0x2000, 0x200A),
    (0x2028, 0x2029), (0x202F, 0x202F), (0x205F, 0x205F), (0x3000, 0x3000)]

/-- Whether a character has the property White_Space. -/
def isBlank (c : Char) : Bool :=
  blankRanges.any fun (first, last) => first ≤ c.toNat && c.toNat ≤ last

example : (blankRanges.map fun (first, last) => last + 1 - first).sum = 25 := by decide

example : isBlank '\u0085' = true ∧ isBlank '\u001C' = false ∧ isBlank '\u200B' = false := by decide

end LabelQuery.Text
