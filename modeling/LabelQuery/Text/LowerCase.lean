/-!
# Lower case

Texts are brought to lower case by the rules of Unicode, which have a table of some thousand letters
and change with its versions; what takes the place of a letter can be several characters, and it can
depend on the letters around it. Nothing here needs the table. A `LowerCasing` is any function that
keeps to three of its facts: ASCII letters are lowered as in ASCII, the Kelvin sign U+212A becomes a
`k`, and the lower case of every other character has a character beyond ASCII in it.

So a text whose lower case is an ASCII name without a `k` is that name, up to the case of ASCII
letters: `LowerCasing.apply_eq_iff`.
-/

namespace LabelQuery.Text

/-- A way to bring texts to lower case. -/
structure LowerCasing where
  /-- What takes the place of a character between others. -/
  lower : (before : List Char) → (c : Char) → (after : List Char) → List Char
  /-- A character of ASCII has the lower case that it has there. -/
  ascii : ∀ before c after, c.toNat < 128 → lower before c after = [c.toLower]
  /-- The lower case of another character is beyond ASCII, but for one sign's. -/
  beyond : ∀ before c after, 128 ≤ c.toNat →
    c = '\u212A' ∧ lower before c after = ['k'] ∨ ∃ d ∈ lower before c after, 128 ≤ d.toNat

theorem toList_toLower (text : String) : text.toLower.toList = text.toList.map Char.toLower :=
  String.toList_map

/-- Only letters of ASCII are lowered in ASCII: a character from 128 on stays what it is, whatever
its lower case is in Unicode. -/
theorem toLower_of_ge {c : Char} (large : 128 ≤ c.toNat) : c.toLower = c := by
  have above : ¬ (c.val ≥ 'A'.val ∧ c.val ≤ 'Z'.val) := by
    intro ⟨_, upper⟩
    have bound : c.toNat ≤ 90 := upper
    omega
  exact dif_neg above

namespace LowerCasing

/-- The characters in lower case, where `before` stands before them. -/
def applyFrom (lowering : LowerCasing) (before : List Char) : List Char → List Char
  | [] => []
  | c :: after => lowering.lower before c after ++ lowering.applyFrom (before ++ [c]) after

/-- The text in lower case. -/
def apply (lowering : LowerCasing) (text : String) : String :=
  String.ofList (lowering.applyFrom [] text.toList)

/-- The lower-casing that knows no letters beyond ASCII. -/
def least : LowerCasing where
  lower _ c _ := if c = '\u212A' then ['k'] else [c.toLower]
  ascii _ c _ small := by
    have other : c ≠ '\u212A' := by
      rintro rfl
      exact absurd small (by decide)
    exact if_neg other
  beyond _ c _ large := by
    by_cases kelvin : c = '\u212A'
    · exact .inl ⟨kelvin, if_pos kelvin⟩
    · rw [if_neg kelvin, toLower_of_ge large]
      exact .inr ⟨c, List.mem_singleton_self c, large⟩

instance : Inhabited LowerCasing := ⟨least⟩

/-- A lower-casing leads to a plain name exactly where that of ASCII does. The induction is on the
characters that are left. One beyond ASCII rules the name out on both sides: in its lower case is
something that no plain name has, and in ASCII it stays as it is. -/
theorem applyFrom_eq_iff (lowering : LowerCasing) {before cs name : List Char}
    (plain : ∀ c ∈ name, c.toNat < 128 ∧ c ≠ 'k') :
    lowering.applyFrom before cs = name ↔ cs.map Char.toLower = name := by
  induction cs generalizing before name with
  | nil => exact Iff.rfl
  | cons c cs ih =>
    rw [applyFrom, List.map_cons]
    by_cases small : c.toNat < 128
    · rw [lowering.ascii _ _ _ small, List.singleton_append]
      cases name with
      | nil => simp
      | cons d name =>
        rw [List.cons.injEq, List.cons.injEq, ih fun e mem => plain e (List.mem_cons_of_mem _ mem)]
    · have large := Nat.le_of_not_lt small
      rw [toLower_of_ge large]
      constructor
      · rintro rfl
        rcases lowering.beyond before c cs large with ⟨-, isK⟩ | ⟨d, mem, outside⟩
        · rw [isK] at plain
          exact absurd rfl (plain 'k' List.mem_cons_self).2
        · have inside := (plain d (List.mem_append_left _ mem)).1
          omega
      · rintro rfl
        have inside := (plain c List.mem_cons_self).1
        omega

/-- For an ASCII name without a `k` it makes no difference whether texts are lowered by the rules of
Unicode or in ASCII alone. The `k` is left out because the Kelvin sign has it as its lower case. -/
theorem apply_eq_iff (lowering : LowerCasing) {text name : String}
    (plain : ∀ c ∈ name.toList, c.toNat < 128 ∧ c ≠ 'k') :
    lowering.apply text = name ↔ text.toLower = name := by
  rw [apply, ← String.toList_inj, ← String.toList_inj, String.toList_ofList,
    lowering.applyFrom_eq_iff plain, toList_toLower]

end LowerCasing

end LabelQuery.Text
