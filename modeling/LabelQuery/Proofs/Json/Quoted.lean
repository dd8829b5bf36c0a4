import LabelQuery.Proofs.Json.Reading

/-!
# Strings are read as they are spelled

A string is read character by character, each from what spells it: the character itself, a backslash
and a letter, or the escape of one 16-bit unit or of two. Which characters of a text spell which
string is said in `LabelQuery.Json.Grammar`; the reader takes exactly these
(`reads_quoted`), and it needs to know nothing of what comes behind the closing quote.

One step of the reader is one spelling (`gives_escape_iff`), and the string is a loop of steps, by
the recursion of `quotedFrom`.
-/

namespace LabelQuery.Json

/-! ## Escapes of 16-bit units -/

/-- The reader of units takes four hexadecimal digits, and the number that they spell. -/
theorem gives_hexUnit_iff {cs rest : List Char} {unit : Nat} :
    Gives (hexUnit cs) unit rest ↔ ∃ digits, cs = digits ++ rest ∧ HexSpells digits unit := by
  constructor
  · intro h
    unfold hexUnit at h
    split at h
    · next a b c d more =>
      split at h
      · next i j k l ha hb hc hd =>
        obtain ⟨rfl, rfl⟩ := gives_ok.mp h
        exact ⟨[a, b, c, d], rfl, .intro ha hb hc hd⟩
      · exact absurd h not_gives_error
    · exact absurd h not_gives_error
  · rintro ⟨_, rfl, ⟨ha, hb, hc, hd⟩⟩
    simp only [hexUnit, List.cons_append, List.nil_append, ha, hb, hc, hd]
    exact gives_ok.mpr ⟨rfl, rfl⟩

/-- Between the two halves of a pair each of the characters of the second escape's mark has to
stand, and nothing else is taken. -/
theorem gives_surrogateMark_iff {mark : Char} {cs rest : List Char} :
    Gives (surrogateMark mark cs) () rest ↔ cs = mark :: rest := by
  cases cs with
  | nil => exact iff_of_false not_gives_error nofun
  | cons c cs =>
    rw [surrogateMark]
    by_cases same : c = mark
    · rw [if_pos same, gives_ok, same]
      simp
    · rw [if_neg same]
      refine iff_of_false not_gives_error fun h => ?_
      exact same (List.cons.inj h).1

/-- **What an escape of units takes**: one unit that is no half of a surrogate pair, or the two
halves of one. A half that stands alone is a fault, so it is gone here. -/
theorem gives_unitEscape_iff {cs rest : List Char} {c : Char} :
    Gives (unitEscape cs) c rest ↔ ∃ unit middle, Gives (hexUnit cs) unit middle ∧
      isLowSurrogate unit = false ∧
      (isHighSurrogate unit = false ∧ Char.ofNat unit = c ∧ middle = rest ∨
        isHighSurrogate unit = true ∧ ∃ low more, middle = '\\' :: 'u' :: more ∧
          Gives (hexUnit more) low rest ∧ isLowSurrogate low = true ∧
          surrogatePair unit low = c) := by
  rw [unitEscape, gives_bind]
  refine exists_congr fun unit => exists_congr fun middle => ?_
  constructor
  · rintro ⟨suffix, first, h⟩
    refine ⟨first, ?_⟩
    cases low : isLowSurrogate unit with
    | true =>
      simp only [low, if_true] at h
      exact absurd h not_gives_error
    | false =>
      cases high : isHighSurrogate unit with
      | false =>
        simp only [low, high, Bool.false_eq_true, if_false] at h
        exact ⟨rfl, .inl ⟨rfl, gives_pure.mp h⟩⟩
      | true =>
        simp only [low, high, Bool.false_eq_true, if_false, if_true, gives_bind] at h
        obtain ⟨⟨⟩, _, _, backslash, ⟨⟩, more, _, letter, second, _, _, digits, ends⟩ := h
        obtain rfl := gives_surrogateMark_iff.mp backslash
        obtain rfl := gives_surrogateMark_iff.mp letter
        refine ⟨rfl, .inr ⟨rfl, second, more, rfl, ?_⟩⟩
        cases half : isLowSurrogate second with
        | false =>
          simp only [half, Bool.false_eq_true, if_false] at ends
          exact absurd ends not_gives_error
        | true =>
          simp only [half, if_true] at ends
          obtain ⟨same, rfl⟩ := gives_pure.mp ends
          exact ⟨digits, rfl, same⟩
  · rintro ⟨first, low, ⟨high, rfl, rfl⟩ | ⟨high, second, more, rfl, digits, half, rfl⟩⟩
    · obtain ⟨suffix, taken⟩ := first
      refine ⟨suffix, ⟨suffix, taken⟩, ?_⟩
      simp only [low, high, Bool.false_eq_true, if_false, gives_pure, and_self]
    · obtain ⟨suffix, taken⟩ := first
      refine ⟨suffix, ⟨suffix, taken⟩, ?_⟩
      simp only [low, high, Bool.false_eq_true, if_false, if_true, gives_bind]
      obtain ⟨suffix', taken'⟩ := digits
      refine ⟨(), _, List.suffix_cons .., gives_surrogateMark_iff.mpr rfl, (), _,
        List.suffix_cons .., gives_surrogateMark_iff.mpr rfl, second, rest, suffix',
        ⟨suffix', taken'⟩, ?_⟩
      simp only [half, if_true, gives_pure, and_self]

/-! ## One character -/

/-- Whether the letters behind `\\u` spell the character as one 16-bit unit or as two. -/
def UnitsSpell (letters : List Char) (c : Char) : Prop :=
  HexSpells letters c.toNat ∨ ∃ first high second low, letters = first ++ '\\' :: 'u' :: second ∧
    HexSpells first high ∧ HexSpells second low ∧ isHighSurrogate high = true ∧
    isLowSurrogate low = true ∧ surrogatePair high low = c

/-- The three ways to spell a character: as it is, by a letter behind a backslash, or by units. The
grammar has the last one in two cases, which are one to the reader. -/
theorem charSpells_iff {cs : List Char} {c : Char} :
    CharSpells cs c ↔ (cs = [c] ∧ ' ' ≤ c ∧ c ≠ '"' ∧ c ≠ '\\') ∨
      (∃ letter, cs = ['\\', letter] ∧ letterEscape? letter = some c) ∨
      ∃ letters, cs = '\\' :: 'u' :: letters ∧ UnitsSpell letters c := by
  constructor
  · intro h
    cases h with
    | plain visible quote backslash => exact .inl ⟨rfl, visible, quote, backslash⟩
    | letter known => exact .inr (.inl ⟨_, rfl, known⟩)
    | unit digits => exact .inr (.inr ⟨_, rfl, .inl digits⟩)
    | pair first second high low =>
      exact .inr (.inr ⟨_, rfl, .inr ⟨_, _, _, _, rfl, first, second, high, low, rfl⟩⟩)
  · rintro (⟨rfl, visible, quote, backslash⟩ | ⟨letter, rfl, known⟩ | ⟨letters, rfl, digits |
      ⟨first, high, second, low, rfl, spelled, spelled', isHigh, isLow, rfl⟩⟩)
    · exact .plain visible quote backslash
    · exact .letter known
    · exact .unit digits
    · exact .pair spelled spelled' isHigh isLow

theorem hexDigit?_lt {c : Char} {n : Nat} (h : hexDigit? c = some n) : n < 16 := by
  have value : ∀ d : Char, d.val.toNat = d.toNat := fun _ => rfl
  simp only [hexDigit?, Bool.and_eq_true, decide_eq_true_eq, Char.le_def, UInt32.le_iff_toNat_le,
    value, Char.reduceToNat] at h
  split at h
  · cases h
    omega
  · split at h
    · cases h
      omega
    · split at h
      · cases h
        omega
      · cases h

theorem HexSpells.lt {digits : List Char} {unit : Nat} (h : HexSpells digits unit) :
    unit < 0x10000 := by
  obtain ⟨ha, hb, hc, hd⟩ := h
  have := hexDigit?_lt ha
  have := hexDigit?_lt hb
  have := hexDigit?_lt hc
  have := hexDigit?_lt hd
  omega

/-- A unit that is no half of a surrogate pair is a character, and it is the character of just that
number. -/
theorem toNat_ofNat_unit {unit : Nat} (small : unit < 0x10000) (low : isLowSurrogate unit = false)
    (high : isHighSurrogate unit = false) : (Char.ofNat unit).toNat = unit := by
  simp only [isLowSurrogate, isHighSurrogate, Bool.and_eq_false_iff, decide_eq_false_iff_not]
    at low high
  have valid : unit.isValidChar := by
    unfold Nat.isValidChar
    omega
  rw [Char.ofNat, dif_pos valid]
  rfl

/-- A character is no half of a surrogate pair. Conversely to `toNat_ofNat_unit`, the units that
spell a character alone are those that are none. -/
theorem not_isSurrogate_toNat (c : Char) :
    isLowSurrogate c.toNat = false ∧ isHighSurrogate c.toNat = false := by
  have valid := c.valid
  have same : c.val.toNat = c.toNat := rfl
  simp only [UInt32.isValidChar, Nat.isValidChar, same] at valid
  simp only [isLowSurrogate, isHighSurrogate, Bool.and_eq_false_iff, decide_eq_false_iff_not]
  omega

/-- What an escape of units takes is what spells its character in units, seen from the grammar. -/
theorem gives_unitEscape_iff_unitsSpell {cs rest : List Char} {c : Char} :
    Gives (unitEscape cs) c rest ↔ ∃ letters, cs = letters ++ rest ∧ UnitsSpell letters c := by
  simp only [gives_unitEscape_iff, gives_hexUnit_iff]
  constructor
  · rintro ⟨unit, _, ⟨first, rfl, spelled⟩, low, ⟨high, rfl, rfl⟩ |
      ⟨high, low', _, rfl, ⟨second, rfl, spelled'⟩, isLow, same⟩⟩
    · refine ⟨first, rfl, .inl ?_⟩
      rwa [toNat_ofNat_unit spelled.lt low high]
    · exact ⟨first ++ '\\' :: 'u' :: second, by simp,
        .inr ⟨first, unit, second, low', rfl, spelled, spelled', high, isLow, same⟩⟩
  · rintro ⟨letters, rfl, digits | ⟨first, high, second, low, rfl, spelled, spelled', isHigh, isLow,
      same⟩⟩
    · obtain ⟨low, high⟩ := not_isSurrogate_toNat c
      exact ⟨_, rest, ⟨letters, rfl, digits⟩, low, .inl ⟨high, Char.ofNat_toNat c, rfl⟩⟩
    · have low' : isLowSurrogate high = false := by
        simp only [isHighSurrogate, isLowSurrogate, Bool.and_eq_true, decide_eq_true_eq,
          Bool.and_eq_false_iff, decide_eq_false_iff_not] at isHigh ⊢
        omega
      exact ⟨high, _, ⟨first, by simp, spelled⟩, low',
        .inr ⟨isHigh, low, _, rfl, ⟨second, rfl, spelled'⟩, isLow, same⟩⟩

/-- **What an escape takes is what spells its character**, behind the backslash: a letter, or
units. -/
theorem gives_escape_iff {cs rest : List Char} {c : Char} :
    Gives (escape cs) c rest ↔
      ∃ letters, cs = letters ++ rest ∧ CharSpells ('\\' :: letters) c := by
  have spells : ∀ letters, CharSpells ('\\' :: letters) c ↔
      (∃ letter, letters = [letter] ∧ letterEscape? letter = some c) ∨
        ∃ more, letters = 'u' :: more ∧ UnitsSpell more c := by
    intro letters
    rw [charSpells_iff]
    refine ⟨?_, .inr ∘ ?_⟩
    · rintro (⟨same, -, -, other⟩ | ⟨letter, same, known⟩ | ⟨more, same, units⟩)
      · exact absurd (List.cons.inj same).1.symm other
      · exact .inl ⟨letter, (List.cons.inj same).2, known⟩
      · exact .inr ⟨more, (List.cons.inj same).2, units⟩
    · rintro (⟨letter, rfl, known⟩ | ⟨more, rfl, units⟩)
      · exact .inl ⟨letter, rfl, known⟩
      · exact .inr ⟨more, rfl, units⟩
  simp only [spells]
  cases cs with
  | nil =>
    refine iff_of_false not_gives_error ?_
    rintro ⟨_, whole, ⟨letter, rfl, -⟩ | ⟨more, rfl, -⟩⟩ <;> cases whole
  | cons d ds =>
    rw [escape]
    constructor
    · intro h
      split at h
      · next known =>
        obtain ⟨rfl, rfl⟩ := gives_ok.mp h
        exact ⟨[d], rfl, .inl ⟨d, rfl, known⟩⟩
      · split at h
        · next isU =>
          subst isU
          obtain ⟨more, rfl, units⟩ := gives_unitEscape_iff_unitsSpell.mp ((gives_widen _).mp h)
          exact ⟨'u' :: more, rfl, .inr ⟨more, rfl, units⟩⟩
        · exact absurd h not_gives_error
    · rintro ⟨_, whole, ⟨letter, rfl, known⟩ | ⟨more, rfl, units⟩⟩
      · obtain ⟨rfl, rfl⟩ := List.cons.inj whole
        rw [known]
        exact gives_ok.mpr ⟨rfl, rfl⟩
      · obtain ⟨rfl, rfl⟩ := List.cons.inj whole
        have noLetter : letterEscape? 'u' = none := rfl
        rw [noLetter]
        exact (gives_widen _).mpr (gives_unitEscape_iff_unitsSpell.mpr ⟨more, rfl, units⟩)

/-! ## The whole string -/

/-- Whether the text begins with what spells the characters, and then a quote and the rest. -/
def SpellsUpToQuote (cs chars rest : List Char) : Prop :=
  ∃ body, cs = body ++ '"' :: rest ∧ CharsSpell body chars

section UpToQuote

variable {more chars rest : List Char}

/-- A text that ends holds no closing quote, so nothing in it is the end of a string. -/
theorem not_spellsUpToQuote_nil : ¬ SpellsUpToQuote [] chars rest := by
  rintro ⟨body, whole, -⟩
  simp at whole

/-- At a quote the string ends, with nothing more in it. -/
theorem spellsUpToQuote_quote : SpellsUpToQuote ('"' :: more) chars rest ↔
    chars = [] ∧ more = rest := by
  constructor
  · rintro ⟨body, whole, spelled⟩
    cases spelled with
    | nil => exact ⟨rfl, (List.cons.inj whole).2⟩
    | cons first others =>
      rcases charSpells_iff.mp first with ⟨rfl, -, quote, -⟩ | ⟨letter, rfl, -⟩ | ⟨letters, rfl, -⟩
      · exact absurd (List.cons.inj whole).1.symm quote
      · cases (List.cons.inj whole).1
      · cases (List.cons.inj whole).1
  · rintro ⟨rfl, rfl⟩
    exact ⟨[], rfl, .nil⟩

/-- At a backslash an escape is taken, and the string goes on behind it. -/
theorem spellsUpToQuote_backslash : SpellsUpToQuote ('\\' :: more) chars rest ↔
    ∃ c tail others, Gives (escape more) c tail ∧ chars = c :: others ∧
      SpellsUpToQuote tail others rest := by
  simp only [gives_escape_iff]
  constructor
  · rintro ⟨body, whole, spelled⟩
    cases spelled with
    | nil => cases (List.cons.inj whole).1
    | @cons spelling body c others first spelled =>
      obtain ⟨letters, rfl⟩ : ∃ letters, spelling = '\\' :: letters := by
        rcases charSpells_iff.mp first with ⟨rfl, -, -, other⟩ | ⟨letter, rfl, -⟩ |
          ⟨letters, rfl, -⟩
        · exact absurd (List.cons.inj whole).1.symm other
        · exact ⟨_, rfl⟩
        · exact ⟨_, rfl⟩
      obtain ⟨-, behind⟩ := List.cons.inj whole
      refine ⟨c, body ++ '"' :: rest, others, ⟨letters, ?_, first⟩, rfl, body, rfl, spelled⟩
      rw [behind]
      exact List.append_assoc ..
  · rintro ⟨c, tail, others, ⟨letters, rfl, first⟩, rfl, body, rfl, spelled⟩
    exact ⟨'\\' :: letters ++ body, by simp, .cons first spelled⟩

/-- Any other character stands for itself, unless it is a control character, and the string goes on
behind it. -/
theorem spellsUpToQuote_plain {c : Char} (quote : c ≠ '"') (backslash : c ≠ '\\') :
    SpellsUpToQuote (c :: more) chars rest ↔
      ' ' ≤ c ∧ ∃ others, chars = c :: others ∧ SpellsUpToQuote more others rest := by
  constructor
  · rintro ⟨body, whole, spelled⟩
    cases spelled with
    | nil => exact absurd (List.cons.inj whole).1 quote
    | @cons spelling body d others first spelled =>
      rcases charSpells_iff.mp first with ⟨rfl, visible, -⟩ | ⟨letter, rfl, -⟩ | ⟨letters, rfl, -⟩
      · obtain ⟨rfl, behind⟩ := List.cons.inj whole
        exact ⟨visible, others, rfl, body, behind, spelled⟩
      · exact absurd (List.cons.inj whole).1 backslash
      · exact absurd (List.cons.inj whole).1 backslash
  · rintro ⟨visible, others, rfl, body, rfl, spelled⟩
    exact ⟨[c] ++ body, rfl, .cons (.plain visible quote backslash) spelled⟩

end UpToQuote

/-- What is taken of a string, up to its closing quote, spells what it adds to the string. The
induction is that of the loop, with a case for each of its branches. -/
theorem gives_quotedFrom_iff {text cs rest : List Char} {read s : String} {suffix : cs <:+ text} :
    Gives (quotedFrom read cs suffix) s rest ↔
      ∃ chars, SpellsUpToQuote cs chars rest ∧ s.toList = read.toList ++ chars := by
  fun_induction quotedFrom with
  | case1 read => simp [not_gives_error, not_spellsUpToQuote_nil]
  | case2 read more =>
    simp only [gives_ok, spellsUpToQuote_quote]
    constructor
    · rintro ⟨rfl, rfl⟩
      exact ⟨[], ⟨rfl, rfl⟩, by simp⟩
    · rintro ⟨_, ⟨rfl, rfl⟩, same⟩
      rw [List.append_nil] at same
      exact ⟨(String.toList_inj.mp same).symm, rfl⟩
  | case3 read more fault failed =>
    simp [not_gives_error, spellsUpToQuote_backslash, failed]
  | case4 read more c tail suffix' taken _ _ _ ih =>
    -- an escape has been taken, and the others are read behind it
    have step : ∀ {d left}, Gives (escape more) d left ↔ c = d ∧ tail = left := by
      intro d left
      rw [taken, gives_ok]
    rw [ih]
    simp only [spellsUpToQuote_backslash, step, String.toList_push, List.append_assoc,
      List.singleton_append]
    constructor
    · rintro ⟨others, spelled, same⟩
      exact ⟨c :: others, ⟨c, tail, others, ⟨rfl, rfl⟩, rfl, spelled⟩, same⟩
    · rintro ⟨_, ⟨_, _, others, ⟨rfl, rfl⟩, rfl, spelled⟩, same⟩
      exact ⟨others, spelled, same⟩
  | case5 read c more _ quote backslash control =>
    simp [not_gives_error, spellsUpToQuote_plain quote backslash, Char.not_le.mpr control]
  | case6 read c more _ quote backslash visible _ ih =>
    rw [ih]
    simp only [spellsUpToQuote_plain quote backslash, Char.not_lt.mp visible, true_and,
      String.toList_push, List.append_assoc, List.singleton_append]
    constructor
    · rintro ⟨others, spelled, same⟩
      exact ⟨c :: others, ⟨others, rfl, spelled⟩, same⟩
    · rintro ⟨_, ⟨others, rfl, spelled⟩, same⟩
      exact ⟨others, spelled, same⟩

/-- Which characters denote a string behind its opening quote. -/
def QuotedDenotes (cs : List Char) (s : String) : Prop :=
  StringDenotes ('"' :: cs) s

/-- **Strings are read as they are spelled**, whatever comes behind them: a string shows its own
end. -/
theorem reads_quoted : Reads quoted QuotedDenotes Anywhere := by
  have taken : ∀ {cs s rest}, Gives (quoted cs) s rest ↔ SpellsUpToQuote cs s.toList rest := by
    intro cs s rest
    rw [quoted, gives_quotedFrom_iff]
    simp
  refine ⟨fun h => ?_, fun h _ => taken.mpr ?_⟩
  · obtain ⟨body, rfl, spelled⟩ := taken.mp h
    exact ⟨body ++ ['"'], by simp, body, spelled, rfl⟩
  · obtain ⟨body, spelled, whole⟩ := h
    obtain ⟨-, rfl⟩ := List.cons.inj whole
    exact ⟨body, by simp, spelled⟩

end LabelQuery.Json
