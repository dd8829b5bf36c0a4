import LabelQuery.Proofs.Json.Entries
import LabelQuery.Proofs.Json.Number

/-!
# JSON values are read as they are written

A value is known by its first character. `ValueGiven` lists what the reader of values may take, one
case for each kind of value, and `gives_valueWith_iff` says that it takes nothing else. From there
the reader is compared with the grammar level by level: at each level the values inside arrays and
objects are those of the level below (`reads_value`).

A whole text is read to its end exactly if it denotes the value that comes out (`value_iff_padded`).
Reading gives one answer, so a text denotes one value at most (`Padded.unique`).
-/

namespace LabelQuery.Json

/-! ## Values with blanks before them -/

/-- Whether the text is blanks and then something that denotes the value. -/
def Led {α : Type} (Denote : List Char → α → Prop) (front : List Char) (a : α) : Prop :=
  ∃ gap core, AllBlank gap ∧ Denote core a ∧ front = gap ++ core

/-- What denotes a value denotes it also as what may have blanks in front, with none of them. -/
theorem Led.of_denote {α : Type} {Denote : List Char → α → Prop} {core : List Char} {a : α}
    (denotes : Denote core a) : Led Denote core a :=
  ⟨[], core, allBlank_nil, denotes, rfl⟩

/-- In front of a solid character there are no blanks, so what is led in by blanks and begins with
such a character denotes the value as it stands. -/
theorem Led.denote_of_solid {α : Type} {Denote : List Char → α → Prop} {front rest more : List Char}
    {a : α} {c : Char} (led : Led Denote front a) (solid : isBlank c = false)
    (whole : c :: more = front ++ rest) : Denote front a := by
  obtain ⟨gap, core, blank, denotes, rfl⟩ := led
  cases gap with
  | nil => exact denotes
  | cons d gap =>
    obtain ⟨rfl, -⟩ := List.cons.inj whole
    exact absurd (solid.symm.trans (blank c List.mem_cons_self)) Bool.false_ne_true

/-- Whether a value ends before the rest. Only a number can go on. -/
def EndsValue (v : Value) (rest : List Char) : Prop :=
  v = .number → EndsNumber rest

/-- What ends an entry of an array or an object ends a number too: a blank, a comma and a closing
bracket can none of them go on with it. -/
theorem EndsEntry.endsNumber {rest : List Char} (ends : EndsEntry rest) : EndsNumber rest := by
  intro c head
  rcases ends c head with blank | rfl | rfl | rfl
  · simp only [isBlank, Bool.or_eq_true, decide_eq_true_eq] at blank
    rcases blank with ((rfl | rfl) | rfl) | rfl <;> decide
  · decide
  · decide
  · decide

/-- A blank rest ends an entry, so a value at the end of a text is ended by what may trail behind
it. -/
theorem AllBlank.endsEntry {gap : List Char} (blank : AllBlank gap) : EndsEntry gap := by
  intro c head
  exact .inl (blank c (List.mem_of_mem_head? head))

/-! ## Fields -/

section Fields

variable {item : Reader Value} {Item : List Char → Value → Prop}

/-- What the reader of fields takes, part by part: the rest of the name up to its quote, blanks, a
colon, and what the reader of items takes behind it. -/
theorem gives_field_iff {cs rest : List Char} {entry : String × Value} :
    Gives (field item cs) entry rest ↔ ∃ gap more, AllBlank gap ∧
      Gives (quoted cs) entry.1 (gap ++ ':' :: more) ∧ Gives (item more) entry.2 rest := by
  constructor
  · intro h
    unfold field at h
    split at h
    · exact absurd h not_gives_error
    · next name left suffix named =>
      rcases allBlank_or_exists_solid left with blank | ⟨gap, c, more, blank, solid, rfl⟩
      · simp only [blanks_of_allBlank blank] at h
        exact absurd h not_gives_error
      · simp only [blanks_of_solid blank solid] at h
        split at h
        · next colon =>
          subst colon
          split at h
          · exact absurd h not_gives_error
          · next value _ suffix' given =>
            obtain ⟨rfl, rfl⟩ := gives_ok.mp h
            exact ⟨gap, more, blank, ⟨suffix, named⟩, suffix', given⟩
        · exact absurd h not_gives_error
  · rintro ⟨gap, more, blank, ⟨_, named⟩, _, given⟩
    unfold field
    simp only [named, blanks_of_solid blank (c := ':') rfl, if_true, given, gives_ok, and_self]

/-- Which texts denote a field and end with its value. -/
def TightField (Item : List Char → Value → Prop) (cs : List Char) (entry : String × Value) : Prop :=
  ∃ name gap value, StringDenotes name entry.1 ∧ AllBlank gap ∧ Led Item value entry.2 ∧
    cs = name ++ gap ++ ':' :: value

/-- Between other fields it makes no difference where a field ends: blanks behind its value can be
counted to the value or to the field around it. -/
theorem padded_fieldDenotes_iff {cs : List Char} {entry : String × Value} :
    Padded (FieldDenotes Item) cs entry ↔ Padded (TightField Item) cs entry := by
  constructor
  · rintro ⟨before, _, after, blank, blank', rfl, name, gap, _, named, between,
      ⟨gap', core, after', blank₁, blank₂, rfl, denotes⟩, rfl⟩
    exact ⟨before, name ++ gap ++ ':' :: (gap' ++ core), after' ++ after, blank,
      blank₂.append blank', by simp, name, gap, gap' ++ core, named, between,
      ⟨gap', core, blank₁, denotes, rfl⟩, rfl⟩
  · rintro ⟨before, _, after, blank, blank', rfl, name, gap, _, named, between,
      ⟨gap', core, blank₁, denotes, rfl⟩, rfl⟩
    exact ⟨before, _, after, blank, blank', rfl, name, gap, gap' ++ core, named, between,
      ⟨gap', core, [], blank₁, allBlank_nil, (List.append_nil _).symm, denotes⟩, rfl⟩

end Fields

/-! ## Entries -/

section Entries

variable {item : Reader Value} {Item : List Char → Value → Prop}
  (reads : Reads item (Led Item) EndsValue)

include reads

/-- Items are read as they are written, if the reader of values reads what denotes a value. The
first character of an item has to tell it from the end of the array. -/
theorem readsEntries_itemGiven (begins : ∀ {core v}, Item core v →
    ∃ c more, core = c :: more ∧ isBlank c = false ∧ c ≠ ']') :
    ReadsEntries (ItemGiven item) Item ']' where
  sound solid given := by
    obtain ⟨front, whole, led⟩ := reads.sound given
    exact ⟨front, whole, led.denote_of_solid solid whole⟩
  complete denotes ends := reads.complete (.of_denote denotes) fun _ => ends.endsNumber
  begins := begins
  isClose := .inl rfl

/-- Fields are read as they are written, if their values are. A field begins with a quote, so
nothing has to be asked to tell it from the end of the object. -/
theorem readsEntries_fieldGiven : ReadsEntries (FieldGiven item) (TightField Item) '}' where
  sound := by
    rintro c more ⟨name, value⟩ rest - ⟨_, begins, given⟩
    obtain ⟨rfl, rfl⟩ := List.cons.inj begins
    obtain ⟨gap, left, blank, named, content⟩ := gives_field_iff.mp given
    obtain ⟨spelled, rfl, denotes⟩ := reads_quoted.sound named
    obtain ⟨front, rfl, led⟩ := reads.sound content
    exact ⟨'"' :: spelled ++ gap ++ ':' :: front, by simp, '"' :: spelled, gap, front, denotes,
      blank, led, rfl⟩
  complete := by
    rintro _ ⟨name, value⟩ rest ⟨_, gap, front, ⟨body, spells, rfl⟩, blank, led, rfl⟩ ends
    have given := reads.complete led fun _ => ends.endsNumber
    have named : Gives (quoted (body ++ ['"'] ++ (gap ++ ':' :: (front ++ rest)))) name
        (gap ++ ':' :: (front ++ rest)) := reads_quoted.complete ⟨body, spells, rfl⟩ trivial
    refine ⟨body ++ ['"'] ++ (gap ++ ':' :: (front ++ rest)), by simp, ?_⟩
    exact gives_field_iff.mpr ⟨gap, _, blank, named, given⟩
  begins := by
    rintro _ ⟨name, value⟩ ⟨_, gap, front, ⟨body, -, rfl⟩, -, -, rfl⟩
    exact ⟨'"', _, rfl, rfl, by decide⟩
  isClose := .inr rfl

/-- **An object is read as it is written**: what is taken behind the opening brace are fields with
commas between them, and the closing brace. -/
theorem gives_fields_iff_denote {cs rest : List Char} {entries : List (String × Value)} :
    Gives (fields item cs) entries rest ↔
      ∃ body, EntriesDenote (FieldDenotes Item) body entries ∧ cs = body ++ '}' :: rest := by
  have tight : ∀ cs entry,
      Padded (FieldDenotes Item) cs entry ↔ Padded (TightField Item) cs entry :=
    fun _ _ => padded_fieldDenotes_iff
  simp only [gives_fields_iff, encloses_iff (readsEntries_fieldGiven reads),
    entriesDenote_congr tight]

/-- **An array is read as it is written**: what is taken behind the opening bracket are items with
commas between them, and the closing bracket. -/
theorem gives_items_iff_denote (begins : ∀ {core v}, Item core v →
    ∃ c more, core = c :: more ∧ isBlank c = false ∧ c ≠ ']') {cs rest : List Char}
    {vs : List Value} : Gives (items item cs) vs rest ↔
      ∃ body, EntriesDenote Item body vs ∧ cs = body ++ ']' :: rest := by
  simp only [gives_items_iff, encloses_iff (readsEntries_itemGiven reads begins)]

end Entries

/-! ## One value -/

variable {range : NumberRange}

/-- What the reader takes as a value behind the blanks, by the first character. -/
inductive ValueGiven (range : NumberRange) (item? : Option (Reader Value)) :
    List Char → Value → List Char → Prop where
  | null {rest : List Char} : ValueGiven range item? ('n' :: 'u' :: 'l' :: 'l' :: rest) .null rest
  | true {rest : List Char} :
    ValueGiven range item? ('t' :: 'r' :: 'u' :: 'e' :: rest) (.bool true) rest
  | false {rest : List Char} :
    ValueGiven range item? ('f' :: 'a' :: 'l' :: 's' :: 'e' :: rest) (.bool false) rest
  | string {more rest : List Char} {s : String} : Gives (quoted more) s rest →
    ValueGiven range item? ('"' :: more) (.string s) rest
  | number {more rest : List Char} {c : Char} : c = '-' ∨ c.isDigit = true →
    Gives (number range (c :: more)) () rest → ValueGiven range item? (c :: more) .number rest
  | array {item : Reader Value} {more rest : List Char} {vs : List Value} : item? = some item →
    Gives (items item more) vs rest → ValueGiven range item? ('[' :: more) (.array vs) rest
  | object {item : Reader Value} {more rest : List Char} {entries : List (String × Value)} :
    item? = some item → Gives (fields item more) entries rest →
    ValueGiven range item? ('{' :: more) (.object entries) rest

theorem isBlank_of_isDigit {c : Char} (digit : c.isDigit = true) : isBlank c = false := by
  rw [← Bool.not_eq_true]
  intro blank
  simp only [isBlank, Bool.or_eq_true, decide_eq_true_eq] at blank
  rcases blank with ((rfl | rfl) | rfl) | rfl <;> exact absurd digit (by decide)

/-- The reader of values takes blanks, and then a value of one of the kinds, which its first
character tells. All branches of the reader that end in a fault are gone here. -/
theorem gives_valueWith_iff {item? : Option (Reader Value)} {cs rest : List Char} {v : Value} :
    Gives (valueWith range item? cs) v rest ↔
      ∃ gap core, AllBlank gap ∧ ValueGiven range item? core v rest ∧ cs = gap ++ core := by
  constructor
  · intro h
    unfold valueWith at h
    rcases allBlank_or_exists_solid cs with blank | ⟨gap, c, more, blank, solid, rfl⟩
    · simp only [blanks_of_allBlank blank] at h
      exact absurd h not_gives_error
    · simp only [blanks_of_solid blank solid] at h
      refine ⟨gap, _, blank, ?_, rfl⟩
      split at h
      · obtain ⟨_, given, rfl⟩ := (gives_map_widen _).mp h
        obtain rfl := gives_word_iff.mp given
        exact .null
      · obtain ⟨_, given, rfl⟩ := (gives_map_widen _).mp h
        obtain rfl := gives_word_iff.mp given
        exact .true
      · obtain ⟨_, given, rfl⟩ := (gives_map_widen _).mp h
        obtain rfl := gives_word_iff.mp given
        exact .false
      · obtain ⟨s, given, rfl⟩ := (gives_map_widen _).mp h
        exact .string given
      · split at h
        · exact absurd h not_gives_error
        · obtain ⟨vs, given, rfl⟩ := (gives_map_widen _).mp h
          exact .array rfl given
      · split at h
        · exact absurd h not_gives_error
        · obtain ⟨entries, given, rfl⟩ := (gives_map_widen _).mp h
          exact .object rfl given
      · split at h
        · next numeric =>
          obtain ⟨_, given, rfl⟩ := (gives_map_widen _).mp h
          exact .number (by simpa using numeric) given
        · exact absurd h not_gives_error
  · rintro ⟨gap, core, blank, given, rfl⟩
    unfold valueWith
    cases given with
    | null =>
      simp only [blanks_of_solid blank (c := 'n') rfl]
      exact (gives_map_widen _).mpr ⟨(), gives_word_iff.mpr rfl, rfl⟩
    | true =>
      simp only [blanks_of_solid blank (c := 't') rfl]
      exact (gives_map_widen _).mpr ⟨(), gives_word_iff.mpr rfl, rfl⟩
    | false =>
      simp only [blanks_of_solid blank (c := 'f') rfl]
      exact (gives_map_widen _).mpr ⟨(), gives_word_iff.mpr rfl, rfl⟩
    | string given =>
      simp only [blanks_of_solid blank (c := '"') rfl]
      exact (gives_map_widen _).mpr ⟨_, given, rfl⟩
    | @number more _ c numeric given =>
      have solid : isBlank c = false := by
        rcases numeric with rfl | digit
        · rfl
        · exact isBlank_of_isDigit digit
      simp only [blanks_of_solid blank solid]
      split
      iterate 6 exact absurd numeric (by decide)
      rw [if_pos (by simpa using numeric)]
      exact (gives_map_widen _).mpr ⟨(), given, rfl⟩
    | array some given =>
      simp only [blanks_of_solid blank (c := '[') rfl, some]
      exact (gives_map_widen _).mpr ⟨_, given, rfl⟩
    | object some given =>
      simp only [blanks_of_solid blank (c := '{') rfl, some]
      exact (gives_map_widen _).mpr ⟨_, given, rfl⟩

/-- The text of a numeral begins with a minus sign or with a digit; by that the reader of values
knows a number. -/
theorem Numeral.exists_head {n : Numeral} (proper : n.IsProper) :
    ∃ c more, (c = '-' ∨ c.isDigit = true) ∧ n.chars = c :: more := by
  cases sign : n.isNegative with
  | false =>
    obtain ⟨d, more, digit, first⟩ := n.exists_digit proper sign
    exact ⟨d, more, .inr digit, first⟩
  | true =>
    simp only [chars, sign, if_true, List.cons_append]
    exact ⟨'-', _, .inl rfl, rfl⟩

/-- Which texts denote values where `Item?` says which denote the values inside arrays and objects,
and no arrays and objects are allowed if it is missing. -/
def DenotesWith (range : NumberRange) (Item? : Option (List Char → Value → Prop)) (cs : List Char)
    (v : Value) : Prop :=
  ScalarDenotes range cs v ∨ ∃ Item, Item? = some Item ∧ ContainerDenotes Item cs v

/-- At the lowest level there is nothing that could denote a value inside an array or an object, so
only scalars are left. -/
theorem denotes_zero : Denotes range 0 = DenotesWith range none := by
  funext cs v
  simp [Denotes, DenotesWith]

/-- A level more is a level of containers around what the levels below denote. With `denotes_zero`
it makes every level a case of `DenotesWith`. -/
theorem denotes_succ (levels : Nat) :
    Denotes range (levels + 1) = DenotesWith range (some (Denotes range levels)) := by
  funext cs v
  simp [Denotes, DenotesWith]

/-- What denotes a value begins neither with a blank nor with a bracket that closes an array, so the
end of an array is never taken for an item. -/
theorem DenotesWith.begins {Item? : Option (List Char → Value → Prop)} {cs : List Char} {v : Value}
    (denotes : DenotesWith range Item? cs v) :
    ∃ c more, cs = c :: more ∧ isBlank c = false ∧ c ≠ ']' := by
  rcases denotes with scalar | ⟨Item, -, container⟩
  · cases scalar with
    | null => exact ⟨'n', _, rfl, rfl, by decide⟩
    | true => exact ⟨'t', _, rfl, rfl, by decide⟩
    | false => exact ⟨'f', _, rfl, rfl, by decide⟩
    | number proper _ =>
      obtain ⟨c, more, numeric, first⟩ := Numeral.exists_head proper
      refine ⟨c, more, first, ?_⟩
      rcases numeric with rfl | digit
      · exact ⟨rfl, by decide⟩
      · refine ⟨isBlank_of_isDigit digit, ?_⟩
        rintro rfl
        exact absurd digit (by decide)
    | string denotes =>
      obtain ⟨body, -, rfl⟩ := denotes
      exact ⟨'"', _, rfl, rfl, by decide⟩
  · cases container with
    | array _ => exact ⟨'[', _, rfl, rfl, by decide⟩
    | object _ => exact ⟨'{', _, rfl, rfl, by decide⟩

/-- The same at every level. It is what `readsEntries_itemGiven` asks of the items of an array. -/
theorem Denotes.begins {levels : Nat} {cs : List Char} {v : Value}
    (denotes : Denotes range levels cs v) :
    ∃ c more, cs = c :: more ∧ isBlank c = false ∧ c ≠ ']' := by
  cases levels with
  | zero =>
    rw [denotes_zero] at denotes
    exact denotes.begins
  | succ levels =>
    rw [denotes_succ] at denotes
    exact denotes.begins

section Level

/-- Whether the values inside arrays and objects are read as they are written, and begin as values
do. -/
structure ReadsInside (item : Reader Value) (Item : List Char → Value → Prop) : Prop where
  reads : Reads item (Led Item) EndsValue
  begins : ∀ {core v}, Item core v → ∃ c more, core = c :: more ∧ isBlank c = false ∧ c ≠ ']'

variable {item? : Option (Reader Value)} {Item? : Option (List Char → Value → Prop)}
  (below : Option.Rel ReadsInside item? Item?)

include below

/-- **What is taken denotes the value that it is taken for**, if the reader of the values inside
takes what denotes them. One case for each kind of value. -/
theorem ValueGiven.denotes {core rest : List Char} {v : Value}
    (given : ValueGiven range item? core v rest) :
    ∃ front, core = front ++ rest ∧ DenotesWith range Item? front v := by
  cases given with
  | null => exact ⟨_, rfl, .inl .null⟩
  | true => exact ⟨_, rfl, .inl .true⟩
  | false => exact ⟨_, rfl, .inl .false⟩
  | string given =>
    obtain ⟨front, rfl, denotes⟩ := reads_quoted.sound given
    exact ⟨'"' :: front, rfl, .inl (.string denotes)⟩
  | number _ given =>
    obtain ⟨n, proper, inRange, -, whole⟩ := gives_number_iff.mp given
    exact ⟨n.chars, whole, .inl (.number proper inRange)⟩
  | array some given =>
    subst some
    cases below with
    | some inside =>
      obtain ⟨body, denotes, rfl⟩ := (gives_items_iff_denote inside.reads inside.begins).mp given
      exact ⟨'[' :: body ++ [']'], by simp, .inr ⟨_, rfl, .array denotes⟩⟩
  | object some given =>
    subst some
    cases below with
    | some inside =>
      obtain ⟨body, denotes, rfl⟩ := (gives_fields_iff_denote inside.reads).mp given
      exact ⟨'{' :: body ++ ['}'], by simp, .inr ⟨_, rfl, .object denotes⟩⟩

/-- **What denotes a value is taken**, in front of a rest that ends it. Only a number asks anything
of the rest; every other value shows its own end. -/
theorem valueGiven_of_denotes {core rest : List Char} {v : Value}
    (denotes : DenotesWith range Item? core v) (ends : EndsValue v rest) :
    ValueGiven range item? (core ++ rest) v rest := by
  rcases denotes with scalar | ⟨Item, rfl, container⟩
  · cases scalar with
    | null => exact .null
    | true => exact .true
    | false => exact .false
    | @number n proper inRange =>
      have given := gives_number_iff.mpr ⟨n, proper, inRange, (ends rfl).endsAt n, rfl⟩
      obtain ⟨c, more, numeric, first⟩ := n.exists_head proper
      rw [first] at given ⊢
      exact .number numeric given
    | string denotes =>
      obtain ⟨body, spells, rfl⟩ := denotes
      exact .string (reads_quoted.complete ⟨body, spells, rfl⟩ trivial)
  · cases below with
    | some inside =>
      cases container with
      | @array body vs denotes =>
        rw [List.append_assoc, List.cons_append]
        exact .array rfl
          ((gives_items_iff_denote inside.reads inside.begins).mpr ⟨body, denotes, rfl⟩)
      | @object body entries denotes =>
        rw [List.append_assoc, List.cons_append]
        exact .object rfl ((gives_fields_iff_denote inside.reads).mpr ⟨body, denotes, rfl⟩)

/-- One level of values is read as it is written if the level below is. Both levels that can lie
below, none and another one, are covered by `Option.Rel`. -/
theorem reads_valueWith :
    Reads (valueWith range item?) (Led (DenotesWith range Item?)) EndsValue where
  sound h := by
    obtain ⟨gap, core, blank, given, rfl⟩ := gives_valueWith_iff.mp h
    obtain ⟨front, rfl, denotes⟩ := given.denotes below
    exact ⟨gap ++ front, (List.append_assoc _ _ _).symm, gap, front, blank, denotes, rfl⟩
  complete := by
    rintro _ v rest ⟨gap, core, blank, denotes, rfl⟩ ends
    exact gives_valueWith_iff.mpr
      ⟨gap, core ++ rest, blank, valueGiven_of_denotes below denotes ends, List.append_assoc _ _ _⟩

end Level

/-! ## Every level -/

/-- **Values are read as they are written**, however deep arrays and objects may nest. By induction
on the level, with `reads_valueWith` as its step. -/
theorem reads_value (levels : Nat) :
    Reads (value range levels) (Led (Denotes range levels)) EndsValue := by
  induction levels with
  | zero =>
    rw [denotes_zero]
    exact reads_valueWith .none
  | succ levels ih =>
    rw [denotes_succ]
    exact reads_valueWith (.some ⟨ih, Denotes.begins⟩)

/-- **A text is read to its end, and gives a value, exactly if it denotes that value** with nothing
but blanks around it. -/
theorem value_iff_padded {levels : Nat} {cs : List Char} {v : Value} :
    (∃ rest, Gives (value range levels cs) v rest ∧ trailing? rest = none) ↔
      Padded (Denotes range levels) cs v := by
  simp only [trailing?_eq_none_iff]
  constructor
  · rintro ⟨rest, given, blank'⟩
    obtain ⟨_, rfl, gap, core, blank, denotes, rfl⟩ := (reads_value levels).sound given
    exact ⟨gap, core, rest, blank, blank', rfl, denotes⟩
  · rintro ⟨gap, core, rest, blank, blank', rfl, denotes⟩
    refine ⟨rest, (reads_value levels).complete ⟨gap, core, blank, denotes, rfl⟩ ?_, blank'⟩
    exact fun _ => blank'.endsEntry.endsNumber

/-- A text denotes one value at most. The grammar alone does not show it; it follows because reading
gives one value, and reading is complete. -/
theorem Padded.unique {levels : Nat} {cs : List Char} {v w : Value}
    (first : Padded (Denotes range levels) cs v) (second : Padded (Denotes range levels) cs w) :
    v = w := by
  obtain ⟨_, given, -⟩ := value_iff_padded.mpr first
  obtain ⟨_, given', -⟩ := value_iff_padded.mpr second
  exact (given.unique given').1

end LabelQuery.Json
