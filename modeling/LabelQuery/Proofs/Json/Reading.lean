import LabelQuery.Json.Grammar
import LabelQuery.Json.Reader
import Mathlib.Data.List.TakeWhile

/-!
# What a reader takes, and what it leaves

The readers of JSON return what they took together with a proof about the rest. The proof has no
part in what the readers do, so the laws about them speak of values and rests only: `Gives` says
which value came of a reading and what it left.

A reader **reads** a relation (`Reads`) if the two fit in both directions. What it takes denotes the
value that it gives; and in front of a rest that does not go on with it, everything that denotes a
value is taken, all of it, and gives that value. What may go on with a value depends on the value:
only a number can go on.

Each reader is shown to read its part of the grammar in a module of its own. Here are the laws of
`Gives`, and the readers that all others are made of: blanks and literal words.
-/

namespace LabelQuery.Json

/-! ## Results -/

section Results

variable {α β : Type} {text : List Char}

/-- Whether the value came of the reading, with this rest left of the text. -/
def Gives (result : Except Fault (Taken α text)) (a : α) (rest : List Char) : Prop :=
  ∃ suffix, result = .ok ⟨a, rest, suffix⟩

/-- A reader that has succeeded gives what it took, and leaves what it left. -/
theorem gives_ok {b a : α} {left rest : List Char} {suffix : left <:+ text} :
    Gives (.ok ⟨b, left, suffix⟩) a rest ↔ b = a ∧ left = rest := by
  constructor
  · rintro ⟨_, h⟩
    cases h
    exact ⟨rfl, rfl⟩
  · rintro ⟨rfl, rfl⟩
    exact ⟨suffix, rfl⟩

/-- The same in a `do` block, where a reader ends with `return`. -/
theorem gives_pure {b a : α} {left rest : List Char} {suffix : left <:+ text} :
    Gives (pure ⟨b, left, suffix⟩) a rest ↔ b = a ∧ left = rest := gives_ok

/-- A fault gives nothing. With this lemma every branch of a reader that ends in a fault is
closed. -/
theorem not_gives_error {fault : Fault} {a : α} {rest : List Char} :
    ¬ Gives (.error fault : Except Fault (Taken α text)) a rest := nofun

/-- A reading gives one value and leaves one rest, because readers are functions. -/
theorem Gives.unique {result : Except Fault (Taken α text)} {a b : α} {rest rest' : List Char}
    (first : Gives result a rest) (second : Gives result b rest') : a = b ∧ rest = rest' := by
  obtain ⟨_, h⟩ := first
  obtain ⟨_, h'⟩ := second
  cases h.symm.trans h'
  exact ⟨rfl, rfl⟩

/-- Two readers, one after the other, give what the second gives on what the first has left. With
this lemma a reader in `do` notation is taken apart without being unfolded. -/
theorem gives_bind {result : Except Fault (Taken α text)} {text' : List Char}
    {next : Taken α text → Except Fault (Taken β text')} {b : β} {rest : List Char} :
    Gives (result >>= next) b rest ↔
      ∃ a middle suffix, Gives result a middle ∧ Gives (next ⟨a, middle, suffix⟩) b rest := by
  constructor
  · rintro ⟨_, h⟩
    cases first : result with
    | error fault =>
      rw [first] at h
      cases h
    | ok taken =>
      rw [first] at h
      exact ⟨_, _, taken.suffix, ⟨_, rfl⟩, _, h⟩
  · rintro ⟨a, middle, _, ⟨_, rfl⟩, _, h⟩
    exact ⟨_, h⟩

/-- To see a reading from a longer text changes neither what is given nor what is left. -/
theorem gives_widen {longer : List Char} {result : Except Fault (Taken α text)}
    (suffix : text <:+ longer) {a : α} {rest : List Char} :
    Gives (result.map (·.widen suffix)) a rest ↔ Gives result a rest := by
  cases result with
  | error fault => exact iff_of_false not_gives_error not_gives_error
  | ok taken =>
    obtain ⟨value, left, _⟩ := taken
    rw [gives_ok]
    exact gives_ok

/-- The same for a reader whose value is changed on the way out. -/
theorem gives_map_widen {longer : List Char} {result : Except Fault (Taken α text)} {f : α → β}
    (suffix : text <:+ longer) {b : β} {rest : List Char} :
    Gives (result.map fun taken => (taken.map f).widen suffix) b rest ↔
      ∃ a, Gives result a rest ∧ f a = b := by
  cases result with
  | error fault => exact iff_of_false not_gives_error fun ⟨_, h, _⟩ => not_gives_error h
  | ok taken =>
    obtain ⟨value, left, _⟩ := taken
    constructor
    · intro h
      obtain ⟨same, rfl⟩ := gives_ok.mp h
      exact ⟨value, gives_ok.mpr ⟨rfl, rfl⟩, same⟩
    · rintro ⟨a, h, rfl⟩
      obtain ⟨rfl, rfl⟩ := gives_ok.mp h
      exact gives_ok.mpr ⟨rfl, rfl⟩

end Results

/-- Whether a reader takes exactly what denotes its values, where `Ends a rest` says that the rest
does not go on with what denotes `a`. -/
structure Reads {α : Type} (reader : Reader α) (Denote : List Char → α → Prop)
    (Ends : α → List Char → Prop) : Prop where
  /-- What is taken denotes the value that is given. -/
  sound : ∀ {cs a rest}, Gives (reader cs) a rest → ∃ front, cs = front ++ rest ∧ Denote front a
  /-- What denotes a value is taken, in front of any rest that does not go on with it. -/
  complete : ∀ {front a rest}, Denote front a → Ends a rest → Gives (reader (front ++ rest)) a rest

/-- The condition that asks nothing of the rest. -/
def Anywhere {α : Type} : α → List Char → Prop := fun _ _ => True

/-! ## Blanks -/

theorem allBlank_nil : AllBlank [] := nofun

/-- Blanks behind blanks are blanks. -/
theorem AllBlank.append {as bs : List Char} (first : AllBlank as) (second : AllBlank bs) :
    AllBlank (as ++ bs) := by
  intro c mem
  rcases List.mem_append.mp mem with mem | mem
  · exact first c mem
  · exact second c mem

/-- A text is blank, or something solid comes behind its blanks. Every reader that skips blanks
decides between the two. -/
theorem allBlank_or_exists_solid (cs : List Char) :
    AllBlank cs ∨ ∃ gap c more, AllBlank gap ∧ isBlank c = false ∧ cs = gap ++ c :: more := by
  have parts := List.takeWhile_append_dropWhile (p := isBlank) (l := cs)
  have blank : AllBlank (cs.takeWhile isBlank) := fun c mem => List.mem_takeWhile_imp mem
  have stopped := List.head?_dropWhile_not isBlank cs
  cases left : cs.dropWhile isBlank with
  | nil =>
    rw [left, List.append_nil] at parts
    rw [parts] at blank
    exact .inl blank
  | cons c more =>
    rw [left] at parts stopped
    exact .inr ⟨_, c, more, blank, stopped, parts.symm⟩

/-- Of a blank text nothing is left when the blanks have been taken. -/
theorem blanks_of_allBlank {cs : List Char} (blank : AllBlank cs) :
    blanks cs = ⟨(), [], List.nil_suffix⟩ := by
  have none : cs.dropWhile isBlank = [] := List.dropWhile_eq_nil_iff.mpr blank
  simp only [blanks, none]

/-- Blanks are taken up to the first solid character and no further. -/
theorem blanks_of_solid {gap more : List Char} {c : Char} (blank : AllBlank gap)
    (solid : isBlank c = false) :
    blanks (gap ++ c :: more) = ⟨(), c :: more, List.suffix_append _ _⟩ := by
  have left : (gap ++ c :: more).dropWhile isBlank = c :: more := by
    rw [List.dropWhile_append_of_pos blank, List.dropWhile_cons_of_neg (by simp [solid])]
  simp only [blanks, left]

/-- Nothing trails exactly if the rest is blank. -/
theorem trailing?_eq_none_iff {rest : List Char} : trailing? rest = none ↔ AllBlank rest := by
  rcases allBlank_or_exists_solid rest with blank | ⟨gap, c, more, blank, solid, rfl⟩
  · rw [trailing?, blanks_of_allBlank blank]
    exact iff_of_true rfl blank
  · rw [trailing?, blanks_of_solid blank solid]
    refine iff_of_false nofun fun all => ?_
    have other := all c (List.mem_append_right _ List.mem_cons_self)
    exact absurd (solid.symm.trans other) Bool.false_ne_true

/-! ## Literal words -/

/-- The reader of a literal word takes the letters of the word and nothing else. -/
theorem gives_word_iff {letters cs rest : List Char} :
    Gives (word letters cs) () rest ↔ cs = letters ++ rest := by
  induction letters generalizing cs with
  | nil => simp [word, gives_ok]
  | cons letter letters ih =>
    cases cs with
    | nil => simp [word, not_gives_error]
    | cons c cs =>
      rw [word]
      by_cases same : c = letter
      · rw [if_pos same, gives_widen, ih, same, List.cons_append, List.cons.injEq,
          and_iff_right rfl]
      · rw [if_neg same]
        refine iff_of_false not_gives_error fun h => ?_
        exact same (List.cons.inj h).1

end LabelQuery.Json
