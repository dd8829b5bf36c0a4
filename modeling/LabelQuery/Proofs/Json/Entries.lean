import LabelQuery.Json.Grammar
import LabelQuery.Proofs.Json.Quoted

/-!
# Arrays and objects are read entry by entry

The readers of arrays and objects are the same loop. It is described once, as a relation on what is
left of the text (`Encloses`, `Collects`): an entry is taken where it begins, and behind it a comma
goes on and the closing bracket ends. Each of the two readers is shown to follow the relation.

The grammar says the same about a whole text (`EntriesDenote`). That the two agree is a law about
any kind of entry (`encloses_iff`): all that it needs is that the entries themselves are read as
they are written (`ReadsEntries`), in front of what can stand behind one.
-/

namespace LabelQuery.Json

variable {α : Type}

/-! ## The loop -/

section Loop

variable (Entry : List Char → α → List Char → Prop) (close : Char)

/-- What the loop takes behind an entry, where `Entry` says what is taken as one: the end, or a
comma and an entry, which is not the end, and so on. -/
inductive Collects : List Char → List α → List Char → Prop where
  | close {gap rest : List Char} : AllBlank gap → Collects (gap ++ close :: rest) [] rest
  | comma {gap gap' more middle rest : List Char} {c : Char} {a : α} {as : List α} :
    AllBlank gap → AllBlank gap' → isBlank c = false → c ≠ close →
    Entry (c :: more) a middle → Collects middle as rest →
    Collects (gap ++ ',' :: (gap' ++ c :: more)) (a :: as) rest

/-- What is taken behind an opening bracket: the end, or an entry and what the loop takes. -/
inductive Encloses : List Char → List α → List Char → Prop where
  | close {gap rest : List Char} : AllBlank gap → Encloses (gap ++ close :: rest) [] rest
  | entry {gap more middle rest : List Char} {c : Char} {a : α} {as : List α} :
    AllBlank gap → isBlank c = false → c ≠ close → Entry (c :: more) a middle →
    Collects Entry close middle as rest → Encloses (gap ++ c :: more) (a :: as) rest

end Loop

/-- Putting an entry behind those already read, or in front of those still to come, is the same. -/
theorem toList_push_append (read : Array α) (a : α) (more : List α) :
    (read.push a).toList ++ more = read.toList ++ a :: more := by
  rw [Array.toList_push, List.append_assoc, List.singleton_append]

/-! ### Arrays -/

section Items

variable {item : Reader Value}

/-- What the reader takes as an item of an array. -/
def ItemGiven (item : Reader Value) (cs : List Char) (v : Value) (rest : List Char) : Prop :=
  Gives (item cs) v rest

/-- What the loop over items adds to those already read are items that stand in the text, one after
another up to the bracket. By induction on what is left of the text, as the loop is. -/
theorem collects_of_gives_itemsFrom {text cs rest : List Char} {read : Array Value}
    {suffix : cs <:+ text} {vs : List Value} (h : Gives (itemsFrom item read cs suffix) vs rest) :
    ∃ more, vs = read.toList ++ more ∧ Collects (ItemGiven item) ']' cs more rest := by
  induction length : cs.length using Nat.strongRecOn generalizing cs read with
  | ind n ih =>
    subst length
    unfold itemsFrom at h
    rcases allBlank_or_exists_solid cs with blank | ⟨gap, c, more, blank, solid, rfl⟩
    · simp only [blanks_of_allBlank blank] at h
      exact absurd h not_gives_error
    · simp only [blanks_of_solid blank solid] at h
      split at h
      · next isClose =>
        obtain ⟨rfl, rfl⟩ := gives_ok.mp h
        exact ⟨[], (List.append_nil _).symm, isClose ▸ .close blank⟩
      · split at h
        · next isComma =>
          subst isComma
          rcases allBlank_or_exists_solid more with blank' | ⟨gap', d, ds, blank', solid', rfl⟩
          · simp only [blanks_of_allBlank blank'] at h
            exact absurd h not_gives_error
          · simp only [blanks_of_solid blank' solid'] at h
            split at h
            · exact absurd h not_gives_error
            · next other =>
              split at h
              · exact absurd h not_gives_error
              · next value middle suffix' given =>
                have shorter : middle.length < (gap ++ ',' :: (gap' ++ d :: ds)).length := by
                  have := suffix'.length_le
                  simp only [List.length_append, List.length_cons] at this ⊢
                  omega
                obtain ⟨more, rfl, collects⟩ := ih _ shorter h rfl
                refine ⟨value :: more, toList_push_append read value more, ?_⟩
                exact .comma blank blank' solid' other ⟨suffix', given⟩ collects
        · exact absurd h not_gives_error

/-- Items that stand in the text, one after another up to the bracket, are added by the loop to
those already read, whichever these are. -/
theorem gives_itemsFrom_of_collects {cs rest : List Char} {more : List Value}
    (collects : Collects (ItemGiven item) ']' cs more rest) {text : List Char} {read : Array Value}
    {suffix : cs <:+ text} : Gives (itemsFrom item read cs suffix) (read.toList ++ more) rest := by
  induction collects generalizing text read with
  | close blank =>
    unfold itemsFrom
    simp only [blanks_of_solid blank (c := ']') rfl, if_true, List.append_nil, gives_ok, and_self]
  | comma blank blank' solid other entry _ ih =>
    obtain ⟨_, given⟩ := entry
    have apart : ',' ≠ ']' := by decide
    unfold itemsFrom
    simp only [blanks_of_solid blank (c := ',') rfl, if_neg apart, if_true,
      blanks_of_solid blank' solid, if_neg other, given]
    rw [← toList_push_append read]
    exact ih

/-- An array is taken exactly if its items stand in the text, with commas between them and the
bracket behind them. -/
theorem gives_items_iff {cs rest : List Char} {vs : List Value} :
    Gives (items item cs) vs rest ↔ Encloses (ItemGiven item) ']' cs vs rest := by
  constructor
  · intro h
    unfold items at h
    rcases allBlank_or_exists_solid cs with blank | ⟨gap, c, more, blank, solid, rfl⟩
    · simp only [blanks_of_allBlank blank] at h
      exact absurd h not_gives_error
    · simp only [blanks_of_solid blank solid] at h
      split at h
      · next isClose =>
        obtain ⟨rfl, rfl⟩ := gives_ok.mp h
        exact isClose ▸ .close blank
      · next other =>
        split at h
        · exact absurd h not_gives_error
        · next value middle suffix given =>
          obtain ⟨more, rfl, collects⟩ := collects_of_gives_itemsFrom h
          exact .entry blank solid other ⟨suffix, given⟩ collects
  · intro encloses
    cases encloses with
    | close blank =>
      unfold items
      simp only [blanks_of_solid blank (c := ']') rfl, if_true, gives_ok, and_self]
    | entry blank solid other entry collects =>
      obtain ⟨_, given⟩ := entry
      unfold items
      simp only [blanks_of_solid blank solid, if_neg other, given]
      exact gives_itemsFrom_of_collects collects

end Items

/-! ### Objects -/

section Fields

variable {item : Reader Value}

/-- What the reader takes as a field of an object, which begins with the quote of its name. -/
def FieldGiven (item : Reader Value) (cs : List Char) (entry : String × Value)
    (rest : List Char) : Prop :=
  ∃ more, cs = '"' :: more ∧ Gives (field item more) entry rest

/-- What the loop over fields adds to those already read are fields that stand in the text, one
after another up to the brace. By induction on what is left of the text. -/
theorem collects_of_gives_fieldsFrom {text cs rest : List Char} {read : Array (String × Value)}
    {suffix : cs <:+ text} {entries : List (String × Value)}
    (h : Gives (fieldsFrom item read cs suffix) entries rest) :
    ∃ more, entries = read.toList ++ more ∧ Collects (FieldGiven item) '}' cs more rest := by
  induction length : cs.length using Nat.strongRecOn generalizing cs read with
  | ind n ih =>
    subst length
    unfold fieldsFrom at h
    rcases allBlank_or_exists_solid cs with blank | ⟨gap, c, more, blank, solid, rfl⟩
    · simp only [blanks_of_allBlank blank] at h
      exact absurd h not_gives_error
    · simp only [blanks_of_solid blank solid] at h
      split at h
      · next isClose =>
        obtain ⟨rfl, rfl⟩ := gives_ok.mp h
        exact ⟨[], (List.append_nil _).symm, isClose ▸ .close blank⟩
      · split at h
        · next isComma =>
          subst isComma
          rcases allBlank_or_exists_solid more with blank' | ⟨gap', d, ds, blank', solid', rfl⟩
          · simp only [blanks_of_allBlank blank'] at h
            exact absurd h not_gives_error
          · simp only [blanks_of_solid blank' solid'] at h
            split at h
            · exact absurd h not_gives_error
            · next other =>
              split at h
              · next isQuote =>
                split at h
                · exact absurd h not_gives_error
                · next entry middle suffix' given =>
                  have shorter : middle.length < (gap ++ ',' :: (gap' ++ d :: ds)).length := by
                    have := suffix'.length_le
                    simp only [List.length_append, List.length_cons]
                    omega
                  obtain ⟨more, rfl, collects⟩ := ih _ shorter h rfl
                  refine ⟨entry :: more, toList_push_append read entry more, ?_⟩
                  exact .comma blank blank' solid' other ⟨ds, isQuote ▸ rfl, suffix', given⟩
                    collects
              · exact absurd h not_gives_error
        · exact absurd h not_gives_error

/-- Fields that stand in the text, one after another up to the brace, are added by the loop to those
already read, whichever these are. -/
theorem gives_fieldsFrom_of_collects {cs rest : List Char} {more : List (String × Value)}
    (collects : Collects (FieldGiven item) '}' cs more rest) {text : List Char}
    {read : Array (String × Value)} {suffix : cs <:+ text} :
    Gives (fieldsFrom item read cs suffix) (read.toList ++ more) rest := by
  induction collects generalizing text read with
  | close blank =>
    unfold fieldsFrom
    simp only [blanks_of_solid blank (c := '}') rfl, if_true, List.append_nil, gives_ok, and_self]
  | comma blank blank' _ other entry _ ih =>
    obtain ⟨_, begins, _, given⟩ := entry
    obtain ⟨rfl, rfl⟩ := List.cons.inj begins
    have apart : ',' ≠ '}' := by decide
    unfold fieldsFrom
    simp only [blanks_of_solid blank (c := ',') rfl, if_neg apart, if_true,
      blanks_of_solid blank' (c := '"') rfl, if_neg other, given]
    rw [← toList_push_append read]
    exact ih

/-- An object is taken exactly if its fields stand in the text, with commas between them and the
brace behind them. -/
theorem gives_fields_iff {cs rest : List Char} {entries : List (String × Value)} :
    Gives (fields item cs) entries rest ↔ Encloses (FieldGiven item) '}' cs entries rest := by
  constructor
  · intro h
    unfold fields at h
    rcases allBlank_or_exists_solid cs with blank | ⟨gap, c, more, blank, solid, rfl⟩
    · simp only [blanks_of_allBlank blank] at h
      exact absurd h not_gives_error
    · simp only [blanks_of_solid blank solid] at h
      split at h
      · next isClose =>
        obtain ⟨rfl, rfl⟩ := gives_ok.mp h
        exact isClose ▸ .close blank
      · next other =>
        split at h
        · next isQuote =>
          split at h
          · exact absurd h not_gives_error
          · next entry middle suffix given =>
            obtain ⟨more, rfl, collects⟩ := collects_of_gives_fieldsFrom h
            exact .entry blank solid other ⟨_, isQuote ▸ rfl, suffix, given⟩ collects
        · exact absurd h not_gives_error
  · intro encloses
    cases encloses with
    | close blank =>
      unfold fields
      simp only [blanks_of_solid blank (c := '}') rfl, if_true, gives_ok, and_self]
    | entry blank _ other entry collects =>
      obtain ⟨_, begins, _, given⟩ := entry
      obtain ⟨rfl, rfl⟩ := List.cons.inj begins
      unfold fields
      simp only [blanks_of_solid blank (c := '"') rfl, if_neg other, if_true, given]
      exact gives_fieldsFrom_of_collects collects

end Fields

/-! ## The grammar -/

section Grammar

variable {Denote : List Char → α → Prop} {body : List Char}

/-- Where there are no entries only blanks can stand: a lone comma is no empty list. -/
theorem entriesDenote_nil_iff : EntriesDenote Denote body [] ↔ AllBlank body := by
  constructor
  · intro h
    cases h with
    | nil blank => exact blank
  · exact .nil

theorem entriesDenote_singleton_iff {a : α} :
    EntriesDenote Denote body [a] ↔ Padded Denote body a := by
  constructor
  · intro h
    generalize single : [a] = as at h
    cases h with
    | nil => cases single
    | @cons first others padded =>
      obtain ⟨rfl, none⟩ := List.cons.inj single
      obtain rfl : others = [] := List.map_eq_nil_iff.mp none.symm
      rw [List.map_singleton, List.intercalate_singleton]
      exact padded first List.mem_cons_self
  · intro padded
    have whole : EntriesDenote Denote ([','].intercalate ([(body, a)].map (·.1)))
        ([(body, a)].map (·.2)) := .cons (by simpa using padded)
    rwa [List.map_singleton, List.map_singleton, List.intercalate_singleton] at whole

/-- Of two entries or more, the first ends at the first comma between entries, and the others are
written behind that comma as if they were all. -/
theorem entriesDenote_cons_cons_iff {a b : α} {as : List α} :
    EntriesDenote Denote body (a :: b :: as) ↔ ∃ part more, Padded Denote part a ∧
      EntriesDenote Denote more (b :: as) ∧ body = part ++ ',' :: more := by
  constructor
  · intro h
    generalize several : a :: b :: as = entries at h
    cases h with
    | nil => cases several
    | @cons first others padded =>
      obtain ⟨rfl, tail⟩ := List.cons.inj several
      obtain ⟨second, others, rfl, rfl, rfl⟩ := List.map_eq_cons_iff.mp tail.symm
      refine ⟨first.1, [','].intercalate ((second :: others).map (·.1)),
        padded first List.mem_cons_self,
        .cons fun part mem => padded part (List.mem_cons_of_mem _ mem), ?_⟩
      rw [List.map_cons, List.map_cons, List.intercalate_cons_cons, List.append_assoc]
      rfl
  · rintro ⟨part, more, padded, denotes, rfl⟩
    generalize several : b :: as = entries at denotes
    cases denotes with
    | nil => cases several
    | @cons second others all =>
      have whole : EntriesDenote Denote
          ([','].intercalate (((part, a) :: second :: others).map (·.1)))
          (((part, a) :: second :: others).map (·.2)) :=
        .cons (List.forall_mem_cons.mpr ⟨padded, all⟩)
      rw [List.map_cons, List.map_cons, List.intercalate_cons_cons, List.append_assoc] at whole
      exact whole

/-- Only with blanks around it does an entry count. Two ways to denote entries that agree up to
these blanks denote the same lists. -/
theorem entriesDenote_congr {Denote' : List Char → α → Prop}
    (same : ∀ cs a, Padded Denote cs a ↔ Padded Denote' cs a) {as : List α} :
    EntriesDenote Denote body as ↔ EntriesDenote Denote' body as := by
  constructor
  · intro h
    cases h with
    | nil blank => exact .nil blank
    | cons padded => exact .cons fun part mem => (same _ _).mp (padded part mem)
  · intro h
    cases h with
    | nil blank => exact .nil blank
    | cons padded => exact .cons fun part mem => (same _ _).mpr (padded part mem)

end Grammar

/-! ## The loop follows the grammar -/

/-- Whether what stands behind an entry can stand there. -/
def EndsEntry (rest : List Char) : Prop :=
  ∀ c ∈ rest.head?, isBlank c = true ∨ c = ',' ∨ c = ']' ∨ c = '}'

theorem endsEntry_of_gap {gap rest : List Char} (blank : AllBlank gap) (ends : EndsEntry rest) :
    EndsEntry (gap ++ rest) := by
  cases gap with
  | nil => exact ends
  | cons c gap =>
    rintro d ⟨⟩
    exact .inl (blank c List.mem_cons_self)

/-- Whether entries are taken as they are written. -/
structure ReadsEntries (Entry : List Char → α → List Char → Prop) (Denote : List Char → α → Prop)
    (close : Char) : Prop where
  /-- What is taken denotes the entry. -/
  sound : ∀ {c more a rest}, isBlank c = false → Entry (c :: more) a rest →
    ∃ front, c :: more = front ++ rest ∧ Denote front a
  /-- What denotes an entry is taken, in front of what can stand behind one. -/
  complete : ∀ {front a rest}, Denote front a → EndsEntry rest → Entry (front ++ rest) a rest
  /-- What denotes an entry begins neither with a blank nor with the end. -/
  begins : ∀ {front a}, Denote front a →
    ∃ c more, front = c :: more ∧ isBlank c = false ∧ c ≠ close
  /-- The end is a closing bracket. -/
  isClose : close = ']' ∨ close = '}'

section Loop

variable {Entry : List Char → α → List Char → Prop} {Denote : List Char → α → Prop} {close : Char}
  {cs rest : List Char} {a : α} {as : List α}

theorem collects_nil_iff : Collects Entry close cs [] rest ↔
    ∃ gap, AllBlank gap ∧ cs = gap ++ close :: rest := by
  constructor
  · intro h
    cases h with
    | close blank => exact ⟨_, blank, rfl⟩
  · rintro ⟨gap, blank, rfl⟩
    exact .close blank

/-- A further entry is taken exactly behind a comma, and what follows the comma is then read like
the beginning of a list that is not empty. -/
theorem collects_cons_iff : Collects Entry close cs (a :: as) rest ↔
    ∃ gap more, AllBlank gap ∧ Encloses Entry close more (a :: as) rest ∧
      cs = gap ++ ',' :: more := by
  constructor
  · intro h
    cases h with
    | comma blank blank' solid other entry collects =>
      exact ⟨_, _, blank, .entry blank' solid other entry collects, rfl⟩
  · rintro ⟨gap, more, blank, encloses, rfl⟩
    cases encloses with
    | entry blank' solid other entry collects =>
      exact .comma blank blank' solid other entry collects

variable (reads : ReadsEntries Entry Denote close)

include reads

/-- Whatever the loop over entries goes on with ends the entry before it: a comma or the closing
mark, with blanks before them. -/
theorem Collects.endsEntry (collects : Collects Entry close cs as rest) : EndsEntry cs := by
  cases collects with
  | close blank =>
    refine endsEntry_of_gap blank ?_
    rintro d ⟨⟩
    exact .inr (.inr reads.isClose)
  | comma blank =>
    refine endsEntry_of_gap blank ?_
    rintro d ⟨⟩
    exact .inr (.inl rfl)

/-- The first entry is taken as it is written, and the rest of it is what the loop over further
entries takes. What stands behind an entry ends it, so a number there is read to its end. -/
theorem encloses_cons_iff : Encloses Entry close cs (a :: as) rest ↔
    ∃ gap core middle, AllBlank gap ∧ Denote core a ∧ Collects Entry close middle as rest ∧
      cs = gap ++ (core ++ middle) := by
  constructor
  · intro h
    cases h with
    | entry blank solid _ entry collects =>
      obtain ⟨core, whole, denotes⟩ := reads.sound solid entry
      exact ⟨_, core, _, blank, denotes, collects, whole ▸ rfl⟩
  · rintro ⟨gap, core, middle, blank, denotes, collects, rfl⟩
    have entry := reads.complete denotes (collects.endsEntry reads)
    obtain ⟨c, more, rfl, solid, other⟩ := reads.begins denotes
    exact .entry blank solid other entry collects

/-- **What is taken between the brackets is what is written there.** By induction on the entries,
one comma at a time; the law serves arrays and objects alike, as the closing mark and the kind of
entry are parameters. -/
theorem encloses_iff : Encloses Entry close cs as rest ↔
    ∃ body, EntriesDenote Denote body as ∧ cs = body ++ close :: rest := by
  cases as with
  | nil =>
    simp only [entriesDenote_nil_iff]
    constructor
    · intro h
      cases h with
      | close blank => exact ⟨_, blank, rfl⟩
    · rintro ⟨gap, blank, rfl⟩
      exact .close blank
  | cons a as =>
    -- one entry after another, the last of them in front of the end
    induction as generalizing a cs with
    | nil =>
      simp only [encloses_cons_iff reads, collects_nil_iff, entriesDenote_singleton_iff]
      constructor
      · rintro ⟨before, core, _, blank, denotes, ⟨after, blank', rfl⟩, rfl⟩
        exact ⟨before ++ core ++ after, ⟨before, core, after, blank, blank', rfl, denotes⟩,
          by simp⟩
      · rintro ⟨_, ⟨before, core, after, blank, blank', rfl, denotes⟩, rfl⟩
        exact ⟨before, core, _, blank, denotes, ⟨after, blank', rfl⟩, by simp⟩
    | cons b as ih =>
      rw [encloses_cons_iff reads]
      simp only [collects_cons_iff, ih, entriesDenote_cons_cons_iff]
      constructor
      · rintro ⟨before, core, _, blank, denotes, ⟨after, _, blank', ⟨more, others, rfl⟩, rfl⟩, rfl⟩
        exact ⟨before ++ core ++ after ++ ',' :: more,
          ⟨before ++ core ++ after, more, ⟨before, core, after, blank, blank', rfl, denotes⟩,
            others, rfl⟩, by simp⟩
      · rintro ⟨_, ⟨_, more, ⟨before, core, after, blank, blank', rfl, denotes⟩, others, rfl⟩, rfl⟩
        exact ⟨before, core, _, blank, denotes, ⟨after, _, blank', ⟨more, others, rfl⟩, rfl⟩,
          by simp⟩

end Loop

end LabelQuery.Json
