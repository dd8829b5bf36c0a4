import LabelQuery.Json.Grammar

/-!
# Deeper nesting

How deep arrays and objects may nest bounds what is a value, and nothing else: with a level more, a
text denotes what it denoted (`Denotes.succ`). So what was written to stand alone can be put into an
array, where one level less is left for it.

The relations of the grammar take the meaning of what is inside as a parameter, and each of them
keeps to it: whatever the parts denote in one meaning and also in another, the whole does too.
-/

namespace LabelQuery.Json

variable {α : Type} {range : NumberRange} {cs : List Char}

/-- With blanks around it, what denotes something in one meaning denotes it in any meaning that
allows for more. -/
theorem Padded.imp {Denote Denote' : List Char → α → Prop}
    (more : ∀ {core a}, Denote core a → Denote' core a) {a : α} (padded : Padded Denote cs a) :
    Padded Denote' cs a := by
  obtain ⟨before, core, after, blank, blank', whole, denotes⟩ := padded
  exact ⟨before, core, after, blank, blank', whole, more denotes⟩

theorem EntriesDenote.imp {Entry Entry' : List Char → α → Prop}
    (more : ∀ {core a}, Entry core a → Entry' core a) {as : List α}
    (entries : EntriesDenote Entry cs as) : EntriesDenote Entry' cs as := by
  cases entries with
  | nil blank => exact .nil blank
  | cons padded => exact .cons fun part mem => (padded part mem).imp more

section Items

variable {Item Item' : List Char → Value → Prop}
  (more : ∀ {core v}, Item core v → Item' core v)

include more

theorem FieldDenotes.imp {field : String × Value} (denotes : FieldDenotes Item cs field) :
    FieldDenotes Item' cs field := by
  obtain ⟨name, gap, value, named, blank, padded, whole⟩ := denotes
  exact ⟨name, gap, value, named, blank, padded.imp more, whole⟩

/-- An array or an object denotes still what it denotes, if more texts denote what is inside it. -/
theorem ContainerDenotes.imp {v : Value} (denotes : ContainerDenotes Item cs v) :
    ContainerDenotes Item' cs v := by
  cases denotes with
  | array items => exact .array (items.imp more)
  | object fields => exact .object (fields.imp fun field => field.imp more)

end Items

/-- **With a level more, a text denotes what it denoted.** By induction on the level; a container is
carried over by what is inside it. -/
theorem Denotes.succ {levels : Nat} {v : Value} (denotes : Denotes range levels cs v) :
    Denotes range (levels + 1) cs v := by
  induction levels generalizing cs v with
  | zero => exact .inl denotes
  | succ levels ih =>
    rcases denotes with scalar | container
    · exact .inl scalar
    · exact .inr (container.imp ih)

end LabelQuery.Json
