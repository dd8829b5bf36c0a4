import LabelQuery.Requirement
import LabelQuery.Token.Basic

/-!
# Journals

Activities report what they do as **events**. An event is data, with the level it is reported at,
the part of the library that reports it, and its wording; `Journaled` is an outcome together with
the events on the way to it, in order. Running one activity after another joins their events, so
what an activity reports can be read off its parts.
-/

namespace LabelQuery

/-- What an activity reports. -/
inductive Event where
  /-- A token was made. -/
  | token (token : Token)
  /-- A selector with so many requirements was read from a text. -/
  | parsed (size : Nat) (text : String)
  /-- A requirement was found not to hold, which ends the evaluation. -/
  | unmet (requirement : Requirement)
  /-- A selector with so many requirements was decoded. -/
  | decoded (size : Nat)
deriving DecidableEq, Repr

namespace Event

/-- How prominently an event is reported. -/
inductive Level where
  /-- Once for each activity. -/
  | debug
  /-- Once for each step of one. -/
  | trace
deriving DecidableEq, Repr

/-- The name of a level. -/
def Level.name : Level → String
  | debug => "DEBUG"
  | trace => "TRACE"

/-- The level that an event is reported at. -/
def level : Event → Level
  | token _ | unmet _ => .trace
  | parsed .. | decoded _ => .debug

/-- The part of the library that reports an event. -/
def target : Event → String
  | token _ => "label_selector::lexer"
  | parsed .. => "label_selector::parser"
  | unmet _ => "label_selector::selector"
  | decoded _ => "label_selector::json"

/-- The wording of an event. -/
def message : Event → String
  | token ⟨kind, text, offset⟩ => s!"token {kind.name} `{text}` at byte {offset}"
  | parsed size text => s!"parsed {size} requirement(s) from selector `{text}`"
  | unmet requirement => s!"requirement `{requirement.render}` not satisfied"
  | decoded size => s!"decoded {size} structured requirement(s)"

/-- A line of a log. -/
structure Line where
  /-- How prominently it is reported. -/
  level : Level
  /-- Which part of the library reports it. -/
  target : String
  /-- What it says. -/
  message : String
deriving DecidableEq, Repr

/-- What stands in a log for an event. -/
def line (event : Event) : Line :=
  ⟨event.level, event.target, event.message⟩

end Event

/-- An outcome, and the events on the way to it, in order. -/
structure Journaled (α : Type) where
  /-- What came out. -/
  outcome : α
  /-- What was reported. -/
  events : List Event
deriving DecidableEq, Repr

namespace Journaled

instance : Monad Journaled where
  pure outcome := ⟨outcome, []⟩
  bind first next :=
    let second := next first.outcome
    ⟨second.outcome, first.events ++ second.events⟩

/-- Reports one event. -/
def report (event : Event) : Journaled Unit :=
  ⟨(), [event]⟩

variable {α β : Type}

@[simp] theorem outcome_pure (a : α) : (pure a : Journaled α).outcome = a := rfl

@[simp] theorem events_pure (a : α) : (pure a : Journaled α).events = [] := rfl

@[simp] theorem outcome_bind (x : Journaled α) (f : α → Journaled β) :
    (x >>= f).outcome = (f x.outcome).outcome := rfl

@[simp] theorem events_bind (x : Journaled α) (f : α → Journaled β) :
    (x >>= f).events = x.events ++ (f x.outcome).events := rfl

end Journaled

end LabelQuery
