/-
  TransitSearch.Decision — what a search reports about its candidates.

  A debug handler is told of every candidate accepted, rejected or dropped, with the
  element that caused it where there is one and a reason. The decisions of a pareto set
  are such reports (`ofSetEvent`); `logging` is the handler that writes them to the log.
-/

import TransitSearch.ParetoSet

namespace TransitSearch

inductive Decision (α : Type) where
  | accept (element : α)
  | reject (element : α) (cause : Option α) (reason : String)
  | drop (element : α) (cause : Option α) (reason : String)
  deriving DecidableEq, Repr

abbrev DebugHandler (α ω : Type) := Decision α → Run ω Unit

namespace Decision

variable {α ω : Type}

def ofSetEvent : SetEvent α → Decision α
  | .accepted e => .accept e
  | .dropped e cause => .drop e (some cause) "Dominated by a new element"
  | .rejected e cause => .reject e (some cause) "Dominated by an existing element"

def listener (handler : DebugHandler α ω) : Listener α ω := fun e => handler (ofSetEvent e)

def message : Decision α → String
  | .accept _ => "accept"
  | .reject .. => "reject"
  | .drop .. => "drop"

/-- The fields of a report with a cause, whose texts may fault: the element, then its cause. -/
def causeFields (text : α → Except Fault String) (element : α) (causeName : String) (cause : Option α)
    (reason : String) : Except Fault (List (String × FieldValue)) := do
  let element ← text element
  let cause ← cause.mapM text
  let causeField := cause.toList.map fun c => (causeName, FieldValue.text c)
  pure (("element", .text element) :: causeField ++ [("reason", .text reason)])

def fields (text : α → Except Fault String) : Decision α → Except Fault (List (String × FieldValue))
  | .accept e => do pure [("element", .text (← text e))]
  | .reject e cause reason => causeFields text e "rejected_by" cause reason
  | .drop e cause reason => causeFields text e "dropped_by" cause reason

/-- The handler that writes every decision to the log. -/
def logging (hears : Subscriber) (text : α → Except Fault String) (entry : LogEvent → ω) : DebugHandler α ω :=
  fun d => Run.log hears entry .debug d.message (d.fields text)

end Decision

end TransitSearch
