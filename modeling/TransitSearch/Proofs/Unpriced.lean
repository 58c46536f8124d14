/-
  TransitSearch.Proofs.Unpriced — a search that is told no costs.

  A value without its prices has every cost in it at nothing; what it is, where and when it
  takes place, and its handles are kept. A setup without prices has no cost calculator, and
  nobody observes it, neither a debug handler nor the log, since what they are shown has
  prices.
-/

import TransitSearch.Proofs.ParetoSet.Verdict
import TransitSearch.Search

namespace TransitSearch

/-! ## Arrivals -/

def Leg.unpriced (leg : Leg) : Leg := { leg with cost := 0 }

def ArrivalKind.unpriced : ArrivalKind → ArrivalKind
  | .access leg => .access leg.unpriced
  | .transit boarding => .transit boarding
  | .transfer fromStop duration => .transfer fromStop duration

namespace Arrival

def unpriced (a : Arrival) : Arrival := { a with cost := 0, kind := a.kind.unpriced }

@[simp] theorem unpriced_previous (a : Arrival) : a.unpriced.previous = a.previous := rfl
@[simp] theorem unpriced_time (a : Arrival) : a.unpriced.time = a.time := rfl
@[simp] theorem unpriced_kind (a : Arrival) : a.unpriced.kind = a.kind.unpriced := rfl

end Arrival

namespace Arena

def unpriced (arena : Arena) : Arena := { arena with nodes := arena.nodes.map Arrival.unpriced }

@[simp] theorem unpriced_empty (dir : Direction) : (empty dir).unpriced = empty dir := by simp [unpriced, empty]

@[simp] theorem unpriced_clear (arena : Arena) : arena.clear.unpriced = arena.unpriced.clear := by
  simp [unpriced, clear]

end Arena

/-! ## Journeys -/

def Collaborators.unpriced (terms : Collaborators) : Collaborators := { terms with costs := none }

def Destination.unpriced (d : Destination) : Destination := { d with egress := d.egress.unpriced, cost := 0 }

def Hop.unpriced (hop : Hop) : Hop := { hop with cost := 0 }

def JourneyLeg.unpriced (leg : JourneyLeg) : JourneyLeg := { leg with cost := 0 }

def Journey.unpriced (j : Journey) : Journey := { j with cost := 0, legs := j.legs.map JourneyLeg.unpriced }

/-! ## Searches -/

def Setup.unpriced (setup : Setup) : Setup :=
  { setup with terms := setup.terms.unpriced, handler := none, environment := ⟨.system, fun _ _ => false⟩ }

namespace Collector

def unpriced (c : Collector) : Collector :=
  { c with setup := c.setup.unpriced, journeys := c.journeys.image c.setup.order.advantage Journey.unpriced }

@[simp] theorem unpriced_empty (setup : Setup) (mismatches : Throttle) :
    (empty setup mismatches).unpriced = empty setup.unpriced mismatches := rfl

@[simp] theorem unpriced_list (c : Collector) : c.unpriced.list = c.list.map Journey.unpriced :=
  ParetoSet.image_members c.journeys

@[simp] theorem unpriced_hear (c : Collector) (boundary : Boundary) :
    (c.hear boundary).unpriced = c.unpriced.hear boundary := by
  cases boundary <;> rfl

end Collector

namespace Search

def unpriced (s : Search) : Search := { s with arena := s.arena.unpriced, collector := s.collector.unpriced }

@[simp] theorem unpriced_start (dir : Direction) (setup : Setup) :
    (start dir setup).unpriced = start dir setup.unpriced := by
  simp [unpriced, start]

/-- The cost that a question names is taken out as well. -/
def Call.unpriced : Call → Call
  | .access departure leg => .access departure leg.unpriced
  | .transit previous stop time _ boarding => .transit previous stop time 0 boarding
  | .transfer previous stop time _ => .transfer previous stop time 0
  | .derive previous increment stop time _ kind => .derive previous increment stop time 0 kind.unpriced
  | .shift id requested => .shift id requested
  | .clear => .clear
  | .add now id egress => .add now id egress.unpriced
  | .qualify departure arrival transfers _ => .qualify departure arrival transfers 0
  | .reject id egress reason => .reject id egress.unpriced reason
  | .setIteration departure => .setIteration departure
  | .setupIteration departure => .setupIteration departure
  | .nextRound => .nextRound
  | .roundComplete destinationReached => .roundComplete destinationReached
  | .iterationComplete => .iterationComplete

end Search

end TransitSearch
