/-
  TransitSearch.Proofs.Mirror — a search turned round in time.

  The mirror of a time is its negative. A leg open for departures within a window is
  mirrored by one open for the departures whose arrivals lie in the negated window: the
  traveller goes the other way along it. A journey is mirrored by the same journey made
  backwards, last leg first, its access leg now the egress leg. Stops, trips, costs,
  durations, rides and handles are kept.
-/

import TransitSearch.Search

namespace TransitSearch

def Direction.mirror : Direction → Direction
  | .forward => .reverse
  | .reverse => .forward

/-! ## Arrivals -/

namespace Leg

def mirrorHours (leg : Leg) (hours : OpeningHours) : OpeningHours :=
  ⟨-hours.closes - leg.duration, -hours.opens - leg.duration⟩

def mirror (leg : Leg) : Leg := { leg with hours := leg.hours.map leg.mirrorHours }

@[simp] theorem mirror_hasRides (leg : Leg) : leg.mirror.hasRides = leg.hasRides := rfl
@[simp] theorem mirror_hours (leg : Leg) : leg.mirror.hours = leg.hours.map leg.mirrorHours := rfl

end Leg

def Boarding.mirror (b : Boarding) : Boarding := { b with time := -b.time }

def ArrivalKind.mirror : ArrivalKind → ArrivalKind
  | .access leg => .access leg.mirror
  | .transit boarding => .transit boarding.mirror
  | .transfer fromStop duration => .transfer fromStop duration

namespace Arrival

def mirror (a : Arrival) : Arrival := { a with time := -a.time, kind := a.kind.mirror }

@[simp] theorem mirror_previous (a : Arrival) : a.mirror.previous = a.previous := rfl
@[simp] theorem mirror_time (a : Arrival) : a.mirror.time = -a.time := rfl
@[simp] theorem mirror_cost (a : Arrival) : a.mirror.cost = a.cost := rfl
@[simp] theorem mirror_kind (a : Arrival) : a.mirror.kind = a.kind.mirror := rfl

end Arrival

namespace Arena

def mirror (arena : Arena) : Arena := ⟨arena.direction.mirror, arena.nodes.map Arrival.mirror⟩

@[simp] theorem mirror_empty (dir : Direction) : (empty dir).mirror = empty dir.mirror := by simp [mirror, empty]

@[simp] theorem mirror_clear (arena : Arena) : arena.clear.mirror = arena.mirror.clear := by simp [mirror, clear]

end Arena

def ShiftError.mirror : ShiftError → ShiftError
  | .unsupported kind stop => .unsupported kind stop
  | .notAvailable stop requested => .notAvailable stop (-requested)

/-! ## Destinations -/

def Calculator.mirror (c : Calculator) : Calculator := ⟨c.direction.mirror, c.limit.map (-·)⟩

def Terms.mirror (terms : Terms) : Terms := { terms with calculator := terms.calculator.mirror }

def Destination.mirror (d : Destination) : Destination :=
  { d with egress := d.egress.mirror, departure := -d.departure, arrival := -d.arrival }

/-! ## Journeys -/

def Endpoint.mirror (e : Endpoint) : Endpoint := { e with time := -e.time }

def Hop.mirror (hop : Hop) : Hop := { hop with start := hop.start.mirror, finish := hop.finish.mirror }

def Route.mirror : Route → Route
  | .access toStop => .egress toStop
  | .transit fromStop toStop trip => .transit toStop fromStop trip
  | .transfer fromStop toStop => .transfer toStop fromStop
  | .egress fromStop => .access fromStop

def JourneyLeg.mirror (leg : JourneyLeg) : JourneyLeg :=
  { leg with route := leg.route.mirror, fromTime := -leg.toTime, toTime := -leg.fromTime }

def Journey.mirror (j : Journey) : Journey :=
  { j with iteration := -j.iteration, startTime := -j.endTime, endTime := -j.startTime,
           legs := (j.legs.map JourneyLeg.mirror).reverse }

def Journey.Order.mirror (order : Journey.Order) : Journey.Order := { order with direction := order.direction.mirror }

/-! ## The life cycle -/

def Boundary.mirror : Boundary → Boundary
  | .iterationStart departure => .iterationStart (-departure)
  | boundary => boundary

def LifeCycle.mirror (cycle : LifeCycle) : LifeCycle := { cycle with iteration := cycle.iteration.map (-·) }

/-! ## Calls -/

namespace Search

/-- The clock reading of an offer is no time of travel. -/
def Call.mirror : Call → Call
  | .access departure leg => .access (-departure) leg.mirror
  | .transit previous stop time cost boarding => .transit previous stop (-time) cost boarding.mirror
  | .transfer previous stop time cost => .transfer previous stop (-time) cost
  | .derive previous increment stop time cost kind => .derive previous increment stop (-time) cost kind.mirror
  | .shift id requested => .shift id (-requested)
  | .clear => .clear
  | .add now id egress => .add now id egress.mirror
  | .qualify departure arrival transfers cost => .qualify (-arrival) (-departure) transfers cost
  | .reject id egress reason => .reject id egress.mirror reason
  | .setIteration departure => .setIteration (-departure)
  | .setupIteration departure => .setupIteration (-departure)
  | .nextRound => .nextRound
  | .roundComplete destinationReached => .roundComplete destinationReached
  | .iterationComplete => .iterationComplete

def Reply.mirror : Reply → Reply
  | .notShifted why => .notShifted why.mirror
  | reply => reply

/-! ## Iterations -/

def Call.setsIteration : Call → Bool
  | .setIteration _ | .setupIteration _ => true
  | _ => false

/-- Whether the answer depends on the departure of the iteration. -/
def Call.usesIteration : Call → Bool
  | .add .. | .qualify .. => true
  | _ => false

/-- Whether an iteration is set up before the first offer or question. -/
def iterationFirst : List Call → Bool
  | [] => true
  | call :: rest => call.setsIteration || !call.usesIteration && iterationFirst rest

end Search

end TransitSearch
