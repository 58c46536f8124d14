/-
  TransitSearch.Collector — the journeys that have reached the destination.

  Every stop arrival from which the destination can be reached is offered with an egress
  leg. One that would reach it beyond the limit is rejected; any other is mapped to a
  journey, which is kept while no journey found dominates it. The collector also knows
  the departure of the current iteration and whether a journey was kept in the current
  round.

  A debug handler, if there is one, is told of every decision. The map's total cost and
  the destination's should agree; where they do not, the journey is offered all the same
  and a warning is logged, held back by a throttle that outlives the collector.
-/

import TransitSearch.Decision
import TransitSearch.Journey.Map
import TransitSearch.Journey.Order
import TransitSearch.LifeCycle
import TransitSearch.Throttle

namespace TransitSearch

/-- What a collector lets out while it works. -/
inductive Notice where
  | log (event : LogEvent)
  | decision (d : Decision Journey)
  deriving DecidableEq, Repr

/-- What a search finds around it and does not choose. -/
structure Environment where
  calendar : Calendar
  hears : Subscriber

namespace Notice

def recording : DebugHandler Journey Notice := fun d => Run.write (.decision d)

def logging (environment : Environment) : DebugHandler Journey Notice :=
  Decision.logging environment.hears (·.text environment.calendar) .log

end Notice

structure Setup where
  order : Journey.Order
  terms : Collaborators
  map : Journey.Map
  handler : Option (DebugHandler Journey Notice)
  environment : Environment

structure Collector where
  setup : Setup
  journeys : ParetoSet Journey Notice
  reachedThisRound : Bool
  /-- The departure time of the current iteration. -/
  iteration : Option Int
  mismatches : Throttle

namespace Collector

/-- The quiet period of the cost warnings, in milliseconds. -/
def mismatchPeriod : Nat := 1000

def empty (setup : Setup) (mismatches : Throttle) : Collector :=
  let listener := match setup.handler with
    | none => ParetoSet.silent
    | some handler => Decision.listener handler
  { setup, journeys := .empty setup.order.advantage listener, reachedThisRound := false, iteration := none, mismatches }

def list (c : Collector) : List Journey := c.journeys.members

def debugOn (c : Collector) : Bool := c.setup.handler.isSome

/-! ## Offering arrivals -/

/-- The accumulated costs from the destination back to the access arrival. -/
def costTrail (arena : Arena) (d : Destination) : Except Fault (List Int) := do
  let chain ← arena.chain d.previous
  pure (d.cost :: chain.map fun (_, node) => node.cost)

def trailText (trail : List Int) : String := String.intercalate " " (trail.map Text.shortCost)

def mismatchFields (calendar : Calendar) (arena : Arena) (d : Destination) (j : Journey) (suppressed : Nat) :
    Except Fault (List (String × FieldValue)) := do
  let trail ← costTrail arena d
  let journey ← j.text calendar
  pure [("mapper", .text (Text.cost j.cost)), ("stop_arrivals", .text (trailText trail)),
    ("suppressed", .number suppressed), ("path", .text journey)]

/-- Warns of a journey whose cost is not its destination's, unless the throttle holds it back. -/
def checkCost (environment : Environment) (throttle : Throttle) (now : Nat) (arena : Arena) (d : Destination)
    (j : Journey) : Run Notice Throttle := do
  if j.cost = d.cost then pure throttle
  else
    match throttle.permitAt now with
    | (none, throttle) => pure throttle
    | (some suppressed, throttle) =>
      Run.log environment.hears .log .warn "cost mismatch between path mapper and stop arrivals"
        (mismatchFields environment.calendar arena d j suppressed)
      pure throttle

def logReached (environment : Environment) (d : Destination) : Run Notice Unit :=
  Run.log environment.hears .log .debug "destination reached"
    (pure [("arrival_time", .number d.arrival), ("transfers", .number d.transfers), ("c1", .number d.cost)])

/-- Tells the debug handler, if there is one, that a destination was rejected outside the set. -/
def rejectDestination (c : Collector) (arena : Arena) (d : Destination) (reason : String) : Run Notice Unit :=
  match c.setup.handler with
  | none => pure ()
  | some handler => do
    let journey ← c.setup.map arena d c.iteration
    handler (.reject journey none reason)

/-- Offers the arrival `id`, extended by `egress`, at the clock reading `now`. -/
def add (c : Collector) (now : Nat) (arena : Arena) (id : Nat) (egress : Leg) : Run Notice Collector := do
  match ← c.setup.terms.destination? arena id egress with
  | none => pure c
  | some d =>
    let calculator := c.setup.terms.calculator
    if calculator.exceedsLimit d.arrival then
      c.rejectDestination arena d (calculator.limitReason c.setup.environment.calendar)
      pure c
    else
      let journey ← c.setup.map arena d c.iteration
      let mismatches ← checkCost c.setup.environment c.mismatches now arena d journey
      let (kept, journeys) ← c.journeys.add journey
      if kept then
        logReached c.setup.environment d
        pure { c with journeys, mismatches, reachedThisRound := true }
      else pure { c with journeys, mismatches }

/-- Whether a journey with these totals would be kept. Without an iteration its departure stands in. -/
def qualify (c : Collector) (departure arrival : Int) (transfers : Nat) (cost : Int) : Except Fault Bool :=
  c.journeys.qualify (.summary (c.iteration.getD departure) departure arrival transfers cost)

def reject (c : Collector) (arena : Arena) (id : Nat) (egress : Leg) (reason : String) : Run Notice Unit := do
  if c.debugOn then
    match ← c.setup.terms.destination? arena id egress with
    | none => pure ()
    | some d => c.rejectDestination arena d reason
  else pure ()

/-! ## The life cycle -/

def setIteration (c : Collector) (departure : Int) : Collector := { c with iteration := some departure }

def hear (c : Collector) : Boundary → Collector
  | .iterationStart departure => c.setIteration departure
  | .roundStart _ => { c with reachedThisRound := false }
  | .roundEnd _ | .iterationEnd => c

/-! ## Text -/

def textWith (c : Collector) (stopName : Nat → String) : Except Fault String :=
  String.intercalate "\n" <$> c.list.mapM (·.textWith c.setup.environment.calendar stopName)

def text (c : Collector) : Except Fault String :=
  String.intercalate "\n" <$> c.list.mapM (·.text c.setup.environment.calendar)

def debugText (c : Collector) : String :=
  let journeys := c.journeys.debugText Journey.debugText
  let iteration := match c.iteration with
    | none => "None"
    | some t => s!"Some({t})"
  s!"DestinationArrivalPaths \x7b paths: {journeys}, reached_current_round: {c.reachedThisRound}, " ++
  s!"iteration_departure_time: {iteration}, debug: {c.debugOn}, .. \x7d"

end Collector

end TransitSearch
