/-
  TransitSearch.SearchConfig — the parameters of a search.

  Every parameter has a default. A configuration is valid when slack, wait reluctance and
  transfer cost are not negative and the time window is not empty; the first that is not
  is the one reported. The parts of a search follow from it: the calculator limited on the
  side of its direction, the cost model if cost is tracked, and the order of journeys.
-/

import TransitSearch.Collector
import TransitSearch.Decimal

namespace TransitSearch

structure SearchConfig where
  direction : Direction
  /-- In seconds. -/
  transferSlack : Int
  waitReluctance : Float
  /-- In hundredths of a second. -/
  transferCost : Int
  includeCost : Bool
  timetable : Bool
  latestArrival : Option Int
  earliestDeparture : Option Int
  debug : Bool

/-- What is wrong with the values of a configuration. -/
inductive InvalidConfig where
  | negativeSlack (seconds : Int)
  | badReluctance (x : Float)
  | negativeTransferCost (cost : Int)
  | emptyWindow (earliest latest : Int)

/-- A double in full: all its digits in place, no exponent, and no point without a fraction. -/
def plainFloatText (x : Float) : String :=
  match Binary64.ofFloat x with
  | .nan => "NaN"
  | .infinite negative => if negative then "-inf" else "inf"
  | .finite negative magnitude =>
    let (whole, fraction) := (Decimal.shortest .up magnitude).positional
    String.ofList ((if negative then ['-'] else []) ++ whole ++ if fraction.isEmpty then [] else '.' :: fraction)

namespace InvalidConfig

def reason : InvalidConfig → String
  | .negativeSlack seconds => s!"transfer_slack_secs must not be negative, was {seconds}"
  | .badReluctance x => s!"wait_reluctance must be a non-negative number, was {plainFloatText x}"
  | .negativeTransferCost cost => s!"transfer_cost must not be negative, was {cost}"
  | .emptyWindow earliest latest => s!"earliest_departure_time {earliest} is after latest_arrival_time {latest}"

def message (e : InvalidConfig) : String := "invalid config: " ++ e.reason

end InvalidConfig

namespace SearchConfig

def standard : SearchConfig :=
  { direction := .forward, transferSlack := 60, waitReluctance := 1.0, transferCost := 0, includeCost := false,
    timetable := false, latestArrival := none, earliestDeparture := none, debug := false }

/-- The same parameters, with doubles compared as numbers. -/
def same (a b : SearchConfig) : Bool :=
  a.direction = b.direction && a.transferSlack = b.transferSlack && a.waitReluctance == b.waitReluctance &&
  a.transferCost = b.transferCost && a.includeCost = b.includeCost && a.timetable = b.timetable &&
  a.latestArrival = b.latestArrival && a.earliestDeparture = b.earliestDeparture && a.debug = b.debug

def windowFault (c : SearchConfig) : Option InvalidConfig :=
  match c.earliestDeparture, c.latestArrival with
  | some earliest, some latest => if earliest > latest then some (.emptyWindow earliest latest) else none
  | _, _ => none

def validate (c : SearchConfig) : Except InvalidConfig Unit :=
  if c.transferSlack < 0 then throw (.negativeSlack c.transferSlack)
  else if !(Binary64.ofFloat c.waitReluctance).isNonNegative then throw (.badReluctance c.waitReluctance)
  else if c.transferCost < 0 then throw (.negativeTransferCost c.transferCost)
  else
    match c.windowFault with
    | some e => throw e
    | none => pure ()

/-! ## The parts of a search -/

def calculator (c : SearchConfig) : Calculator :=
  match c.direction with
  | .forward => ⟨.forward, c.latestArrival⟩
  | .reverse => ⟨.reverse, c.earliestDeparture⟩

def costModel (c : SearchConfig) : Option CostModel :=
  if c.includeCost then some ⟨c.waitReluctance, c.transferCost⟩ else none

def criteria (c : SearchConfig) : Criteria := .ofFlags c.timetable c.includeCost

def order (c : SearchConfig) : Journey.Order := ⟨c.criteria, c.direction⟩

def journeyMap (c : SearchConfig) : Journey.Map := .ofChain c.direction

/-- Logs every decision when debugging is on. -/
def debugHandler (c : SearchConfig) (environment : Environment) : Option (DebugHandler Journey Notice) :=
  if c.debug then some (Notice.logging environment) else none

def terms (c : SearchConfig) : Terms := ⟨c.calculator, c.costModel, c.transferSlack⟩

def setup (c : SearchConfig) (environment : Environment) : Setup :=
  { order := c.order, terms := c.terms.collaborators, map := c.journeyMap, handler := c.debugHandler environment,
    environment }

end SearchConfig

end TransitSearch
