/-
  TransitSearch.Calculator — leaving the network towards the destination.

  A transit calculator says when an egress leg can start from a stop, and whether the time
  at which the destination is reached lies beyond the limit of the search. A cost calculator
  prices the waiting and the leg. Both are supplied to the search, and any will do. The two
  that come with it are `Calculator`, which limits one direction, and `CostModel`, which
  weighs waiting by a factor.
-/

import TransitSearch.Binary64
import TransitSearch.Direction
import TransitSearch.Leg

namespace TransitSearch

structure TransitCalculator where
  /-- The start of an egress leg after an arrival, if the leg can be used from there. -/
  egressDeparture (arrival : Int) (egress : Leg) (slack : Int) : Except Fault (Option Int)
  plusDuration (time duration : Int) : Except Fault Int
  exceedsLimit (time : Int) : Bool
  /-- Why what exceeds the limit is rejected, with times as the calendar writes them. -/
  limitReason (calendar : Calendar) : String

structure CostCalculator where
  waitCost (seconds : Int) : Except Fault Int
  egressCost (egress : Leg) : Except Fault Int

structure Calculator where
  direction : Direction
  /-- The last time, in search order, at which the destination may be reached. -/
  limit : Option Int
  deriving DecidableEq, Repr

namespace Calculator

/-- The start of `egress` after an arrival. Walking off is no transfer, boarding a ride is. -/
def egressDeparture (c : Calculator) (arrival : Int) (egress : Leg) (slack : Int) : Except Fault (Option Int) := do
  let ready ← if egress.hasRides then c.direction.plus arrival slack else pure arrival
  match c.direction with
  | .forward => pure (egress.earliestDeparture ready)
  | .reverse => egress.latestArrival ready

def exceedsLimit (c : Calculator) (time : Int) : Bool :=
  match c.limit with
  | none => false
  | some limit => c.direction.isAfter limit time

def limitReason (c : Calculator) (calendar : Calendar) : String :=
  match c.direction, c.limit with
  | .forward, some limit => s!"The arrival time exceeds the time limit, arrive to late: {Text.time calendar limit}."
  | .forward, none => "No arrival time limit is set."
  | .reverse, some limit => s!"The departure time exceeds the time limit, depart to early: {Text.time calendar limit}."
  | .reverse, none => "No departure time limit is set."

def transit (c : Calculator) : TransitCalculator where
  egressDeparture := c.egressDeparture
  plusDuration := c.direction.plus
  exceedsLimit := c.exceedsLimit
  limitReason := c.limitReason

end Calculator

structure CostModel where
  /-- What a second of waiting costs, in seconds of riding. -/
  waitReluctance : Float
  /-- What an egress leg with rides costs on top. -/
  transferCost : Int

namespace CostModel

def standard : CostModel := ⟨1.0, 0⟩

/-- In hundredths, a half rounded away from zero, held within 32 bits. -/
def waitCost (model : CostModel) (seconds : Int) : Int :=
  (Binary64.ofFloat (model.waitReluctance * Float.ofInt seconds * 100.0)).toInt32

def egressCost (model : CostModel) (egress : Leg) : Except Fault Int :=
  if egress.hasRides then Checked.add egress.cost model.transferCost else pure egress.cost

def calculator (model : CostModel) : CostCalculator where
  waitCost seconds := pure (model.waitCost seconds)
  egressCost := model.egressCost

end CostModel

end TransitSearch
