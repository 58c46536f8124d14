/-
  TransitSearch.Journey.Order — when one journey is better than another.

  A journey is better on time when it arrives earlier (forward) or departs later
  (reverse). Fewer transfers and a shorter duration always count; the departure of the
  iteration and the cost count when the criteria track them.
-/

import TransitSearch.Direction
import TransitSearch.Journey
import TransitSearch.ParetoSet

namespace TransitSearch

/-- Which criteria count beyond time, transfers and duration. -/
inductive Criteria where
  | standard
  /-- Also a later iteration, so that each departure of a range keeps its own journey. -/
  | timetable
  /-- Also the cost. -/
  | standardWithCost
  | timetableWithCost
  deriving DecidableEq, Repr

namespace Criteria

def ofFlags (timetable cost : Bool) : Criteria :=
  match timetable, cost with
  | false, false => .standard
  | true, false => .timetable
  | false, true => .standardWithCost
  | true, true => .timetableWithCost

def name : Criteria → String
  | .standard => "standard"
  | .timetable => "timetable"
  | .standardWithCost => "standard-with-c1"
  | .timetableWithCost => "timetable-with-c1"

def tracksIteration : Criteria → Bool
  | .timetable | .timetableWithCost => true
  | .standard | .standardWithCost => false

def tracksCost : Criteria → Bool
  | .standardWithCost | .timetableWithCost => true
  | .standard | .timetable => false

end Criteria

structure Journey.Order where
  criteria : Criteria
  direction : Direction
  deriving DecidableEq, Repr

namespace Journey.Order

def betterTime (order : Journey.Order) (l r : Journey) : Bool :=
  match order.direction with
  | .forward => l.endTime < r.endTime
  | .reverse => l.startTime > r.startTime

def betterIteration (order : Journey.Order) (l r : Journey) : Bool :=
  match order.direction with
  | .forward => l.iteration > r.iteration
  | .reverse => l.iteration < r.iteration

/-- The durations are worked out only when time and transfers have not settled the question. -/
def advantage (order : Journey.Order) : Advantage Journey := fun l r => do
  if order.betterTime l r || l.transfers < r.transfers then pure true
  else
    let left ← l.duration
    let right ← r.duration
    pure (left < right ||
      order.criteria.tracksCost && l.cost < r.cost ||
      order.criteria.tracksIteration && order.betterIteration l r)

end Journey.Order

end TransitSearch
