/-
  TransitSearch.Arrival — partial journeys at a stop.

  An arrival is the state of a partial journey: where and when it stands, what it has cost
  and how the stop was reached. It points back at the arrival it continues by a handle; an
  access arrival, the root of a chain, has none. The pareto round counts boardings and
  walks, two for each ride of the access leg, so that the round of the search is half of
  it, rounded up.

  A snapshot is the part of an arrival that is compared, together with its handle. The two
  rules of comparison differ in whether arriving on board a vehicle is an advantage.
-/

import TransitSearch.Leg
import TransitSearch.ParetoSet

namespace TransitSearch

structure Boarding where
  stop : Nat
  time : Int
  trip : Nat
  deriving DecidableEq, Repr

inductive ArrivalKind where
  | access (leg : Leg)
  | transit (boarding : Boarding)
  | transfer (fromStop : Nat) (duration : Int)
  deriving DecidableEq, Repr

namespace ArrivalKind

def name : ArrivalKind → String
  | .access _ => "access"
  | .transit _ => "transit"
  | .transfer .. => "transfer"

def onBoard : ArrivalKind → Bool
  | .access leg => leg.onBoard
  | .transit _ => true
  | .transfer .. => false

def access? : ArrivalKind → Option Leg
  | .access leg => some leg
  | _ => none

def text (calendar : Calendar) : ArrivalKind → Except Fault String
  | .access leg => do
    let leg ← leg.text calendar
    pure s!"Access \x7b {leg} \x7d"
  | .transit boarding => pure s!"Transit \x7b trip: {boarding.trip}, from: {boarding.stop} \x7d"
  | .transfer fromStop duration => do
    let duration ← Text.duration calendar duration
    pure s!"Walk \x7b from: {fromStop}, {duration} \x7d"

end ArrivalKind

structure Arrival where
  previous : Option Nat
  paretoRound : Nat
  stop : Nat
  time : Int
  /-- The time spent since the origin was left, waiting included. -/
  travelDuration : Int
  /-- The accumulated cost. -/
  cost : Int
  kind : ArrivalKind
  deriving DecidableEq, Repr

/-- The round of the search in which a pareto round falls. -/
def roundOf (paretoRound : Nat) : Except Fault Nat := (· / 2) <$> Checked.addCount paretoRound 1

namespace Arrival

def round (a : Arrival) : Except Fault Nat := roundOf a.paretoRound

def text (a : Arrival) (calendar : Calendar) : Except Fault String := do
  let kind ← a.kind.text calendar
  let round ← a.round
  let duration ← Text.duration calendar a.travelDuration
  let place := s!"round: {round}, stop: {a.stop}, arrival: {Text.time calendar a.time}"
  pure s!"{kind} \x7b {place}, duration: {duration}, c1: {Text.cost a.cost} \x7d"

end Arrival

structure Snapshot where
  id : Nat
  stop : Nat
  time : Int
  paretoRound : Nat
  cost : Int
  travelDuration : Int
  onBoard : Bool
  deriving DecidableEq, Repr

def Arrival.snapshot (a : Arrival) (id : Nat) : Snapshot :=
  { id, stop := a.stop, time := a.time, paretoRound := a.paretoRound, cost := a.cost,
    travelDuration := a.travelDuration, onBoard := a.kind.onBoard }

namespace Snapshot

def round (s : Snapshot) : Except Fault Nat := roundOf s.paretoRound

/-- Earlier on the clock, fewer pareto rounds or cheaper. -/
def betterSomewhere (l r : Snapshot) : Bool := l.time < r.time || l.paretoRound < r.paretoRound || l.cost < r.cost

end Snapshot

/-- What counts in comparing arrivals at one stop. -/
inductive ArrivalRule where
  | timeRoundAndCost
  | timeRoundCostAndOnBoard
  deriving DecidableEq, Repr

namespace ArrivalRule

def better (rule : ArrivalRule) (l r : Snapshot) : Bool :=
  match rule with
  | .timeRoundAndCost => l.betterSomewhere r
  | .timeRoundCostAndOnBoard => l.betterSomewhere r || l.onBoard && !r.onBoard

def advantage (rule : ArrivalRule) : Advantage Snapshot := fun l r => .ok (rule.better l r)

end ArrivalRule

end TransitSearch
