/-
  TransitSearch.Destination — joining an arrival with an egress leg.

  The collaborators of a search are what its destinations depend on: a transit calculator,
  a cost calculator if cost is tracked, and the slack before a ride. `Terms` are those that
  come with the search. A destination arrival counts the transfers of the whole journey,
  one less than its rounds.
-/

import TransitSearch.Arena
import TransitSearch.Calculator

namespace TransitSearch

structure Destination where
  /-- The stop arrival that the egress leg continues. -/
  previous : Nat
  egress : Leg
  departure : Int
  arrival : Int
  cost : Int
  paretoRound : Nat
  transfers : Nat
  deriving DecidableEq, Repr

def Destination.round (d : Destination) : Except Fault Nat := roundOf d.paretoRound

/-- The destination reached from an arrival by `egress`, if the leg can be used from there. Waiting and the leg add
`price wait egress` to the cost. -/
def TransitCalculator.destination? (c : TransitCalculator) (slack : Int) (price : Int → Leg → Except Fault Int)
    (arena : Arena) (id : Nat) (egress : Leg) : Except Fault (Option Destination) := do
  let node ← arena.get id
  match ← c.egressDeparture node.time egress slack with
  | none => pure none
  | some departure =>
    let arrival ← c.plusDuration departure egress.duration
    let wait ← Checked.abs (← Checked.sub departure node.time)
    let added ← price wait egress
    let rounds ← Checked.addCount (← node.round) egress.rides
    let cost ← Checked.add node.cost added
    let paretoRound ← Checked.addCount node.paretoRound 1
    pure (some { previous := id, egress, departure, arrival, cost, paretoRound, transfers := rounds - 1 })

structure Collaborators where
  calculator : TransitCalculator
  costs : Option CostCalculator
  /-- The least time between reaching a stop and boarding a ride there. -/
  slack : Int

namespace Collaborators

/-- What waiting `wait` and using `egress` add to the cost of the arrival. -/
def addedCost (terms : Collaborators) (wait : Int) (egress : Leg) : Except Fault Int :=
  match terms.costs with
  | none => pure 0
  | some costs => do
    let waiting ← costs.waitCost wait
    let leg ← costs.egressCost egress
    Checked.add waiting leg

def destination? (terms : Collaborators) (arena : Arena) (id : Nat) (egress : Leg) :
    Except Fault (Option Destination) :=
  terms.calculator.destination? terms.slack terms.addedCost arena id egress

end Collaborators

structure Terms where
  calculator : Calculator
  costs : Option CostModel
  slack : Int

namespace Terms

def collaborators (terms : Terms) : Collaborators :=
  { calculator := terms.calculator.transit, costs := terms.costs.map CostModel.calculator, slack := terms.slack }

def addedCost (terms : Terms) (wait : Int) (egress : Leg) : Except Fault Int :=
  terms.collaborators.addedCost wait egress

def destination? (terms : Terms) (arena : Arena) (id : Nat) (egress : Leg) : Except Fault (Option Destination) :=
  terms.collaborators.destination? arena id egress

end Terms

end TransitSearch
