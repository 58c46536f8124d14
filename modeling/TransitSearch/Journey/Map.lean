/-
  TransitSearch.Journey.Map — journeys from destination arrivals.

  A hop is one step of the search from one point to the next in search order: the egress
  leg, then one hop for each arrival of the chain, back to the access leg. A forward
  journey reads the hops backwards; a reverse search has already gone from the destination
  to the origin, and its access leg is the last leg of the journey. Each hop costs the
  difference between two accumulated costs, so that the legs add up to the destination's.
-/

import TransitSearch.Destination
import TransitSearch.Journey

namespace TransitSearch

inductive HopKind where
  /-- The leg at the root of the chain. -/
  | searchAccess
  | transit (trip : Nat)
  | transfer
  /-- The leg that joins the destination. -/
  | searchEgress
  deriving DecidableEq, Repr

structure Endpoint where
  stop : Nat
  time : Int
  deriving DecidableEq, Repr

structure Hop where
  kind : HopKind
  start : Endpoint
  finish : Endpoint
  cost : Int
  deriving DecidableEq, Repr

namespace Hop

/-- Where and how the hop to an arrival began. -/
def origin (dir : Direction) (node : Arrival) : Except Fault (HopKind × Endpoint) :=
  match node.kind with
  | .access leg => do pure (.searchAccess, ⟨node.stop, ← dir.minus node.time leg.duration⟩)
  | .transit boarding => pure (.transit boarding.trip, ⟨boarding.stop, boarding.time⟩)
  | .transfer fromStop duration => do pure (.transfer, ⟨fromStop, ← dir.minus node.time duration⟩)

def ofArrival (dir : Direction) (arena : Arena) (node : Arrival) : Except Fault Hop := do
  let paid ← match node.previous with
    | none => pure 0
    | some p => (·.cost) <$> arena.get p
  let (kind, start) ← origin dir node
  let cost ← Checked.sub node.cost paid
  pure { kind, start, finish := ⟨node.stop, node.time⟩, cost }

def ofDestination (arena : Arena) (d : Destination) : Except Fault Hop := do
  let last ← arena.get d.previous
  let cost ← Checked.sub d.cost last.cost
  pure { kind := .searchEgress, start := ⟨last.stop, d.departure⟩, finish := ⟨last.stop, d.arrival⟩, cost }

/-- The hops from the destination back to the root of its chain. -/
def all (dir : Direction) (arena : Arena) (d : Destination) : Except Fault (List Hop) := do
  let egress ← ofDestination arena d
  let chain ← arena.chain d.previous
  let hops ← chain.mapM fun (_, node) => ofArrival dir arena node
  pure (egress :: hops)

/-- The two ends of the hop, the earlier in travel first. -/
def ends (dir : Direction) (hop : Hop) : Endpoint × Endpoint :=
  match dir with
  | .forward => (hop.start, hop.finish)
  | .reverse => (hop.finish, hop.start)

def route (dir : Direction) (hop : Hop) : Route :=
  let (first, last) := hop.ends dir
  match hop.kind, dir with
  | .searchAccess, .forward | .searchEgress, .reverse => .access last.stop
  | .searchEgress, .forward | .searchAccess, .reverse => .egress first.stop
  | .transit trip, _ => .transit first.stop last.stop trip
  | .transfer, _ => .transfer first.stop last.stop

def leg (dir : Direction) (hop : Hop) : JourneyLeg :=
  let (first, last) := hop.ends dir
  { route := hop.route dir, fromTime := first.time, toTime := last.time, cost := hop.cost }

end Hop

/-- Any way to turn a destination, with the departure time of the iteration, into a journey. -/
abbrev Journey.Map := Arena → Destination → Option Int → Except Fault Journey

namespace Journey.Map

def legs (dir : Direction) (hops : List Hop) : List JourneyLeg :=
  match dir with
  | .forward => hops.reverse.map (·.leg dir)
  | .reverse => hops.map (·.leg dir)

/-- One leg for each hop. Without an iteration, the start of the journey stands in for it. -/
def ofChain (dir : Direction) : Journey.Map := fun arena d iteration => do
  let legs := legs dir (← Hop.all dir arena d)
  let start := (legs.head?.map (·.fromTime)).getD d.arrival
  Journey.ofLegs (iteration.getD start) legs d.transfers d.cost

end Journey.Map

end TransitSearch
