/-
  TransitSearch.Arena — all arrivals of one search iteration.

  Arrivals are appended and never changed; the handle of an arrival is its index. A chain
  is walked from an arrival through its predecessors to the access arrival at its root.
  An operation on a handle that points outside the arena faults. Clearing the arena makes
  every handle stale: it points outside, or at whatever was appended there since.

  Re-timing appends an access arrival with the same leg that reaches the stop as near to
  the wanted time as the leg allows, unless that is the time it already has.
-/

import TransitSearch.Arrival
import TransitSearch.Direction
import TransitSearch.Run

namespace TransitSearch

structure Arena where
  direction : Direction
  nodes : Array Arrival

inductive ShiftError where
  /-- Only access arrivals carry a leg that can be moved. -/
  | unsupported (kind : String) (stop : Nat)
  /-- The leg is not open at a time that would do. -/
  | notAvailable (stop : Nat) (requested : Int)
  deriving DecidableEq, Repr

def ShiftError.message : ShiftError → String
  | .unsupported kind stop => s!"no access leg to time-shift for {kind} arrival at stop {stop}"
  | .notAvailable stop requested => s!"access to stop {stop} is not available for arrival at {requested}"

namespace Arena

def empty (direction : Direction) : Arena := ⟨direction, #[]⟩

def size (arena : Arena) : Nat := arena.nodes.size

def clear (arena : Arena) : Arena := { arena with nodes := #[] }

/-! ## Reading -/

def get (arena : Arena) (id : Nat) : Except Fault Arrival :=
  match arena.nodes[id]? with
  | some node => .ok node
  | none => .error (.outOfBounds arena.nodes.size id)

def snapshot (arena : Arena) (id : Nat) : Except Fault Snapshot := (·.snapshot id) <$> arena.get id

def previous (arena : Arena) (id : Nat) : Except Fault (Option Nat) := (·.previous) <$> arena.get id

def previousStop (arena : Arena) (id : Nat) : Except Fault Nat := do
  let node ← arena.get id
  match node.previous with
  | some p => (·.stop) <$> arena.get p
  | none => throw (.noPrevious node.stop)

/--
The arrivals from `id` back to the root of its chain, with their handles. A predecessor was
appended before its successor, so its handle is smaller; the walk would end at one that is not.
-/
def chain (arena : Arena) (id : Nat) : Except Fault (List (Nat × Arrival)) := do
  let node ← arena.get id
  match node.previous with
  | none => pure [(id, node)]
  | some p =>
    if p < id then
      let rest ← arena.chain p
      pure ((id, node) :: rest)
    else pure [(id, node)]
termination_by id

/-! ## Appending -/

-- A handle has 32 bits, and a search gives up at the 2^32nd arrival with "more than u32::MAX stop arrivals". Memory
-- is spent before that, so a handle is any natural here and `push` has no such fault.
def push (arena : Arena) (node : Arrival) : Arena × Nat :=
  ({ arena with nodes := arena.nodes.push node }, arena.nodes.size)

def transitIncrement : Nat := 1

def transferIncrement : Nat := 1

/-- The root of a chain: the origin left at `departure` by `leg`. -/
def access (arena : Arena) (departure : Int) (leg : Leg) : Except Fault (Arena × Nat) := do
  let paretoRound ← Checked.mulCount leg.rides (transitIncrement + transferIncrement)
  let time ← arena.direction.plus departure leg.duration
  pure (arena.push
    { previous := none, paretoRound, stop := leg.stop, time, travelDuration := leg.duration,
      cost := leg.cost, kind := .access leg })

/-- An arrival that continues `previous`. The time in between counts as travel, all of it. -/
def derive (arena : Arena) (previous increment stop : Nat) (time cost : Int) (kind : ArrivalKind) :
    Except Fault (Arena × Nat) := do
  let node ← arena.get previous
  let elapsed ← arena.direction.between node.time time
  let travelDuration ← Checked.add node.travelDuration elapsed
  let paretoRound ← Checked.addCount node.paretoRound increment
  pure (arena.push { previous := some previous, paretoRound, stop, time, travelDuration, cost, kind })

def transit (arena : Arena) (previous stop : Nat) (time cost : Int) (boarding : Boarding) :
    Except Fault (Arena × Nat) :=
  arena.derive previous transitIncrement stop time cost (.transit boarding)

/-- A walk from the stop of `previous`, which takes all the time in between. -/
def transfer (arena : Arena) (previous stop : Nat) (time cost : Int) : Except Fault (Arena × Nat) := do
  let node ← arena.get previous
  let duration ← arena.direction.between node.time time
  arena.derive previous transferIncrement stop time cost (.transfer node.stop duration)

/-! ## Re-timing -/

/-- The arrival time nearest to `requested` that `leg` allows on its side of it. -/
def shiftedTime (dir : Direction) (leg : Leg) (requested : Int) : Except Fault (Option Int) :=
  match dir with
  | .forward => leg.latestArrival requested
  | .reverse => pure (leg.earliestDeparture requested)

def shift (arena : Arena) (id : Nat) (requested : Int) : Run LogEvent (Except ShiftError Nat × Arena) := do
  let node ← arena.get id
  match node.kind with
  | .access leg =>
    match ← shiftedTime arena.direction leg requested with
    | none => pure (.error (.notAvailable node.stop requested), arena)
    | some time =>
      if time = node.time then pure (.ok id, arena)
      else
        let departure ← arena.direction.minus time leg.duration
        Run.write ⟨.trace, "time-shifting access arrival",
          [("stop", .number leg.stop), ("from", .number node.time), ("to", .number time)]⟩
        let (arena, id) ← arena.access departure leg
        pure (.ok id, arena)
  | kind => pure (.error (.unsupported kind.name node.stop), arena)

end Arena

end TransitSearch
