/-
  TransitSearch.Search — one search as a run of calls.

  A search holds the arena of its arrivals, the collector of its journeys and its life
  cycle, to which the collector subscribes. `step` carries out one call; `run` a list of
  them, up to the first fault.
-/

import TransitSearch.Collector

namespace TransitSearch

structure Search where
  arena : Arena
  collector : Collector
  cycle : LifeCycle

namespace Search

inductive Call where
  | access (departure : Int) (leg : Leg)
  | transit (previous stop : Nat) (time cost : Int) (boarding : Boarding)
  | transfer (previous stop : Nat) (time cost : Int)
  | derive (previous increment stop : Nat) (time cost : Int) (kind : ArrivalKind)
  | shift (id : Nat) (requested : Int)
  | clear
  | add (now id : Nat) (egress : Leg)
  | qualify (departure arrival : Int) (transfers : Nat) (cost : Int)
  | reject (id : Nat) (egress : Leg) (reason : String)
  | setIteration (departure : Int)
  | setupIteration (departure : Int)
  | nextRound
  | roundComplete (destinationReached : Bool)
  | iterationComplete
  deriving DecidableEq, Repr

inductive Reply where
  | done
  /-- The handle of the arrival appended or found. -/
  | arrival (id : Nat)
  | notShifted (why : ShiftError)
  | qualified (b : Bool)
  deriving DecidableEq, Repr

def start (direction : Direction) (setup : Setup) : Search :=
  { arena := .empty direction, collector := .empty setup (.ofPeriod Collector.mismatchPeriod), cycle := .initial }

def appended (s : Search) (x : Except Fault (Arena × Nat)) : Run Notice (Reply × Search) := do
  let (arena, id) ← x
  pure (.arrival id, { s with arena })

/-- Lets the collector hear of the boundary that the life cycle announces. -/
def announced (s : Search) (x : Run LogEvent (LifeCycle × Boundary)) : Run Notice (Reply × Search) := do
  let (cycle, boundary) ← (x.heard s.collector.setup.environment.hears).mapWritten Notice.log
  pure (.done, { s with cycle, collector := s.collector.hear boundary })

def step (s : Search) : Call → Run Notice (Reply × Search)
  | .access departure leg => s.appended (s.arena.access departure leg)
  | .transit previous stop time cost boarding => s.appended (s.arena.transit previous stop time cost boarding)
  | .transfer previous stop time cost => s.appended (s.arena.transfer previous stop time cost)
  | .derive previous increment stop time cost kind =>
    s.appended (s.arena.derive previous increment stop time cost kind)
  | .shift id requested => do
    let (result, arena) ← ((s.arena.shift id requested).heard s.collector.setup.environment.hears).mapWritten Notice.log
    match result with
    | .ok id => pure (.arrival id, { s with arena })
    | .error why => pure (.notShifted why, { s with arena })
  | .clear => pure (.done, { s with arena := s.arena.clear })
  | .add now id egress => do
    let collector ← s.collector.add now s.arena id egress
    pure (.done, { s with collector })
  | .qualify departure arrival transfers cost => do
    let b ← s.collector.qualify departure arrival transfers cost
    pure (.qualified b, s)
  | .reject id egress reason => do
    s.collector.reject s.arena id egress reason
    pure (.done, s)
  | .setIteration departure => pure (.done, { s with collector := s.collector.setIteration departure })
  | .setupIteration departure => s.announced (s.cycle.setupIteration departure)
  | .nextRound => s.announced s.cycle.nextRound
  | .roundComplete destinationReached => s.announced (pure (s.cycle, .roundEnd destinationReached))
  | .iterationComplete => s.announced (pure (s.cycle, .iterationEnd))

def run (s : Search) : List Call → Run Notice (List Reply × Search)
  | [] => pure ([], s)
  | call :: rest => do
    let (reply, s) ← s.step call
    let (replies, s) ← s.run rest
    pure (reply :: replies, s)

end Search

end TransitSearch
