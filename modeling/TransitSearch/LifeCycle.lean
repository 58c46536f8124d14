/-
  TransitSearch.LifeCycle — iterations and rounds of a search.

  A search runs iterations, each with its departure time, and rounds within them. The life
  cycle counts the rounds of the current iteration and announces each boundary, which
  reaches every subscriber in order (`announce`).
-/

import TransitSearch.Run

namespace TransitSearch

inductive Boundary where
  | iterationStart (departure : Int)
  | roundStart (round : Nat)
  | roundEnd (destinationReached : Bool)
  | iterationEnd
  deriving DecidableEq, Repr

namespace Boundary

/-- Every subscriber's state after it has heard of the boundary. -/
def announce {σ : Type} (b : Boundary) (hear : σ → Boundary → σ) (subscribers : List σ) : List σ :=
  subscribers.map fun s => hear s b

end Boundary

structure LifeCycle where
  /-- Zero before the first round of an iteration. -/
  round : Nat
  iteration : Option Int
  deriving DecidableEq, Repr

namespace LifeCycle

def initial : LifeCycle := ⟨0, none⟩

def setupIteration (_ : LifeCycle) (departure : Int) : Run LogEvent (LifeCycle × Boundary) := do
  Run.write ⟨.trace, "setup iteration", [("iteration_departure_time", .number departure)]⟩
  pure (⟨0, some departure⟩, .iterationStart departure)

def nextRound (cycle : LifeCycle) : Run LogEvent (LifeCycle × Boundary) := do
  let round ← Checked.addCount cycle.round 1
  Run.write ⟨.trace, "prepare for next round", [("round", .number round)]⟩
  pure ({ cycle with round }, .roundStart round)

end LifeCycle

end TransitSearch
