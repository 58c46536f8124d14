/-
  TransitSearch.Journey — completed journeys, as a traveller reads them.

  The legs of a journey run forwards in time from the origin to the destination, whichever
  way the search went. A journey may also be known by its totals alone, without legs
  (`summary`). The written form names the stops through a function of the reader's.
-/

import TransitSearch.Text

namespace TransitSearch

/-- What a leg connects. -/
inductive Route where
  | access (toStop : Nat)
  | transit (fromStop toStop trip : Nat)
  | transfer (fromStop toStop : Nat)
  | egress (fromStop : Nat)
  deriving DecidableEq, Repr

namespace Route

def isTransit : Route → Bool
  | .transit .. => true
  | _ => false

def fromStop? : Route → Option Nat
  | .access _ => none
  | .transit fromStop _ _ => some fromStop
  | .transfer fromStop _ => some fromStop
  | .egress fromStop => some fromStop

def toStop? : Route → Option Nat
  | .access toStop => some toStop
  | .transit _ toStop _ => some toStop
  | .transfer _ toStop => some toStop
  | .egress _ => none

def trip? : Route → Option Nat
  | .transit _ _ trip => some trip
  | _ => none

end Route

structure JourneyLeg where
  route : Route
  fromTime : Int
  toTime : Int
  cost : Int
  deriving DecidableEq, Repr

namespace JourneyLeg

def duration (leg : JourneyLeg) : Except Fault Int := Checked.sub leg.toTime leg.fromTime

def text (leg : JourneyLeg) (calendar : Calendar) (stopName : Nat → String) : Except Fault String := do
  let what ← match leg.route with
    | .access _ => do pure ("Access " ++ (← Text.duration calendar (← leg.duration)))
    | .transit _ _ trip =>
      pure s!"Trip {trip} {Text.time calendar leg.fromTime} {Text.time calendar leg.toTime}"
    | .transfer .. => do pure ("Walk " ++ (← Text.duration calendar (← leg.duration)))
    | .egress _ => do pure ("Egress " ++ (← Text.duration calendar (← leg.duration)) ++ " ")
  match leg.route.toStop? with
  | none => pure what
  | some stop => pure s!"{what} ~ {stopName stop} ~ "

def debugText (leg : JourneyLeg) : String :=
  let times := s!"from_time: {leg.fromTime}, to_time: {leg.toTime}"
  match leg.route with
  | .access toStop => s!"Access \x7b to_stop: {toStop}, {times}, c1: {leg.cost} \x7d"
  | .transit fromStop toStop trip =>
    s!"Transit \x7b from_stop: {fromStop}, to_stop: {toStop}, {times}, trip: {trip}, c1: {leg.cost} \x7d"
  | .transfer fromStop toStop =>
    s!"Transfer \x7b from_stop: {fromStop}, to_stop: {toStop}, {times}, c1: {leg.cost} \x7d"
  | .egress fromStop => s!"Egress \x7b from_stop: {fromStop}, {times}, c1: {leg.cost} \x7d"

end JourneyLeg

structure Journey where
  /-- The departure time of the search iteration that found it. -/
  iteration : Int
  startTime : Int
  endTime : Int
  transfers : Nat
  cost : Int
  legs : List JourneyLeg
  deriving DecidableEq, Repr

namespace Journey

/-- Starts with the first leg and ends with the last. -/
def ofLegs (iteration : Int) (legs : List JourneyLeg) (transfers : Nat) (cost : Int) : Except Fault Journey :=
  match legs.head?, legs.getLast? with
  | some first, some last =>
    pure { iteration, startTime := first.fromTime, endTime := last.toTime, transfers, cost, legs }
  | _, _ => throw .noLegs

def summary (iteration startTime endTime : Int) (transfers : Nat) (cost : Int) : Journey :=
  { iteration, startTime, endTime, transfers, cost, legs := [] }

def duration (j : Journey) : Except Fault Int := Checked.sub j.endTime j.startTime

def transitLegs (j : Journey) : List JourneyLeg := j.legs.filter (·.route.isTransit)

def textWith (j : Journey) (calendar : Calendar) (stopName : Nat → String) : Except Fault String := do
  let legs ← j.legs.mapM (·.text calendar stopName)
  let duration ← Text.duration calendar (← j.duration)
  let times := s!"{Text.time calendar j.startTime} {Text.time calendar j.endTime} {duration}"
  pure (String.join legs ++ s!"[{times} Tx{j.transfers} {Text.cost j.cost}]")

/-- The written form with stops shown by their number. -/
def text (j : Journey) (calendar : Calendar) : Except Fault String := j.textWith calendar fun stop => s!"{stop}"

def debugText (j : Journey) : String :=
  let legs := String.intercalate ", " (j.legs.map (·.debugText))
  s!"Path \x7b iteration_departure_time: {j.iteration}, start_time: {j.startTime}, end_time: {j.endTime}, " ++
  s!"number_of_transfers: {j.transfers}, c1: {j.cost}, legs: [{legs}] \x7d"

end Journey

end TransitSearch
