/-
  TransitSearch.Leg — access and egress legs.

  A leg connects a stop with the origin or the destination outside the network. It may
  be on foot or count rides of an on-demand service, and it may be open only to
  departures within a window, both ends included.
-/

import TransitSearch.Text

namespace TransitSearch

structure OpeningHours where
  opens : Int
  closes : Int
  deriving DecidableEq, Repr

structure Leg where
  stop : Nat
  duration : Int
  cost : Int
  rides : Nat
  /-- Whether the traveller is still on a vehicle when the stop is reached. -/
  onBoard : Bool
  hours : Option OpeningHours
  deriving DecidableEq, Repr

namespace Leg

def walk (stop : Nat) (duration cost : Int) : Leg := ⟨stop, duration, cost, 0, false, none⟩

def flex (stop : Nat) (duration cost : Int) (rides : Nat) (onBoard : Bool) : Leg :=
  ⟨stop, duration, cost, rides, onBoard, none⟩

def withHours (leg : Leg) (opens closes : Int) : Leg := { leg with hours := some ⟨opens, closes⟩ }

def hasRides (leg : Leg) : Bool := leg.rides > 0

/-- The first departure at or after `requested` within the hours. -/
def earliestDeparture (leg : Leg) (requested : Int) : Option Int :=
  match leg.hours with
  | none => some requested
  | some hours => if requested > hours.closes then none else some (max requested hours.opens)

/-- The last arrival at or before `requested` whose departure is within the hours. -/
def latestArrival (leg : Leg) (requested : Int) : Except Fault (Option Int) :=
  match leg.hours with
  | none => pure (some requested)
  | some hours => do
    let departure ← Checked.sub requested leg.duration
    if departure < hours.opens then pure none
    else some <$> Checked.add (min departure hours.closes) leg.duration

def text (leg : Leg) (calendar : Calendar) : Except Fault String := do
  let mode := if leg.hasRides then s!"Flex {leg.rides}x " else "Walk "
  let duration ← Text.duration calendar leg.duration
  let window := match leg.hours with
    | none => ""
    | some hours => s!" Open({Text.time calendar hours.opens} {Text.time calendar hours.closes})"
  pure s!"{mode}{duration} {Text.cost leg.cost}{window} ~ {leg.stop}"

end Leg

end TransitSearch
