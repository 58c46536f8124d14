/-
  TransitSearch.Throttle — at most one event per quiet period.

  The throttle holds no clock: each request carries the time at which it is made, in
  milliseconds. A time before the last one let through counts as no time passed.
-/

namespace TransitSearch

structure Throttle where
  quietPeriod : Nat
  lastEmitted : Option Nat
  /-- How many events were held back since the last one let through. -/
  suppressed : Nat
  deriving DecidableEq, Repr

namespace Throttle

def ofPeriod (quietPeriod : Nat) : Throttle := ⟨quietPeriod, none, 0⟩

def isOpen (t : Throttle) (now : Nat) : Bool :=
  match t.lastEmitted with
  | none => true
  | some last => now - last ≥ t.quietPeriod

/-- Lets an event through, with the number held back before it, or holds it back. -/
def permitAt (t : Throttle) (now : Nat) : Option Nat × Throttle :=
  if t.isOpen now then (some t.suppressed, { t with lastEmitted := some now, suppressed := 0 })
  else (none, { t with suppressed := t.suppressed + 1 })

/-- What each of a list of requests is answered. -/
def permits (t : Throttle) : List Nat → List (Option Nat)
  | [] => []
  | now :: rest => (t.permitAt now).1 :: permits (t.permitAt now).2 rest

end Throttle

end TransitSearch
