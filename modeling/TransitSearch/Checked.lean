/-
  TransitSearch.Checked — arithmetic that stops at the edge of its range.

  Times, durations and costs are integers of 32 bits with a sign (`Fits`), counters are
  naturals below 2^32 (`FitsCount`). An operation computes the exact result and faults
  when it lies outside (`add_ok_iff` and its companions): `ok` always holds the true sum,
  difference or product.

  A fault ends the search and names the operation. The other faults are uses of the search
  that have no answer: a handle that points outside the arena, the stop before the root of
  a chain, a journey without legs, a duration that the calendar cannot represent.
-/

namespace TransitSearch

inductive Fault where
  | addOverflow
  | subOverflow
  | mulOverflow
  | negOverflow
  | outOfBounds (length index : Nat)
  /-- The predecessor of an access arrival, which has none. -/
  | noPrevious (stop : Nat)
  /-- A journey built from an empty list of legs. -/
  | noLegs
  | durationOutOfBounds
  deriving DecidableEq, Repr

def Fault.message : Fault → String
  | .addOverflow => "attempt to add with overflow"
  | .subOverflow => "attempt to subtract with overflow"
  | .mulOverflow => "attempt to multiply with overflow"
  | .negOverflow => "attempt to negate with overflow"
  | .outOfBounds length index => s!"index out of bounds: the len is {length} but the index is {index}"
  | .noPrevious stop => s!"access arrival at stop {stop} has no previous arrival"
  | .noLegs => "a path needs at least one leg"
  | .durationOutOfBounds => "TimeDelta::seconds out of bounds"

namespace Checked

def Fits (n : Int) : Prop := -2147483648 ≤ n ∧ n ≤ 2147483647

instance (n : Int) : Decidable (Fits n) := inferInstanceAs (Decidable (_ ∧ _))

def FitsCount (n : Nat) : Prop := n < 4294967296

instance (n : Nat) : Decidable (FitsCount n) := inferInstanceAs (Decidable (_ < _))

/-! ## Times, durations and costs -/

def fit (fault : Fault) (n : Int) : Except Fault Int := if Fits n then .ok n else .error fault

def add (a b : Int) : Except Fault Int := fit .addOverflow (a + b)

def sub (a b : Int) : Except Fault Int := fit .subOverflow (a - b)

/-- The magnitude. Only the least integer has none in range. -/
def abs (a : Int) : Except Fault Int := fit .negOverflow a.natAbs

/-! ## Counters -/

def fitCount (fault : Fault) (n : Nat) : Except Fault Nat := if FitsCount n then .ok n else .error fault

def addCount (a b : Nat) : Except Fault Nat := fitCount .addOverflow (a + b)

def mulCount (a b : Nat) : Except Fault Nat := fitCount .mulOverflow (a * b)

/-! ## Results -/

theorem fit_ok_iff {fault : Fault} {n r : Int} : fit fault n = .ok r ↔ Fits n ∧ r = n := by
  unfold fit; split <;> simp_all [eq_comm]

theorem add_ok_iff {a b r : Int} : add a b = .ok r ↔ Fits (a + b) ∧ r = a + b := fit_ok_iff

theorem sub_ok_iff {a b r : Int} : sub a b = .ok r ↔ Fits (a - b) ∧ r = a - b := fit_ok_iff

theorem abs_ok_iff {a r : Int} : abs a = .ok r ↔ Fits a.natAbs ∧ r = a.natAbs := fit_ok_iff

theorem fitCount_ok_iff {fault : Fault} {n r : Nat} : fitCount fault n = .ok r ↔ FitsCount n ∧ r = n := by
  unfold fitCount; split <;> simp_all [eq_comm]

theorem addCount_ok_iff {a b r : Nat} : addCount a b = .ok r ↔ FitsCount (a + b) ∧ r = a + b := fitCount_ok_iff

theorem mulCount_ok_iff {a b r : Nat} : mulCount a b = .ok r ↔ FitsCount (a * b) ∧ r = a * b := fitCount_ok_iff

end Checked

end TransitSearch
