/-
  TransitSearch.Binary64 — what the bits of a double say.

  A finite double is m · 2^q with a sign. Below a power of two the next smaller double is
  only half as far away as the next larger one (`narrowBelow`). Rounding to an integer and
  tests of sign and size are done here on the naturals m and 2^|q|, so they are exact.
-/

namespace TransitSearch

/-- The number m · 2^q. -/
structure Magnitude where
  m : Nat
  q : Int
  narrowBelow : Bool
  deriving DecidableEq, Repr

inductive Binary64 where
  | finite (negative : Bool) (magnitude : Magnitude)
  | infinite (negative : Bool)
  | nan
  deriving DecidableEq, Repr

/-- The nearest natural, the larger of two equally near. -/
def Magnitude.round (x : Magnitude) : Nat :=
  match x.q with
  | .ofNat k => x.m * Nat.pow 2 k
  | .negSucc k => (x.m + Nat.pow 2 k) / Nat.pow 2 (k + 1)

namespace Binary64

def fractions : Nat := 4503599627370496

/-- How many values the 11 bits of the exponent take. -/
def exponents : Nat := 2048

/-- From the lowest bit up: the fraction, the exponent, the sign. -/
def ofBits (bits : Nat) : Binary64 :=
  let fraction := bits % fractions
  let exponent : Nat := bits / fractions % exponents
  let negative := bits / (fractions * exponents) % 2 = 1
  if exponent = 2047 then if fraction = 0 then .infinite negative else .nan
  else if exponent = 0 then .finite negative ⟨fraction, -1074, false⟩
  else .finite negative ⟨fractions + fraction, (exponent : Int) - 1075, fraction = 0 && exponent > 1⟩

def ofFloat (x : Float) : Binary64 := ofBits x.toBits.toNat

/-- A number, neither infinite nor below zero. Minus zero is not below zero. -/
def isNonNegative : Binary64 → Bool
  | .finite negative x => !negative || x.m = 0
  | .infinite _ | .nan => false

def isInfinite : Binary64 → Bool
  | .infinite _ => true
  | _ => false

/-- The nearest integer of 32 bits, a half rounded away from zero, and zero for no number. -/
def toInt32 : Binary64 → Int
  | .nan => 0
  | .infinite negative => if negative then -2147483648 else 2147483647
  | .finite negative x =>
    if negative then max (-x.round) (-2147483648) else min x.round 2147483647

end Binary64

end TransitSearch
