/-
  TransitSearch.Decimal — the shortest decimal that reads back as a double.

  The reals nearest to a double form an interval around it, whose ends belong to it when m
  is even. `shortest` takes the first number of digits, from one up to seventeen, for which
  a decimal of that many digits lies in the interval; of two it takes the nearer. All
  comparisons are between naturals, in the unit of the double's own exact decimal form.
-/

import TransitSearch.Binary64

namespace TransitSearch

structure Decimal where
  digits : Nat
  exponent : Int
  deriving DecidableEq, Repr

inductive Tie where
  | toEven
  | up
  deriving DecidableEq, Repr

namespace Decimal

def chars (d : Decimal) : List Char := Nat.toDigits 10 d.digits

/-- Moves trailing zeros into the exponent. -/
def strip (d : Decimal) : Decimal :=
  if h : 0 < d.digits ∧ d.digits % 10 = 0 then strip ⟨d.digits / 10, d.exponent + 1⟩ else d
termination_by d.digits
decreasing_by omega

/-- One unit of m in the exact decimal form, and the exponent of that form. -/
def unitOf (q : Int) : Nat × Int :=
  match q with
  | .ofNat k => (Nat.pow 2 k, 0)
  | .negSucc k => (Nat.pow 5 (k + 1), .negSucc k)

/-- Whether the point `c` reads back as m, where one unit of m is `u`. -/
def readsBack (x : Magnitude) (u c : Nat) : Bool :=
  let low := 4 * (x.m * u) - (if x.narrowBelow then u else 2 * u)
  let high := 4 * (x.m * u) + 2 * u
  if x.m % 2 = 0 then low ≤ 4 * c && 4 * c ≤ high else low < 4 * c && 4 * c < high

/-- The multiple of `grid` next to `exact` that reads back, if there is one, divided by it. -/
def onGrid (tie : Tie) (x : Magnitude) (u grid : Nat) : Option Nat :=
  let exact := x.m * u
  let below := exact / grid
  match readsBack x u (below * grid), readsBack x u ((below + 1) * grid) with
  | false, false => none
  | true, false => some below
  | false, true => some (below + 1)
  | true, true =>
    match compare (2 * exact) ((2 * below + 1) * grid) with
    | .lt => some below
    | .gt => some (below + 1)
    | .eq => if tie = .toEven ∧ below % 2 = 0 then some below else some (below + 1)

/-- Zero is written as it is. The exact form stands in if no number of digits will do. -/
def shortest (tie : Tie) (x : Magnitude) : Decimal :=
  if x.m = 0 then ⟨0, 0⟩
  else
    let (u, exponent) := unitOf x.q
    let exact := x.m * u
    let length := (Nat.toDigits 10 exact).length
    let found := (List.range' 1 17).findSome? fun count =>
      (onGrid tie x u (Nat.pow 10 (length - count))).map fun n => (⟨n, exponent + (length - count : Nat)⟩ : Decimal)
    (found.getD ⟨exact, exponent⟩).strip

def leadingExponent (d : Decimal) : Int := d.exponent + d.chars.length - 1

/-- The digits before the point, at least one, and those behind it. -/
def positional (d : Decimal) : List Char × List Char :=
  match d.exponent with
  | .ofNat k => (d.chars ++ List.replicate k '0', [])
  | .negSucc k =>
    let behind := k + 1
    let padded := List.replicate (behind + 1 - d.chars.length) '0' ++ d.chars
    (padded.take (padded.length - behind), padded.drop (padded.length - behind))

end Decimal

end TransitSearch
