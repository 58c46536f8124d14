/-
  TransitSearch.Json.Number — the numbers that JSON numbers stand for.

  An integer is written without fraction and exponent; minus zero is none, and neither is
  what does not fit in 32 bits.

  How doubles are written and read is not fixed (`Doubles`). `Doubles.shortest` reads one
  from the digits that fit in 64 bits, as an integer, and one multiplication or division by
  a power of ten: digits beyond those only move the power. A number too large for a double
  is none, one too small is zero. It writes the shortest digits, positionally when the
  leading digit has an exponent from -5 to 15.
-/

import TransitSearch.Checked
import TransitSearch.Decimal
import TransitSearch.Json.Value

namespace TransitSearch.Json

namespace Number

def digitValue (c : Char) : Nat := c.toNat - '0'.toNat

def natOf (digits : List Char) : Nat := digits.foldl (fun n c => n * 10 + digitValue c) 0

def int? (n : Number) : Option Int :=
  match n.fraction, n.exponent with
  | none, none =>
    let value := natOf n.whole
    if n.negative then if value = 0 then none else some (-value) else some value
  | _, _ => none

def ofInt (n : Int) : Number := ⟨n < 0, Nat.toDigits 10 n.natAbs, none, none⟩

/-! ## Doubles -/

/-- The naturals of 64 bits are those below. -/
def limit64 : Nat := 18446744073709551616

/-- Appends digits to `n` as long as the result fits in 64 bits. Also how many are left over. -/
def append64 (n : Nat) : List Char → Nat × Nat
  | [] => (n, 0)
  | c :: rest => if n * 10 + digitValue c < limit64 then append64 (n * 10 + digitValue c) rest else (n, rest.length + 1)

/-- The powers of ten that are doubles reach up to this one. -/
def maxPower : Nat := 308

def power (k : Nat) : Float := Float.ofScientific 1 false k

/-- `f` · 10^`exponent`, or none when it is too large. -/
def scale? (f : Float) (exponent : Int) : Option Float :=
  if exponent.natAbs ≤ maxPower then
    if 0 ≤ exponent then
      let scaled := f * power exponent.natAbs
      if (Binary64.ofFloat scaled).isInfinite then none else some scaled
    else some (f / power exponent.natAbs)
  else if f == 0.0 then some f
  else if 0 ≤ exponent then none
  else scale? (f / power maxPower) (exponent + maxPower)
termination_by exponent.natAbs
decreasing_by simp only [maxPower] at *; omega

/-- The largest exponent that is taken at its value. -/
def maxExponent : Nat := 2147483647

def unsignedFloat? (n : Number) : Option Float :=
  let (whole, dropped) := append64 0 n.whole
  let fraction := n.fraction.getD []
  let (significand, unused) := append64 whole fraction
  let shift : Int := dropped - (fraction.length - unused : Nat)
  let f := Float.ofNat significand
  match n.exponent with
  | none => scale? f shift
  | some (negative, digits) =>
    let exponent := natOf digits
    if exponent ≤ maxExponent then scale? f (if negative then shift - exponent else shift + exponent)
    else if significand = 0 ∨ negative then some 0.0
    else none

def float? (n : Number) : Option Float := (fun f => if n.negative then -f else f) <$> n.unsignedFloat?

/-- Whether a number with this leading exponent is written without one. -/
def isPlain (leading : Int) : Bool := -5 ≤ leading && leading ≤ 15

def ofDecimal (negative : Bool) (d : Decimal) : Number :=
  let leading := d.leadingExponent
  if isPlain leading then
    let (whole, fraction) := d.positional
    ⟨negative, whole, some (if fraction.isEmpty then ['0'] else fraction), none⟩
  else
    let fraction := d.chars.tail
    ⟨negative, d.chars.take 1, if fraction.isEmpty then none else some fraction,
      some (leading < 0, Nat.toDigits 10 leading.natAbs)⟩

/-- The number that stands for a double, which infinities and NaN have none of. -/
def ofFloat? (x : Float) : Option Number :=
  match Binary64.ofFloat x with
  | .finite negative magnitude => some (ofDecimal negative (Decimal.shortest .toEven magnitude))
  | .infinite _ | .nan => none

end Number

structure Doubles where
  /-- The number that stands for a double, if one does. -/
  write? (x : Float) : Option Number
  /-- The double that a number is read as, if it is. -/
  read? (n : Number) : Option Float

def Doubles.shortest : Doubles := ⟨Number.ofFloat?, Number.float?⟩

/-! ## Values -/

def int? : Json → Option Int
  | .number n => n.int?.filter fun i => decide (Checked.Fits i)
  | _ => none

def ofInt (n : Int) : Json := .number (.ofInt n)

def float? (doubles : Doubles) : Json → Option Float
  | .number n => doubles.read? n
  | _ => none

/-- Null for what is no number. -/
def ofFloat (doubles : Doubles) (x : Float) : Json := ((doubles.write? x).map .number).getD .null

end TransitSearch.Json
