/-
  TransitSearch.Text — how times, durations and costs are written.

  A time is seconds from the start of the service day and reads `HH:MM:SS`, with the
  number of whole days before or after in a suffix such as `+1d`. A duration reads as its
  hours, minutes and seconds, leaving out the parts that are zero. A cost counts
  hundredths and reads `$units.hundredths`.

  The clock of a day and the units of a duration are the business of a calendar, which is
  an argument wherever a time or a duration is written. `Calendar.system` is the one that
  runs.
-/

import TransitSearch.Checked

namespace TransitSearch

structure Calendar where
  /-- The time of day at a second after midnight, written by a pattern, if the day has that second. -/
  clock? (second : Nat) (pattern : String) : Option String
  /-- The whole hours, the whole minutes and the seconds of a duration, if it can be represented. -/
  units? (seconds : Int) : Option (Int × Int × Int)

namespace Text

def digits (n : Nat) : List Char := Nat.toDigits 10 n

/-- The last two digits, with a leading zero if needed. -/
def twoDigits (n : Nat) : List Char := [Nat.digitChar (n / 10 % 10), Nat.digitChar (n % 10)]

def sign (n : Int) : List Char := if n < 0 then ['-'] else []

def integer (n : Int) : List Char := sign n ++ digits n.natAbs

/-! ## Times -/

def secondsPerDay : Int := 86400

def dayOffset (day : Int) : List Char :=
  if day = 0 then [] else if 0 < day then '+' :: digits day.toNat ++ ['d'] else integer day ++ ['d']

/-- The day is rounded down, so that the clock runs forwards before the service day too. -/
def time (calendar : Calendar) (t : Int) : String :=
  let clock := (calendar.clock? (t % secondsPerDay).toNat "%H:%M:%S").getD ""
  String.ofList (clock.toList ++ dayOffset (t / secondsPerDay))

/-! ## Durations -/

def part (n : Int) (letter : Char) : List Char := if 0 < n then integer n ++ [letter] else []

def durationChars (d hours minutes seconds : Int) : List Char :=
  sign d ++ part hours 'h' ++ part minutes 'm' ++
    if 0 < seconds ∨ hours = 0 ∧ minutes = 0 then integer seconds ++ ['s'] else []

def duration (calendar : Calendar) (d : Int) : Except Fault String :=
  match calendar.units? d.natAbs with
  | none => throw .durationOutOfBounds
  | some (hours, minutes, seconds) =>
    pure (String.ofList (durationChars d hours (minutes.tmod 60) (seconds.tmod 60)))

/-! ## Costs -/

def costChars (c : Int) : List Char :=
  sign c ++ '$' :: digits (c.natAbs / 100) ++ '.' :: twoDigits (c.natAbs % 100)

def cost (c : Int) : String := String.ofList (costChars c)

/-- A cost without its hundredths when there are none. -/
def shortCostChars (c : Int) : List Char :=
  if c.natAbs % 100 = 0 then sign c ++ '$' :: digits (c.natAbs / 100) else costChars c

def shortCost (c : Int) : String := String.ofList (shortCostChars c)

end Text

namespace Calendar

/-- A pattern with hour, minute and second filled in. -/
def fill (second : Nat) : List Char → List Char
  | '%' :: 'H' :: rest => Text.twoDigits (second / 3600) ++ fill second rest
  | '%' :: 'M' :: rest => Text.twoDigits (second / 60 % 60) ++ fill second rest
  | '%' :: 'S' :: rest => Text.twoDigits (second % 60) ++ fill second rest
  | c :: rest => c :: fill second rest
  | [] => []

/-- The most seconds, either way, that a duration can have. -/
def maxSeconds : Nat := 9223372036854775

/-- The calendar of 24 hours a day, without leap seconds. -/
def system : Calendar where
  clock? second pattern := if second < 86400 then some (String.ofList (fill second pattern.toList)) else none
  units? n := if n.natAbs ≤ maxSeconds then some (n.tdiv 3600, n.tdiv 60, n) else none

end Calendar

end TransitSearch
