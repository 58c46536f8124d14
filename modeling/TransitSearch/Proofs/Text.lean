/-
  TransitSearch.Proofs.Text — written times, durations and costs can be read back.

  A reader takes a text apart from the left: a numeral ends where its digits do, and what
  follows a numeral here, a letter, a point or a colon, is no digit. The readers refuse a
  clock beyond 23:59:59, and minutes or seconds of a duration from 60 on.
  - `readTime_time`: the clock and the day say which second it is, before the service day
    as well as after it.
  - `readDuration_duration`: parts that are left out are zero.
  - `readCost_cost`: units and hundredths. A cost without its hundredths is read as well.

  What a calendar has to keep to for the first two is `Calendar.Lawful`.

  `without` takes every occurrence of a text out of another. Of a cost it takes nothing but
  the hundredths that are none (`shortCost_eq_without`).
-/

import Mathlib.Logic.Function.Basic
import TransitSearch.Text

namespace TransitSearch

/-- What is relied on of a calendar. -/
structure Calendar.Lawful (calendar : Calendar) : Prop where
  /-- Hour, minute and second stand in a pattern each by its letter, and are written in two digits. -/
  clock : ∀ {hour minute second : Nat}, hour < 24 → minute < 60 → second < 60 →
    calendar.clock? (3600 * hour + 60 * minute + second) "%H:%M:%S" =
      some (String.ofList (Text.twoDigits hour ++ ':' :: Text.twoDigits minute ++ ':' :: Text.twoDigits second))
  /-- Hours and minutes that have only begun do not count. -/
  units : ∀ {n : Int}, n.natAbs ≤ Calendar.maxSeconds → calendar.units? n = some (n.tdiv 3600, n.tdiv 60, n)

theorem Calendar.system_lawful : Calendar.system.Lawful where
  clock := by
    intro hour minute second hhour hminute hsecond
    have hday : 3600 * hour + 60 * minute + second < 86400 := by omega
    have hhours : (3600 * hour + 60 * minute + second) / 3600 = hour := by omega
    have hminutes : (3600 * hour + 60 * minute + second) / 60 % 60 = minute := by omega
    have hseconds : (3600 * hour + 60 * minute + second) % 60 = second := by omega
    have hfill : ∀ n, fill n "%H:%M:%S".toList = Text.twoDigits (n / 3600) ++
        ':' :: (Text.twoDigits (n / 60 % 60) ++ ':' :: Text.twoDigits (n % 60)) := fun _ => rfl
    simp only [system, hday, if_true, hfill, hhours, hminutes, hseconds, List.append_assoc, List.cons_append]
  units h := if_pos h

namespace Text

/-! ## Numerals -/

/-- The numeral that a text begins with, and what follows it. -/
def readNat (s : List Char) : Option (Nat × List Char) :=
  if (s.takeWhile Char.isDigit).isEmpty then none
  else some (Nat.ofDigitChars 10 (s.takeWhile Char.isDigit) 0, s.dropWhile Char.isDigit)

def readTwo : List Char → Option (Nat × List Char)
  | a :: b :: rest => if a.isDigit && b.isDigit then some (Nat.ofDigitChars 10 [a, b] 0, rest) else none
  | _ => none

def after? (c : Char) : List Char → Option (List Char)
  | [] => none
  | d :: rest => if d = c then some rest else none

/-- Whether a text begins with a minus sign, and what follows the sign. -/
def readSign : List Char → Bool × List Char
  | '-' :: rest => (true, rest)
  | s => (false, s)

def signed (negative : Bool) (n : Nat) : Int := if negative then -n else n

/-- What is left of `s` when every `taken`, from left to right, is taken out of it. -/
def without (taken : List Char) : List Char → List Char
  | [] => []
  | c :: rest =>
    if taken.isPrefixOf (c :: rest) then without taken (rest.drop (taken.length - 1)) else c :: without taken rest
termination_by s => s.length
decreasing_by all_goals simp; try omega

/-- No numeral goes on into `s`. -/
def EndsNumeral (s : List Char) : Prop := ∀ c ∈ s.head?, c.isDigit = false

theorem digits_isDigit (n : Nat) : ∀ c ∈ digits n, c.isDigit = true :=
  fun _ hc => Nat.isDigit_of_mem_toDigits (by decide) (by decide) hc

theorem takeWhile_digits {d s : List Char} (hd : ∀ c ∈ d, c.isDigit = true) (hs : EndsNumeral s) :
    (d ++ s).takeWhile Char.isDigit = d := by
  rw [List.takeWhile_append_of_pos hd]
  cases s with
  | nil => simp
  | cons c rest => simp [hs c rfl]

theorem dropWhile_digits {d s : List Char} (hd : ∀ c ∈ d, c.isDigit = true) (hs : EndsNumeral s) :
    (d ++ s).dropWhile Char.isDigit = s := by
  rw [List.dropWhile_append_of_pos hd]
  cases s with
  | nil => rfl
  | cons c rest => simp [hs c rfl]

theorem readNat_digits (n : Nat) {s : List Char} (hs : EndsNumeral s) : readNat (digits n ++ s) = some (n, s) := by
  have htake := takeWhile_digits (digits_isDigit n) hs
  have hdrop := dropWhile_digits (digits_isDigit n) hs
  have hsome : (digits n).isEmpty = false := by simp [digits]
  rw [readNat, htake, hdrop, hsome]
  simp [digits]

theorem digitChar_isDigit {n : Nat} (h : n < 10) : n.digitChar.isDigit = true := by
  refine Nat.isDigit_of_mem_toDigits (b := 10) (n := n) (by decide) (by decide) ?_
  rw [Nat.toDigits_of_lt_base h]
  exact List.mem_singleton_self _

theorem readTwo_twoDigits {n : Nat} (hn : n < 100) (s : List Char) : readTwo (twoDigits n ++ s) = some (n, s) := by
  have hten : n / 10 % 10 < 10 := by omega
  have hone : n % 10 < 10 := by omega
  have hvalue : Nat.ofDigitChars 10 [(n / 10 % 10).digitChar, (n % 10).digitChar] 0 = n := by
    rw [Nat.ofDigitChars_cons_digitChar_of_lt_ten hten, Nat.ofDigitChars_cons_digitChar_of_lt_ten hone,
      Nat.ofDigitChars_nil]
    omega
  simp [readTwo, twoDigits, digitChar_isDigit hten, digitChar_isDigit hone, hvalue]

@[simp] theorem after?_cons (c : Char) (s : List Char) : after? c (c :: s) = some s := by simp [after?]

theorem readSign_sign (n : Int) {s : List Char} (hs : s.head? ≠ some '-') :
    readSign (sign n ++ s) = (decide (n < 0), s) := by
  by_cases h : n < 0
  · simp [sign, h, readSign]
  · cases s with
    | nil => simp [sign, h, readSign]
    | cons c rest =>
      have hc : c ≠ '-' := by simpa using hs
      simp [sign, h, readSign, hc]

theorem signed_natAbs (n : Int) : signed (decide (n < 0)) n.natAbs = n := by
  by_cases h : n < 0
  · have hback : -(n.natAbs : Int) = n := by omega
    simpa only [signed, h, decide_true, if_true] using hback
  · have hsame : (n.natAbs : Int) = n := by omega
    simpa only [signed, h, decide_false, Bool.false_eq_true, if_false] using hsame

/-! ## Times -/

/-- The second of the day that a clock shows. -/
def readClock (s : List Char) : Option (Nat × List Char) := do
  let (hours, s) ← readTwo s
  let (minutes, s) ← readTwo (← after? ':' s)
  let (seconds, s) ← readTwo (← after? ':' s)
  if hours < 24 ∧ minutes < 60 ∧ seconds < 60 then some (3600 * hours + 60 * minutes + seconds, s) else none

/-- The day that a whole suffix names. -/
def readDay : List Char → Option Int
  | [] => some 0
  | '+' :: s => do
    let (n, rest) ← readNat s
    if rest = ['d'] then some n else none
  | '-' :: s => do
    let (n, rest) ← readNat s
    if rest = ['d'] then some (-n) else none
  | _ => none

def readTime (text : String) : Option Int := do
  let (second, s) ← readClock text.toList
  let day ← readDay s
  pure (secondsPerDay * day + second)

theorem readClock_clock {hour minute second : Nat} (hhour : hour < 24) (hminute : minute < 60) (hsecond : second < 60)
    (s : List Char) : readClock (twoDigits hour ++ ':' :: twoDigits minute ++ ':' :: twoDigits second ++ s) =
      some (3600 * hour + 60 * minute + second, s) := by
  simp only [readClock, List.append_assoc, List.cons_append, readTwo_twoDigits (show hour < 100 by omega),
    readTwo_twoDigits (show minute < 100 by omega), readTwo_twoDigits (show second < 100 by omega), after?_cons,
    Option.bind_eq_bind, Option.bind_some]
  simp [hhour, hminute, hsecond]

theorem endsNumeral_letter {c : Char} (h : c.isDigit = false) (s : List Char) : EndsNumeral (c :: s) := by
  intro d hd
  cases hd
  exact h

theorem readDay_dayOffset (day : Int) : readDay (dayOffset day) = some day := by
  have hletter : EndsNumeral ['d'] := endsNumeral_letter rfl []
  by_cases hzero : day = 0
  · simp [dayOffset, readDay, hzero]
  · by_cases hpos : 0 < day
    · simp only [dayOffset, hzero, hpos, if_true, if_false, readDay, List.cons_append, readNat_digits _ hletter]
      simp; omega
    · have hneg : day < 0 := by omega
      have hback : -(day.natAbs : Int) = day := by omega
      simp only [dayOffset, hzero, hpos, if_false, integer, sign, hneg, if_true, readDay, List.cons_append,
        List.nil_append, readNat_digits _ hletter]
      show some (-(day.natAbs : Int)) = some day
      rw [hback]

theorem time_of_lawful {calendar : Calendar} (lawful : calendar.Lawful) (t : Int) :
    ∃ hour minute second : Nat, hour < 24 ∧ minute < 60 ∧ second < 60 ∧
      (3600 * hour + 60 * minute + second : Int) = t % 86400 ∧ time calendar t = String.ofList
        (twoDigits hour ++ ':' :: twoDigits minute ++ ':' :: twoDigits second ++ dayOffset (t / 86400)) := by
  have hday : (t % 86400).toNat < 86400 := by omega
  have hhour : (t % 86400).toNat / 3600 < 24 := by omega
  have hminute : (t % 86400).toNat / 60 % 60 < 60 := by omega
  have hsecond : (t % 86400).toNat % 60 < 60 := by omega
  have hsum : 3600 * ((t % 86400).toNat / 3600) + 60 * ((t % 86400).toNat / 60 % 60) + (t % 86400).toNat % 60 =
      (t % 86400).toNat := by omega
  have hclock := lawful.clock hhour hminute hsecond
  rw [hsum] at hclock
  refine ⟨_, _, _, hhour, hminute, hsecond, by omega, ?_⟩
  rw [time, secondsPerDay, hclock, Option.getD_some, String.toList_ofList]

theorem readTime_time {calendar : Calendar} (lawful : calendar.Lawful) (t : Int) :
    readTime (time calendar t) = some t := by
  obtain ⟨hour, minute, second, hhour, hminute, hsecond, hclock, htime⟩ := time_of_lawful lawful t
  have hsum : 86400 * (t / 86400) + ↑(3600 * hour + 60 * minute + second) = t := by omega
  simp only [readTime, htime, String.toList_ofList, readClock_clock hhour hminute hsecond, Option.bind_eq_bind,
    Option.bind_some, readDay_dayOffset, secondsPerDay, hsum]
  rfl

/-! ## Durations -/

/-- The count before `letter`, zero where a text begins with no such part, and what follows it. -/
def readPart (letter : Char) (s : List Char) : Nat × List Char :=
  match readNat s with
  | some (n, c :: rest) => if c = letter then (n, rest) else (0, s)
  | _ => (0, s)

def readDuration (text : String) : Option Int :=
  let (negative, s) := readSign text.toList
  let (hours, s) := readPart 'h' s
  let (minutes, s) := readPart 'm' s
  let (seconds, s) := readPart 's' s
  if s = [] ∧ minutes < 60 ∧ seconds < 60 then some (signed negative (3600 * hours + 60 * minutes + seconds)) else none

theorem readPart_digits {letter : Char} (h : letter.isDigit = false) (n : Nat) (s : List Char) :
    readPart letter (digits n ++ letter :: s) = (n, s) := by
  simp [readPart, readNat_digits n (endsNumeral_letter h s)]

theorem readPart_other {letter other : Char} (h : other.isDigit = false) (hne : other ≠ letter) (n : Nat)
    (s : List Char) : readPart letter (digits n ++ other :: s) = (0, digits n ++ other :: s) := by
  simp [readPart, readNat_digits n (endsNumeral_letter h s), hne]

theorem part_zero (letter : Char) : part 0 letter = [] := rfl

theorem part_pos {n : Nat} (h : 0 < n) (letter : Char) : part n letter = digits n ++ [letter] := by
  have hpos : (0 : Int) < n := by omega
  have hsign : ¬ (n : Int) < 0 := by omega
  rw [part, if_pos hpos, integer, sign, if_neg hsign]
  rfl

theorem readPart_part {letter : Char} (h : letter.isDigit = false) (n : Nat) {s : List Char}
    (hs : readPart letter s = (0, s)) : readPart letter (part n letter ++ s) = (n, s) := by
  rcases Nat.eq_zero_or_pos n with rfl | hn
  · simpa [part_zero] using hs
  · simp [part_pos hn, readPart_digits h]

/-- The last part of a duration: the seconds, which stand for all of it when it is zero. -/
def lastPart (seconds : Nat) : List Char := if seconds = 0 then ['0', 's'] else part (seconds % 60 : Nat) 's'

theorem lastPart_cases (seconds : Nat) : (lastPart seconds = [] ∧ seconds % 60 = 0) ∨
    lastPart seconds = digits (seconds % 60) ++ ['s'] := by
  by_cases h : seconds = 0
  · subst h
    exact Or.inr rfl
  · rcases Nat.eq_zero_or_pos (seconds % 60) with hleft | hleft
    · exact Or.inl ⟨by rw [lastPart, if_neg h, hleft]; rfl, hleft⟩
    · exact Or.inr (by rw [lastPart, if_neg h, part_pos hleft])

theorem readPart_lastPart {letter : Char} (hne : 's' ≠ letter) (seconds : Nat) :
    readPart letter (lastPart seconds) = (0, lastPart seconds) := by
  rcases lastPart_cases seconds with ⟨h, -⟩ | h
  · rw [h]; rfl
  · rw [h]
    exact readPart_other rfl hne _ []

theorem readPart_seconds (seconds : Nat) : readPart 's' (lastPart seconds) = (seconds % 60, []) := by
  rcases lastPart_cases seconds with ⟨h, hzero⟩ | h
  · rw [h, hzero]; rfl
  · rw [h]
    exact readPart_digits rfl _ []

theorem readPart_hours (n : Nat) (seconds : Nat) :
    readPart 'h' (part n 'm' ++ lastPart seconds) = (0, part n 'm' ++ lastPart seconds) := by
  rcases Nat.eq_zero_or_pos n with rfl | hn
  · exact readPart_lastPart (by decide) seconds
  · have hminutes : readPart 'h' (digits n ++ 'm' :: lastPart seconds) = (0, digits n ++ 'm' :: lastPart seconds) :=
      readPart_other rfl (by decide) n _
    simpa [part_pos hn] using hminutes

theorem head_part (n : Nat) (letter : Char) {s : List Char} (hs : s.head? ≠ some '-') :
    (part n letter ++ s).head? ≠ some '-' := by
  rcases Nat.eq_zero_or_pos n with rfl | hn
  · simpa [part_zero] using hs
  · intro h
    have hmem : '-' ∈ digits n := by
      cases hd : digits n with
      | nil => exact absurd hd Nat.toDigits_ne_nil
      | cons c rest =>
        have hc : c = '-' := by simpa [part_pos hn, hd] using h
        simp [hc]
    exact absurd (digits_isDigit n _ hmem) (by decide)

theorem head_lastPart (seconds : Nat) : (lastPart seconds).head? ≠ some '-' := by
  rcases lastPart_cases seconds with ⟨h, -⟩ | h
  · rw [h]; nofun
  · have hhead := head_part (seconds % 60) 's' (s := []) (by simp)
    intro hminus
    rw [h] at hminus
    rcases Nat.eq_zero_or_pos (seconds % 60) with hleft | hleft
    · rw [hleft] at hminus
      cases hminus
    · exact hhead (by rw [part_pos hleft, List.append_nil]; exact hminus)

theorem secondsPart_eq_lastPart (n : Nat) : (if (0 : Int) < (n % 60 : Nat) ∨ ((n / 3600 : Nat) : Int) = 0 ∧
    ((n / 60 % 60 : Nat) : Int) = 0 then integer (n % 60 : Nat) ++ ['s'] else []) = lastPart n := by
  rcases Nat.eq_zero_or_pos n with rfl | hn
  · rfl
  · have hzero : n ≠ 0 := by omega
    rw [show lastPart n = part (n % 60 : Nat) 's' from if_neg hzero, part]
    by_cases hleft : (0 : Int) < (n % 60 : Nat)
    · rw [if_pos (Or.inl hleft), if_pos hleft]
    · have hunits : ¬ ((0 : Int) < (n % 60 : Nat) ∨ ((n / 3600 : Nat) : Int) = 0 ∧ ((n / 60 % 60 : Nat) : Int) = 0) := by
        omega
      rw [if_neg hunits, if_neg hleft]

theorem duration_of_lawful {calendar : Calendar} (lawful : calendar.Lawful) {d : Int}
    (h : d.natAbs ≤ Calendar.maxSeconds) : duration calendar d = .ok (String.ofList (sign d ++
      (part (d.natAbs / 3600 : Nat) 'h' ++ (part (d.natAbs / 60 % 60 : Nat) 'm' ++ lastPart d.natAbs)))) := by
  have hunits := lawful.units (n := d.natAbs) (by rwa [Int.natAbs_natCast])
  have hhours : (d.natAbs : Int).tdiv 3600 = (d.natAbs / 3600 : Nat) := rfl
  have hminutes : ((d.natAbs : Int).tdiv 60).tmod 60 = (d.natAbs / 60 % 60 : Nat) := rfl
  have hseconds : (d.natAbs : Int).tmod 60 = (d.natAbs % 60 : Nat) := rfl
  simp only [duration, hunits, durationChars, hhours, hminutes, hseconds, secondsPart_eq_lastPart, List.append_assoc]
  rfl

theorem readDuration_duration {calendar : Calendar} (lawful : calendar.Lawful) {d : Int}
    (h : d.natAbs ≤ Calendar.maxSeconds) :
    ∃ text, duration calendar d = .ok text ∧ readDuration text = some d := by
  have hminutes : d.natAbs / 60 % 60 < 60 := by omega
  have hseconds : d.natAbs % 60 < 60 := by omega
  have hsum : 3600 * (d.natAbs / 3600) + 60 * (d.natAbs / 60 % 60) + d.natAbs % 60 = d.natAbs := by omega
  refine ⟨_, duration_of_lawful lawful h, ?_⟩
  simp only [readDuration, String.toList_ofList,
    readSign_sign d (head_part _ 'h' (head_part _ 'm' (head_lastPart _))),
    readPart_part (show 'h'.isDigit = false from rfl) _ (readPart_hours _ _),
    readPart_part (show 'm'.isDigit = false from rfl) _ (readPart_lastPart (by decide) _), readPart_seconds, hsum]
  simp [hminutes, hseconds, signed_natAbs]

/-! ## Costs -/

/-- A cost with its hundredths or without them. -/
def readCostChars (s : List Char) : Option Int := do
  let (negative, s) := readSign s
  let (units, s) ← readNat (← after? '$' s)
  if s = [] then some (signed negative (100 * units))
  else
    let (hundredths, s) ← readTwo (← after? '.' s)
    if s = [] then some (signed negative (100 * units + hundredths)) else none

def readCost (text : String) : Option Int := readCostChars text.toList

theorem readCostChars_costChars (c : Int) : readCostChars (costChars c) = some c := by
  have hunits : EndsNumeral ('.' :: twoDigits (c.natAbs % 100)) := endsNumeral_letter rfl _
  have htwo := readTwo_twoDigits (show c.natAbs % 100 < 100 by omega) []
  have hsum : 100 * (c.natAbs / 100) + c.natAbs % 100 = c.natAbs := by omega
  rw [List.append_nil] at htwo
  simp only [readCostChars, costChars, List.append_assoc, List.cons_append, readSign_sign c (s := '$' :: _) (by simp),
    after?_cons, Option.bind_eq_bind, Option.bind_some, readNat_digits _ hunits, reduceCtorEq, if_false, htwo,
    hsum, if_true, signed_natAbs]

theorem readCostChars_shortCostChars (c : Int) : readCostChars (shortCostChars c) = some c := by
  by_cases h : c.natAbs % 100 = 0
  · have hend : EndsNumeral [] := by simp [EndsNumeral]
    have hunits := readNat_digits (c.natAbs / 100) hend
    have hsum : 100 * (c.natAbs / 100) = c.natAbs := by omega
    rw [List.append_nil] at hunits
    simp only [readCostChars, shortCostChars, h, if_true, readSign_sign c (s := '$' :: _) (by simp), after?_cons,
      Option.bind_eq_bind, Option.bind_some, hunits, hsum, signed_natAbs]
  · rw [shortCostChars, if_neg h, readCostChars_costChars]

theorem readCost_cost (c : Int) : readCost (cost c) = some c := by
  rw [readCost, cost, String.toList_ofList, readCostChars_costChars]

/-! ## Hundredths taken out -/

theorem without_append {c : Char} {taken : List Char} : ∀ {s t : List Char}, c ∉ s →
    without (c :: taken) (s ++ t) = s ++ without (c :: taken) t
  | [], t, _ => rfl
  | d :: s, t, h => by
    have hd : c ≠ d := by simp_all
    have hs : c ∉ s := by simp_all
    rw [List.cons_append, without, if_neg (by simp [hd]), without_append hs, List.cons_append]

theorem without_of_not_mem {c : Char} {taken s : List Char} (h : c ∉ s) : without (c :: taken) s = s := by
  have hall : without (c :: taken) (s ++ []) = s ++ without (c :: taken) [] := without_append h
  simpa [without] using hall

theorem point_not_mem_digits (n : Nat) : '.' ∉ digits n := fun h => absurd (digits_isDigit n _ h) (by decide)

theorem point_not_mem_twoDigits (n : Nat) : '.' ∉ twoDigits n := by
  have hten := digitChar_isDigit (show n / 10 % 10 < 10 by omega)
  have hone := digitChar_isDigit (show n % 10 < 10 by omega)
  intro h
  simp only [twoDigits, List.mem_cons, List.not_mem_nil, or_false] at h
  rcases h with h | h
  · rw [← h] at hten
    cases hten
  · rw [← h] at hone
    cases hone

theorem point_not_mem_front (c : Int) : '.' ∉ sign c ++ '$' :: digits (c.natAbs / 100) := by
  by_cases h : c < 0
  · simp [sign, h, point_not_mem_digits]
  · simp [sign, h, point_not_mem_digits]

theorem twoDigits_eq_zeros {n : Nat} (hn : n < 100) : twoDigits n = ['0', '0'] ↔ n = 0 := by
  constructor
  · intro h
    have hread := readTwo_twoDigits hn []
    rw [h] at hread
    have hvalue : some (0, ([] : List Char)) = some (n, []) := hread
    simp_all
  · rintro rfl
    rfl

/-- A cost without its hundredths is the cost with `.00` taken out of it. -/
theorem shortCost_eq_without (c : Int) : shortCost c = String.ofList (without ['.', '0', '0'] (cost c).toList) := by
  have hcents : c.natAbs % 100 < 100 := by omega
  have hchars : costChars c = (sign c ++ '$' :: digits (c.natAbs / 100)) ++ '.' :: twoDigits (c.natAbs % 100) := by
    simp [costChars]
  rw [cost, String.toList_ofList, shortCost, hchars, without_append (point_not_mem_front c), without]
  by_cases h : c.natAbs % 100 = 0
  · simp [shortCostChars, h, twoDigits, without]
  · have hkeep : ¬ List.isPrefixOf ['.', '0', '0'] ('.' :: twoDigits (c.natAbs % 100)) = true := by
      intro hprefix
      obtain ⟨rest, hrest⟩ := List.isPrefixOf_iff_prefix.mp hprefix
      have hzeros : twoDigits (c.natAbs % 100) = ['0', '0'] := by
        have hlength := congrArg List.length hrest
        simp_all [twoDigits]
      exact h ((twoDigits_eq_zeros hcents).mp hzeros)
    rw [if_neg hkeep, without_of_not_mem (point_not_mem_twoDigits _)]
    simp [shortCostChars, h, hchars]

end Text

end TransitSearch
