/-
  TransitSearch.Proofs.Collector.Trail — the costs of a chain in one line.

  A warning about costs lists them from the destination back to the access arrival, each
  without its hundredths where there are none, with a space between two of them. No cost
  has a space in it, so the line comes apart again where it was put together
  (`readTrail_trailText`), and each part is a cost that can be read.
-/

import TransitSearch.Proofs.Arena.Stable
import TransitSearch.Proofs.Text
import TransitSearch.Collector

namespace TransitSearch

open Arena Checked Text

namespace Collector

/-- The costs on a line. -/
def readTrail (text : String) : Option (List Int) := (text.toList.splitOn ' ').mapM readCostChars

theorem space_not_mem_digits (n : Nat) : ' ' ∉ digits n := fun h => absurd (digits_isDigit n _ h) (by decide)

theorem space_not_mem_shortCostChars (c : Int) : ' ' ∉ shortCostChars c := by
  have hten := digitChar_isDigit (show c.natAbs % 100 / 10 % 10 < 10 by omega)
  have hone := digitChar_isDigit (show c.natAbs % 100 % 10 < 10 by omega)
  have hfront : ' ' ∉ sign c ++ '$' :: digits (c.natAbs / 100) := by
    by_cases h : c < 0
    · simp [sign, h, space_not_mem_digits]
    · simp [sign, h, space_not_mem_digits]
  by_cases h : c.natAbs % 100 = 0
  · rwa [shortCostChars, if_pos h]
  · intro hmem
    have hback : ' ' ∈ twoDigits (c.natAbs % 100) := by simp_all [shortCostChars, costChars]
    simp only [twoDigits, List.mem_cons, List.not_mem_nil, or_false] at hback
    rcases hback with hback | hback
    · rw [← hback] at hten
      cases hten
    · rw [← hback] at hone
      cases hone

theorem mapM_readCostChars (trail : List Int) : (trail.map shortCostChars).mapM readCostChars = some trail := by
  induction trail with
  | nil => rfl
  | cons c rest ih => simp [readCostChars_shortCostChars, ih]

theorem readTrail_trailText {trail : List Int} (h : trail ≠ []) : readTrail (trailText trail) = some trail := by
  have hchars : (trailText trail).toList = [' '].intercalate (trail.map shortCostChars) := by
    simp [trailText, Function.comp_def, shortCost]
  have hspaces : ∀ word ∈ trail.map shortCostChars, ' ' ∉ word := by
    intro word hword
    obtain ⟨c, -, rfl⟩ := List.mem_map.mp hword
    exact space_not_mem_shortCostChars c
  rw [readTrail, hchars, List.splitOn_intercalate ' ' hspaces (by simpa using h), mapM_readCostChars]

theorem maxSeconds_of_fits {d : Int} (h : Fits d) : d.natAbs ≤ Calendar.maxSeconds := by
  have hfits : -2147483648 ≤ d ∧ d ≤ 2147483647 := h
  unfold Calendar.maxSeconds
  omega

/-- Every time, duration and cost has a text that it can be read off, so different ones have different texts. The line
of costs of a chain, in which `.00` is taken out of every cost, tells what the destination has cost and then what each
arrival had cost, back to the access arrival. -/
theorem texts_are_read_back {calendar : Calendar} (lawful : calendar.Lawful) :
    (∀ t, readTime (time calendar t) = some t) ∧
    (∀ d, Fits d → ∃ text, duration calendar d = .ok text ∧ readDuration text = some d) ∧
    (∀ c, readCost (cost c) = some c) ∧
    Function.Injective (time calendar) ∧
    (∀ d d', Fits d → Fits d' → duration calendar d = duration calendar d' → d = d') ∧
    Function.Injective cost ∧
    ∀ {allowed : Op → Bool} {arena : Arena} {d : Destination} {last : Arrival}, Reach allowed arena →
      arena.get d.previous = .ok last →
      ∃ steps root leg trail, arena.chain d.previous = .ok steps ∧ steps.getLast? = some root ∧
        root.2.kind = .access leg ∧ costTrail arena d = .ok trail ∧
        trail = d.cost :: steps.map (·.2.cost) ∧
        trailText trail =
          String.intercalate " " (trail.map fun c => String.ofList (without ['.', '0', '0'] (cost c).toList)) ∧
        readTrail (trailText trail) = some trail := by
  have readable : ∀ d, Fits d → ∃ text, duration calendar d = .ok text ∧ readDuration text = some d :=
    fun d hd => readDuration_duration lawful (maxSeconds_of_fits hd)
  refine ⟨readTime_time lawful, readable, readCost_cost, fun a b h => ?_, fun a b ha hb h => ?_, fun a b h => ?_,
    fun reach hget => ?_⟩
  · have hread := readTime_time lawful a
    rw [h, readTime_time lawful] at hread
    exact (Option.some.inj hread).symm
  · obtain ⟨text, hwritten, hread⟩ := readable a ha
    obtain ⟨text', hwritten', hread'⟩ := readable b hb
    cases (hwritten.symm.trans h).trans hwritten'
    exact Option.some.inj (hread.symm.trans hread')
  · have hread := readCost_cost a
    rw [h, readCost_cost] at hread
    exact (Option.some.inj hread).symm
  · obtain ⟨rest, hchain, walk⟩ := walk_of_ordered (reach_ordered reach) hget
    obtain ⟨root, hlast, hprevious⟩ := walk.ends
    obtain ⟨leg, hroot⟩ := root_of_reach reach (walk.get root (List.mem_of_getLast? hlast)) hprevious
    refine ⟨_, root, leg, _, hchain, hlast, hroot.kind, ?_, rfl, ?_, readTrail_trailText (by simp)⟩
    · rw [costTrail, hchain]
      rfl
    · simp only [trailText, funext shortCost_eq_without]

/-- The least time, duration and cost of 32 bits, the greatest duration, and the costs of a ride that an egress leg is
added to. -/
theorem texts_are_read_back_extremes :
    let arena : Arena := ⟨.forward, #[⟨none, 0, 1, 1060, 60, 6000, .access (.walk 1 60 6000)⟩,
      ⟨some 0, 1, 2, 2000, 1000, 100050, .transit ⟨1, 1100, 3⟩⟩]⟩
    let d : Destination := ⟨1, .walk 2 300 30000, 2000, 2300, 130050, 2, 0⟩
    time .system (-2147483648) = "20:45:52-24856d" ∧ readTime "20:45:52-24856d" = some (-2147483648) ∧
    duration .system (-2147483648) = .ok "-596523h14m8s" ∧ readDuration "-596523h14m8s" = some (-2147483648) ∧
    duration .system 2147483647 = .ok "596523h14m7s" ∧ readDuration "596523h14m7s" = some 2147483647 ∧
    cost (-2147483648) = "-$21474836.48" ∧ readCost "-$21474836.48" = some (-2147483648) ∧
    Reach Op.inRange arena ∧ costTrail arena d = .ok [130050, 100050, 6000] ∧
    trailText [130050, 100050, 6000] = "$1300.50 $1000.50 $60" ∧
    readTrail "$1300.50 $1000.50 $60" = some [130050, 100050, 6000] := by
  intro arena d
  obtain ⟨htime, hduration, hcost, -, -, -, htrail⟩ := texts_are_read_back Calendar.system_lawful
  have reach : Reach Op.inRange arena :=
    .step (.transit 0 2 2000 100050 ⟨1, 1100, 3⟩) (.step (.access 1000 (.walk 1 60 6000)) (.empty .forward) rfl rfl) rfl rfl
  have least : time .system (-2147483648) = "20:45:52-24856d" := by decide +kernel
  have shortest : duration .system (-2147483648) = .ok "-596523h14m8s" := by decide +kernel
  have longest : duration .system 2147483647 = .ok "596523h14m7s" := by decide +kernel
  have cheapest : cost (-2147483648) = "-$21474836.48" := by decide +kernel
  have line : trailText [130050, 100050, 6000] = "$1300.50 $1000.50 $60" := by decide +kernel
  obtain ⟨text, hshort, hreadShort⟩ := hduration (-2147483648) (by decide)
  cases shortest.symm.trans hshort
  obtain ⟨text, hlong, hreadLong⟩ := hduration 2147483647 (by decide)
  cases longest.symm.trans hlong
  obtain ⟨_, _, _, trail, -, -, -, hcosts, -, -, hread⟩ := htrail (d := d) reach rfl
  have hwalked : costTrail arena d = .ok [130050, 100050, 6000] := by decide +kernel
  cases hwalked.symm.trans hcosts
  exact ⟨least, least ▸ htime _, shortest, hreadShort, longest, hreadLong, cheapest, cheapest ▸ hcost _, reach, hcosts,
    line, line ▸ hread⟩

end Collector

end TransitSearch
