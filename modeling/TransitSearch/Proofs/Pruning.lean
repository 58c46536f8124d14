/-
  TransitSearch.Proofs.Pruning — what is kept of the arrivals at one stop.

  Of the arrivals at a stop a search needs those that no other one beats. In search order
  the arrival reached first is the better one, so a search one way and a search the other
  way should keep different ones (`AsGood`, `Prunes`).

  The comparison of arrivals knows no direction. It goes by the clock:
  - `pruning_goes_by_clock`: whatever arrivals are offered to an empty set, from an arena
    of either direction and in any order, the set keeps what a forward search needs.
  - In a reverse search that is the arrival reached last; the one reached before it is
    dropped (`reverse_pruning_drops_the_first_reached`).
-/

import TransitSearch.Proofs.Arena.Built
import TransitSearch.Proofs.Comparators

namespace TransitSearch

open Pareto

namespace ArrivalRule

/-- In search order `a` is reached no later than `b`, and it is no worse in anything else that counts. -/
structure AsGood (rule : ArrivalRule) (dir : Direction) (a b : Snapshot) : Prop where
  time : dir.isAfter b.time a.time = false
  paretoRound : a.paretoRound ≤ b.paretoRound
  cost : a.cost ≤ b.cost
  onBoard : rule = .timeRoundCostAndOnBoard → b.onBoard = true → a.onBoard = true

/-- What a search in this direction needs of the arrivals offered. -/
structure Prunes (rule : ArrivalRule) (dir : Direction) (offered kept : List Snapshot) : Prop where
  subset : ∀ b ∈ kept, b ∈ offered
  /-- Nothing is kept against an arrival as good that was reached strictly before it. -/
  first : ∀ b ∈ kept, ∀ a ∈ offered, dir.isAfter a.time b.time = true → ¬ rule.AsGood dir a b
  /-- For everything offered, something as good is kept. -/
  covered : ∀ a ∈ offered, ∃ b ∈ kept, rule.AsGood dir b a

variable {rule : ArrivalRule}

theorem covers_iff_asGood {a b : Snapshot} : Covers rule.better a b ↔ rule.AsGood .forward a b := by
  have htime : Direction.forward.isAfter b.time a.time = false ↔ a.time ≤ b.time := by
    simp [Direction.isAfter]
  rw [covers_iff]
  constructor
  · rintro ⟨ht, hp, hc, ho⟩
    exact ⟨htime.mpr ht, hp, hc, ho⟩
  · intro h
    exact ⟨htime.mp h.time, h.paretoRound, h.cost, h.onBoard⟩

theorem better_of_isAfter {a b : Snapshot} (h : Direction.forward.isAfter a.time b.time = true) :
    rule.better a b = true := by
  have ht : a.time < b.time := by simpa [Direction.isAfter] using h
  cases rule <;> simp [better, Snapshot.betterSomewhere, ht]

theorem prunes_of_isFront {offered kept : List Snapshot} (h : IsFront rule.better offered kept) :
    rule.Prunes .forward offered kept := by
  refine ⟨?_, ?_, ?_⟩
  · intro b hb
    rw [h.eq_front] at hb
    exact front_subset hb
  · intro b hb a ha hafter hgood
    have hdom : dominates rule.better a b = true :=
      dominates_iff.mpr ⟨better_of_isAfter hafter, covers_iff_asGood.mpr hgood⟩
    rw [h.eq_front] at hb
    rw [front_undominated hb ha] at hdom
    cases hdom
  · intro a ha
    obtain ⟨b, hb, hba⟩ := h.covered a ha
    exact ⟨b, hb, covers_iff_asGood.mp hba⟩

/-- Which way a search goes plays no part: of any arrivals a set keeps what a forward search needs. -/
theorem pruning_goes_by_clock {ω : Type} (rule : ArrivalRule) (listener : Listener Snapshot ω)
    (hl : ∀ e, (listener e).result = .ok ()) (offered : List Snapshot) :
    ∃ s, ((ParetoSet.empty rule.advantage listener).addAll offered).result = .ok s ∧
      rule.Prunes .forward offered s.members := by
  have hkeeps : KeepsFront rule.advantage rule.better offered :=
    keepsFront_of_lawful rule.advantage_computes rule.lawful fun _ _ _ _ => ⟨_, rfl⟩
  obtain ⟨s, hs, hfront, -⟩ := hkeeps (.empty rule.advantage listener) rfl rfl hl
  exact ⟨s, hs, prunes_of_isFront hfront⟩

/-- In an arrive-by search with two walks to one stop, the longer walk is kept, and the shorter one dropped. -/
theorem pruning_goes_by_clock_two_walks :
    let arena : Arena := ⟨.reverse, #[⟨none, 0, 1, 900, 100, 0, .access (.walk 1 100 0)⟩,
      ⟨none, 0, 1, 800, 200, 0, .access (.walk 1 200 0)⟩]⟩
    let short : Snapshot := ⟨0, 1, 900, 0, 0, 100, false⟩
    let long : Snapshot := ⟨1, 1, 800, 0, 0, 200, false⟩
    let tell : Listener Snapshot Unit := ParetoSet.silent
    [0, 1].mapM arena.snapshot = .ok [short, long] ∧
      ∃ s, ((ParetoSet.empty ArrivalRule.timeRoundAndCost.advantage tell).addAll [short, long]).result = .ok s ∧
        long ∈ s.members ∧ short ∉ s.members := by
  intro arena short long tell
  obtain ⟨s, hs, hprunes⟩ := pruning_goes_by_clock .timeRoundAndCost tell (fun _ => rfl) [short, long]
  have hdropped : short ∉ s.members := by
    intro hshort
    exact hprunes.first short hshort long (by simp) rfl ⟨rfl, by decide, by decide, nofun⟩
  refine ⟨rfl, s, hs, ?_, hdropped⟩
  obtain ⟨b, hb, -⟩ := hprunes.covered long (by simp)
  have hoffered : b = short ∨ b = long := by simpa using hprunes.subset b hb
  rcases hoffered with rfl | rfl
  · exact absurd hb hdropped
  · exact hb

/-- A set does not prune the arrivals at a stop in search order: with an arrive-by search and the two walks above,
the arrival reached first is dropped for the one reached after it. -/
theorem reverse_pruning_drops_the_first_reached : ¬ ∀ (arena : Arena), arena.Built →
    ∀ (rule : ArrivalRule) (ids : List Nat) (stop : Nat) (offered : List Snapshot),
      ids.mapM arena.snapshot = .ok offered → (∀ a ∈ offered, a.stop = stop) →
        ∃ s, ((ParetoSet.empty rule.advantage (ParetoSet.silent : Listener Snapshot Unit)).addAll offered).result =
          .ok s ∧ rule.Prunes arena.direction offered s.members := by
  intro h
  let short : Snapshot := ⟨0, 1, 900, 0, 0, 100, false⟩
  let long : Snapshot := ⟨1, 1, 800, 0, 0, 200, false⟩
  have built : Arena.Built ⟨.reverse, #[⟨none, 0, 1, 900, 100, 0, .access (.walk 1 100 0)⟩,
      ⟨none, 0, 1, 800, 200, 0, .access (.walk 1 200 0)⟩]⟩ :=
    .step (.access 1000 (.walk 1 200 0)) (.step (.access 1000 (.walk 1 100 0)) (.empty .reverse) rfl rfl) rfl rfl
  obtain ⟨s, hs, hprunes⟩ := h _ built .timeRoundAndCost [0, 1] 1 [short, long] rfl (by decide)
  have hkept : s.members = [long] := by
    cases hs
    rfl
  have hlong : long ∈ s.members := by simp [hkept]
  exact hprunes.first long hlong short (by simp) rfl ⟨rfl, by decide, by decide, nofun⟩

end ArrivalRule

end TransitSearch
