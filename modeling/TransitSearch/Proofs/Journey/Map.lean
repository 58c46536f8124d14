/-
  TransitSearch.Proofs.Journey.Map — what a journey mapped from a chain is made of.

  A hop costs what its arrival has cost less what had been paid before it
  (`Hop.ofArrival_eq`); `ofArrival_of_result`, `ofDestination_of_result` and
  `all_of_result` say what hops are made of. A journey has one leg for each hop, in order
  of travel, and takes its transfers and its cost from the destination
  (`ofChain_of_result`). The leg that joins the destination is its last in a forward search
  and its first in a reverse one (`ofChain_forward_ends`, `ofChain_reverse_starts`).
-/

import TransitSearch.Journey.Map
import TransitSearch.Proofs.Results

namespace TransitSearch

namespace Hop

/-- What had been paid before the hop. -/
def paid (arena : Arena) (node : Arrival) : Except Fault Int :=
  match node.previous with
  | none => pure 0
  | some p => (·.cost) <$> arena.get p

theorem ofArrival_eq (dir : Direction) (arena : Arena) (node : Arrival) :
    ofArrival dir arena node = (do
      let paid ← paid arena node
      let (kind, start) ← origin dir node
      let cost ← Checked.sub node.cost paid
      pure { kind, start, finish := ⟨node.stop, node.time⟩, cost }) := by
  unfold ofArrival paid
  cases node.previous <;> rfl

variable {dir : Direction} {arena : Arena} {node : Arrival} {d : Destination}

theorem paid_of_previous {prev : Arrival} {p : Nat} (hp : node.previous = some p) (hprev : arena.get p = .ok prev) :
    paid arena node = .ok prev.cost := by
  simp only [paid, hp, hprev]
  rfl

theorem paid_of_root (hp : node.previous = none) : paid arena node = .ok 0 := by
  unfold paid
  rw [hp]
  rfl

theorem ofArrival_of_result {hop : Hop} (h : ofArrival dir arena node = .ok hop) :
    ∃ before, paid arena node = .ok before ∧ origin dir node = .ok (hop.kind, hop.start) ∧
      hop.finish = ⟨node.stop, node.time⟩ ∧ Checked.Fits (node.cost - before) ∧ hop.cost = node.cost - before := by
  simp only [ofArrival_eq, bind_eq_ok, Checked.sub_ok_iff, pure_eq_ok] at h
  obtain ⟨before, hbefore, ⟨kind, start⟩, horigin, _, ⟨hfits, rfl⟩, rfl⟩ := h
  exact ⟨before, hbefore, horigin, rfl, hfits, rfl⟩

theorem ofDestination_of_result {hop : Hop} (h : ofDestination arena d = .ok hop) :
    ∃ last, arena.get d.previous = .ok last ∧ hop = ⟨.searchEgress, ⟨last.stop, d.departure⟩,
      ⟨last.stop, d.arrival⟩, d.cost - last.cost⟩ := by
  simp only [ofDestination, bind_eq_ok, Checked.sub_ok_iff, pure_eq_ok] at h
  obtain ⟨last, hlast, _, ⟨-, rfl⟩, rfl⟩ := h
  exact ⟨last, hlast, rfl⟩

theorem all_of_result {hops : List Hop} (h : all dir arena d = .ok hops) :
    ∃ egress steps rest, ofDestination arena d = .ok egress ∧ arena.chain d.previous = .ok steps ∧
      (steps.mapM fun (_, node) => ofArrival dir arena node) = .ok rest ∧ hops = egress :: rest := by
  simp only [all, bind_eq_ok, pure_eq_ok] at h
  obtain ⟨egress, hegress, steps, hsteps, rest, hrest, rfl⟩ := h
  exact ⟨egress, steps, rest, hegress, hsteps, hrest, rfl⟩

theorem all_answers_iff {egress : Hop} {steps : List (Nat × Arrival)} (hegress : ofDestination arena d = .ok egress)
    (hsteps : arena.chain d.previous = .ok steps) :
    (∃ hops, all dir arena d = .ok hops) ↔
      ∃ hops, (steps.mapM fun (_, node) => ofArrival dir arena node) = .ok hops := by
  constructor
  · rintro ⟨hops, h⟩
    obtain ⟨_, steps', rest, -, hsteps', hrest, -⟩ := all_of_result h
    cases hsteps.symm.trans hsteps'
    exact ⟨rest, hrest⟩
  · rintro ⟨hops, h⟩
    simp only [all, bind_eq_ok, pure_eq_ok]
    exact ⟨_, egress, hegress, steps, hsteps, hops, h, rfl⟩

end Hop

namespace Journey

theorem ofLegs_of_result {iteration : Int} {legs : List JourneyLeg} {transfers : Nat} {cost : Int} {j : Journey}
    (h : ofLegs iteration legs transfers cost = .ok j) :
    ∃ first last, legs.head? = some first ∧ legs.getLast? = some last ∧
      j = { iteration, startTime := first.fromTime, endTime := last.toTime, transfers, cost, legs } := by
  unfold ofLegs at h
  split at h
  · rename_i first last hfirst hlast
    exact ⟨first, last, hfirst, hlast, (pure_eq_ok.mp h).symm⟩
  · cases throw_ne_ok h

theorem legs_length (dir : Direction) (hops : List Hop) : (Map.legs dir hops).length = hops.length := by
  unfold Map.legs
  cases dir <;> simp

theorem ofLegs_answers {legs : List JourneyLeg} (h : legs ≠ []) (iteration : Int) (transfers : Nat) (cost : Int) :
    ∃ j, ofLegs iteration legs transfers cost = .ok j := by
  unfold ofLegs
  rw [List.head?_eq_some_head h, List.getLast?_eq_some_getLast h]
  exact ⟨_, rfl⟩

theorem ofChain_answers {dir : Direction} {arena : Arena} {d : Destination} {hops : List Hop}
    (h : Hop.all dir arena d = .ok hops) (iteration : Option Int) :
    ∃ j, Map.ofChain dir arena d iteration = .ok j := by
  obtain ⟨egress, _, rest, -, -, -, rfl⟩ := Hop.all_of_result h
  have hlegs : Map.legs dir (egress :: rest) ≠ [] := by
    apply List.ne_nil_of_length_pos
    rw [legs_length]
    exact Nat.zero_lt_succ _
  obtain ⟨j, hj⟩ := ofLegs_answers hlegs
    (iteration.getD (((Map.legs dir (egress :: rest)).head?.map (·.fromTime)).getD d.arrival)) d.transfers d.cost
  exact ⟨j, bind_eq_ok.mpr ⟨_, h, hj⟩⟩

theorem ofChain_answers_iff {dir : Direction} {arena : Arena} {d : Destination} {iteration : Option Int} :
    (∃ j, Map.ofChain dir arena d iteration = .ok j) ↔ ∃ hops, Hop.all dir arena d = .ok hops := by
  constructor
  · rintro ⟨j, hj⟩
    obtain ⟨hops, hhops, -⟩ := bind_eq_ok.mp hj
    exact ⟨hops, hhops⟩
  · rintro ⟨hops, hhops⟩
    exact ofChain_answers hhops iteration

theorem ofChain_of_result {dir : Direction} {arena : Arena} {d : Destination} {iteration : Option Int} {j : Journey}
    (h : Map.ofChain dir arena d iteration = .ok j) :
    ∃ hops first last, Hop.all dir arena d = .ok hops ∧ (Map.legs dir hops).head? = some first ∧
      (Map.legs dir hops).getLast? = some last ∧
      j = { iteration := iteration.getD first.fromTime, startTime := first.fromTime, endTime := last.toTime,
            transfers := d.transfers, cost := d.cost, legs := Map.legs dir hops } := by
  obtain ⟨hops, hhops, h⟩ := bind_eq_ok.mp h
  obtain ⟨first, last, hfirst, hlast, rfl⟩ := ofLegs_of_result h
  refine ⟨hops, first, last, hhops, hfirst, hlast, ?_⟩
  simp [hfirst]

variable {arena : Arena} {d : Destination} {iteration : Option Int} {j : Journey} {last : Arrival}

theorem cost_of_ofChain {dir : Direction} (h : Map.ofChain dir arena d iteration = .ok j) : j.cost = d.cost := by
  obtain ⟨_, _, _, -, -, -, rfl⟩ := ofChain_of_result h
  rfl

theorem ofChain_forward_ends (h : Map.ofChain .forward arena d iteration = .ok j)
    (hlast : arena.get d.previous = .ok last) :
    j.legs.getLast? = some ⟨.egress last.stop, d.departure, d.arrival, d.cost - last.cost⟩ ∧ j.endTime = d.arrival := by
  obtain ⟨hops, first, final, hhops, -, hfinal, rfl⟩ := ofChain_of_result h
  obtain ⟨egress, _, rest, hegress, -, -, rfl⟩ := Hop.all_of_result hhops
  obtain ⟨last', hlast', rfl⟩ := Hop.ofDestination_of_result hegress
  cases hlast.symm.trans hlast'
  have hleg : final = ⟨.egress last.stop, d.departure, d.arrival, d.cost - last.cost⟩ := by
    simp only [Map.legs, List.reverse_cons, List.map_append, List.map_cons, List.map_nil, List.getLast?_append,
      List.getLast?_singleton, Option.some_or, Option.some.injEq] at hfinal
    exact hfinal.symm
  exact ⟨by rw [← hleg]; exact hfinal, by rw [hleg]⟩

/-- A reverse search began where the journey ends: the leg that joins its destination is the first of the journey. -/
theorem ofChain_reverse_starts (h : Map.ofChain .reverse arena d iteration = .ok j)
    (hlast : arena.get d.previous = .ok last) :
    j.legs.head? = some ⟨.access last.stop, d.arrival, d.departure, d.cost - last.cost⟩ ∧ j.startTime = d.arrival := by
  obtain ⟨hops, first, final, hhops, hfirst, -, rfl⟩ := ofChain_of_result h
  obtain ⟨egress, _, rest, hegress, -, -, rfl⟩ := Hop.all_of_result hhops
  obtain ⟨last', hlast', rfl⟩ := Hop.ofDestination_of_result hegress
  cases hlast.symm.trans hlast'
  cases hfirst
  exact ⟨rfl, rfl⟩

end Journey

end TransitSearch
