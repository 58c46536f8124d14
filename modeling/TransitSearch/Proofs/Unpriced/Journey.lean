/-
  TransitSearch.Proofs.Unpriced.Journey — arenas and journeys without their prices.

  No operation of an arena looks at a cost: with the prices taken out beforehand it does
  what it does otherwise, faults included, and leaves the arena without its prices
  (`access_unpriced`, `derive_unpriced`, `shift_unpriced`, `chain_unpriced`).

  A destination and a journey have costs worked out for them, and that can overflow. Nothing
  else comes of it: where it does not overflow, the destination and the journey found without
  prices are those found with prices, less the prices (`destination_unpriced`,
  `ofChain_unpriced`).
-/

import TransitSearch.Proofs.Journey.Map
import TransitSearch.Proofs.Unpriced

namespace TransitSearch

/-! ## Arenas -/

namespace Arena

variable (arena : Arena)

theorem get_unpriced (id : Nat) : arena.unpriced.get id = Arrival.unpriced <$> arena.get id := by
  unfold get unpriced
  rw [Array.getElem?_map, Array.size_map]
  cases arena.nodes[id]? <;> rfl

theorem push_unpriced (node : Arrival) :
    arena.unpriced.push node.unpriced = Prod.map unpriced id (arena.push node) := by
  simp [push, unpriced]

theorem access_unpriced (departure : Int) (leg : Leg) :
    arena.unpriced.access departure leg.unpriced = Prod.map unpriced id <$> arena.access departure leg := by
  simp only [access, map_bind, map_pure, ← push_unpriced]
  rfl

theorem derive_unpriced (previous increment stop : Nat) (time cost : Int) (kind : ArrivalKind) :
    arena.unpriced.derive previous increment stop time 0 kind.unpriced =
      Prod.map unpriced id <$> arena.derive previous increment stop time cost kind := by
  simp only [derive, get_unpriced, bind_map_left, map_bind, map_pure, ← push_unpriced]
  rfl

theorem transit_unpriced (previous stop : Nat) (time cost : Int) (boarding : Boarding) :
    arena.unpriced.transit previous stop time 0 boarding =
      Prod.map unpriced id <$> arena.transit previous stop time cost boarding :=
  derive_unpriced arena previous transitIncrement stop time cost (.transit boarding)

theorem transfer_unpriced (previous stop : Nat) (time cost : Int) :
    arena.unpriced.transfer previous stop time 0 =
      Prod.map unpriced id <$> arena.transfer previous stop time cost := by
  simp only [transfer, get_unpriced, bind_map_left, map_bind, ← derive_unpriced]
  rfl

theorem shift_unpriced (handle : Nat) (requested : Int) :
    arena.unpriced.shift handle requested = Prod.map id unpriced <$> arena.shift handle requested := by
  unfold shift
  rw [get_unpriced, Run.lift_map_bind, map_bind]
  refine bind_congr fun node => ?_
  rw [Arrival.unpriced_kind]
  cases node.kind with
  | access leg =>
    simp only [ArrivalKind.unpriced, map_bind]
    refine bind_congr fun time? => ?_
    cases time? with
    | none => rfl
    | some time =>
      rw [Arrival.unpriced_time]
      by_cases hsame : time = node.time
      · simp only [if_pos hsame]
        rfl
      · simp only [if_neg hsame, map_bind, access_unpriced, Run.lift_map_bind]
        rfl
  | transit boarding => rfl
  | transfer fromStop duration => rfl

theorem chain_unpriced (handle : Nat) :
    arena.unpriced.chain handle = List.map (Prod.map id Arrival.unpriced) <$> arena.chain handle := by
  induction handle using Nat.strongRecOn with
  | ind handle ih =>
    rw [chain, chain, get_unpriced]
    simp only [map_bind, bind_map_left]
    refine bind_congr fun node => ?_
    rw [Arrival.unpriced_previous]
    cases node.previous with
    | none => rfl
    | some p =>
      by_cases hp : p < handle
      · simp only [if_pos hp, ih p hp, map_bind, bind_map_left]
        rfl
      · simp only [if_neg hp]
        rfl

end Arena

/-! ## Destinations -/

/-- When a leg starts is not up to its cost. -/
def TransitCalculator.IgnoresCost (c : TransitCalculator) : Prop :=
  ∀ arrival (egress : Leg) slack, c.egressDeparture arrival egress.unpriced slack = c.egressDeparture arrival egress slack

theorem Calculator.transit_ignoresCost (c : Calculator) : c.transit.IgnoresCost := fun _ _ _ => rfl

theorem Collaborators.destination_unpriced {terms : Collaborators} (hcalculator : terms.calculator.IgnoresCost)
    {arena : Arena} {id : Nat} {egress : Leg} {d? : Option Destination}
    (h : terms.destination? arena id egress = .ok d?) :
    terms.unpriced.destination? arena.unpriced id egress.unpriced = .ok (d?.map Destination.unpriced) := by
  simp only [destination?, TransitCalculator.destination?, bind_eq_ok] at h ⊢
  obtain ⟨node, hnode, departure?, hdeparture, h⟩ := h
  refine ⟨node.unpriced, by rw [Arena.get_unpriced, hnode]; rfl, departure?, (hcalculator ..).trans hdeparture, ?_⟩
  cases departure? with
  | none =>
    cases h
    rfl
  | some departure =>
    simp only [bind_eq_ok] at h ⊢
    obtain ⟨arrival, harrival, apart, hapart, wait, hwait, added, -, round, hround, rounds, hrounds, cost, -,
      paretoRound, hparetoRound, h⟩ := h
    cases h
    exact ⟨arrival, harrival, apart, hapart, wait, hwait, 0, rfl, round, hround, rounds, hrounds, 0, rfl,
      paretoRound, hparetoRound, rfl⟩

/-! ## Journeys -/

namespace Hop

variable {dir : Direction} {arena : Arena}

theorem origin_unpriced (dir : Direction) (node : Arrival) : origin dir node.unpriced = origin dir node := by
  unfold origin Arrival.unpriced
  cases node.kind <;> rfl

theorem paid_unpriced (arena : Arena) (node : Arrival) :
    paid arena.unpriced node.unpriced = (fun _ => 0) <$> paid arena node := by
  unfold paid Arrival.unpriced
  cases node.previous with
  | none => rfl
  | some p =>
    simp only [Arena.get_unpriced]
    cases arena.get p <;> rfl

theorem ofArrival_unpriced {node : Arrival} {hop : Hop} (h : ofArrival dir arena node = .ok hop) :
    ofArrival dir arena.unpriced node.unpriced = .ok hop.unpriced := by
  simp only [ofArrival_eq, bind_eq_ok, paid_unpriced, origin_unpriced] at h ⊢
  obtain ⟨before, hbefore, ⟨kind, start⟩, horigin, cost, -, h⟩ := h
  cases h
  exact ⟨0, map_eq_ok.mpr ⟨before, hbefore, rfl⟩, (kind, start), horigin, 0, rfl, rfl⟩

theorem ofDestination_unpriced {d : Destination} {hop : Hop} (h : ofDestination arena d = .ok hop) :
    ofDestination arena.unpriced d.unpriced = .ok hop.unpriced := by
  obtain ⟨last, hlast, rfl⟩ := ofDestination_of_result h
  have hlast' : arena.unpriced.get d.previous = .ok last.unpriced := by
    rw [Arena.get_unpriced, hlast]
    rfl
  exact bind_eq_ok.mpr ⟨last.unpriced, hlast', rfl⟩

theorem all_unpriced {d : Destination} {hops : List Hop} (h : all dir arena d = .ok hops) :
    all dir arena.unpriced d.unpriced = .ok (hops.map unpriced) := by
  obtain ⟨egress, steps, rest, hegress, hsteps, hrest, rfl⟩ := all_of_result h
  have hsteps' : arena.unpriced.chain d.previous = .ok (steps.map (Prod.map id Arrival.unpriced)) := by
    rw [Arena.chain_unpriced, hsteps]
    rfl
  simp only [all, bind_eq_ok]
  refine ⟨egress.unpriced, ofDestination_unpriced hegress, _, hsteps', rest.map unpriced, ?_, rfl⟩
  exact mapM_image (m := Prod.map id Arrival.unpriced) (fun h => ofArrival_unpriced h) hrest

theorem leg_unpriced (dir : Direction) (hop : Hop) : hop.unpriced.leg dir = (hop.leg dir).unpriced := by
  obtain ⟨kind, start, finish, cost⟩ := hop
  cases dir <;> cases kind <;> rfl

end Hop

namespace Journey

theorem legs_unpriced (dir : Direction) (hops : List Hop) :
    Map.legs dir (hops.map Hop.unpriced) = (Map.legs dir hops).map JourneyLeg.unpriced := by
  cases dir with
  | forward => simp [Map.legs, Hop.leg_unpriced]
  | reverse => simp [Map.legs, Hop.leg_unpriced]

theorem ofChain_unpriced {dir : Direction} {arena : Arena} {d : Destination} {iteration : Option Int} {j : Journey}
    (h : Map.ofChain dir arena d iteration = .ok j) :
    Map.ofChain dir arena.unpriced d.unpriced iteration = .ok j.unpriced := by
  obtain ⟨hops, first, last, hhops, hfirst, hlast, rfl⟩ := ofChain_of_result h
  refine bind_eq_ok.mpr ⟨_, Hop.all_unpriced hhops, ?_⟩
  simp only [legs_unpriced, ofLegs, List.head?_map, List.getLast?_map, hfirst, hlast]
  rfl

end Journey

end TransitSearch
