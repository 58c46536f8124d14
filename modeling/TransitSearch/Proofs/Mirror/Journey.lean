/-
  TransitSearch.Proofs.Mirror.Journey — destinations and journeys of a search turned round.

  From the mirrored arrival the mirrored egress leg reaches the mirrored destination
  (`destination_mirror`), which lies beyond the mirrored limit exactly when the other lies
  beyond its own. A hop of the one search is the same hop of the other walked the other
  way, so the journeys mapped from the two are each other's mirror (`ofChain_mirror`),
  given an iteration: without one the start of the journey stands in for it, which is not
  mirrored by the start of the mirror.

  Comparing mirrored journeys in the mirrored order is comparing the journeys
  (`better_mirror`).
-/

import TransitSearch.Proofs.Comparators
import TransitSearch.Proofs.Journey.Map
import TransitSearch.Proofs.Mirror.Arena

namespace TransitSearch

/-! ## Destinations -/

namespace Calculator

variable (c : Calculator)

theorem exceedsLimit_mirror (time : Int) : c.mirror.exceedsLimit (-time) = c.exceedsLimit time := by
  obtain ⟨dir, limit⟩ := c
  cases limit with
  | none => rfl
  | some limit => exact dir.isAfter_mirror limit time

theorem egressDeparture_eq (arrival : Int) (egress : Leg) (slack : Int) :
    c.egressDeparture arrival egress slack =
      (if egress.hasRides then c.direction.plus arrival slack else pure arrival) >>=
        Arena.shiftedTime c.direction.mirror egress := by
  unfold egressDeparture
  cases c.direction <;> cases egress.hasRides <;> rfl

theorem egressDeparture_mirror (arrival : Int) (egress : Leg) (slack : Int) :
    Matches (fun a b => b = a.map (-·)) (c.egressDeparture arrival egress slack)
      (c.mirror.egressDeparture (-arrival) egress.mirror slack) := by
  rw [egressDeparture_eq, egressDeparture_eq, Leg.mirror_hasRides]
  refine .bind (r := fun a b => b = -a) ?_ fun ready _ h => ?_
  · split
    · exact c.direction.plus_mirror arrival slack
    · exact .pure rfl
  · rw [h]
    exact Arena.shiftedTime_mirror c.direction.mirror egress ready

end Calculator

/-- A leg costs what its mirror costs: the hours do not count. -/
theorem Terms.addedCost_mirror (terms : Terms) (wait : Int) (egress : Leg) :
    terms.mirror.addedCost wait egress.mirror = terms.addedCost wait egress := by
  obtain ⟨calculator, costs, slack⟩ := terms
  cases costs <;> rfl

theorem Terms.destination_mirror (terms : Terms) (arena : Arena) (id : Nat) (egress : Leg) :
    Matches (fun a b => b = a.map Destination.mirror) (terms.destination? arena id egress)
      (terms.mirror.destination? arena.mirror id egress.mirror) := by
  refine .bind (arena.get_mirror id) fun node _ h => ?_
  subst h
  refine .bind (terms.calculator.egressDeparture_mirror node.time egress terms.slack) fun departure? _ h => ?_
  subst h
  cases departure? with
  | none => exact .pure rfl
  | some departure =>
    refine .bind (terms.calculator.direction.plus_mirror departure egress.duration) fun arrival _ h => ?_
    subst h
    refine .bind (r := fun a b => b = -a) ?_ fun apart _ h => ?_
    · intro a b ha hb
      have ha := (Checked.sub_ok_iff.mp ha).2
      have hb := (Checked.sub_ok_iff.mp hb).2
      simp only [Arrival.mirror_time] at hb
      omega
    subst h
    refine .bind (r := Eq) ?_ fun wait _ h => ?_
    · intro a b ha hb
      rw [(Checked.abs_ok_iff.mp ha).2, (Checked.abs_ok_iff.mp hb).2, Int.natAbs_neg]
    subst h
    have price : Matches Eq (terms.addedCost wait egress) (terms.mirror.addedCost wait egress.mirror) := by
      rw [terms.addedCost_mirror]
      exact .refl _
    refine .bind price fun added _ h => ?_
    subst h
    refine .bind (.refl _) fun round _ h => ?_
    subst h
    refine .bind (.refl _) fun rounds _ h => ?_
    subst h
    refine .bind (.refl _) fun cost _ h => ?_
    subst h
    refine .bind (.refl _) fun paretoRound _ h => ?_
    subst h
    exact .pure rfl

/-! ## Hops and legs -/

namespace Hop

theorem origin_mirror (dir : Direction) (node : Arrival) :
    Matches (fun a b => b = (a.1, a.2.mirror)) (origin dir node) (origin dir.mirror node.mirror) := by
  unfold origin
  cases hkind : node.kind with
  | access leg =>
    simp only [Arrival.mirror_kind, hkind, ArrivalKind.mirror]
    refine .bind (dir.minus_mirror node.time leg.duration) fun time _ h => .pure ?_
    rw [h]
    rfl
  | transit boarding =>
    simp only [Arrival.mirror_kind, hkind, ArrivalKind.mirror]
    exact .pure rfl
  | transfer fromStop duration =>
    simp only [Arrival.mirror_kind, hkind, ArrivalKind.mirror]
    refine .bind (dir.minus_mirror node.time duration) fun time _ h => .pure ?_
    rw [h]
    rfl

theorem paid_mirror (arena : Arena) (node : Arrival) :
    Matches Eq (paid arena node) (paid arena.mirror node.mirror) := by
  unfold paid
  rw [Arrival.mirror_previous]
  cases node.previous with
  | none => exact .pure rfl
  | some p =>
    refine .map (arena.get_mirror p) fun before _ h => ?_
    rw [h, Arrival.mirror_cost]

theorem ofArrival_mirror (dir : Direction) (arena : Arena) (node : Arrival) :
    Matches (fun a b => b = a.mirror) (ofArrival dir arena node) (ofArrival dir.mirror arena.mirror node.mirror) := by
  rw [ofArrival_eq, ofArrival_eq]
  refine .bind (paid_mirror arena node) fun paid _ h => ?_
  subst h
  refine .bind (origin_mirror dir node) fun ⟨kind, start⟩ _ h => ?_
  subst h
  refine .bind (.refl _) fun cost _ h => .pure ?_
  rw [h]
  rfl

theorem ofDestination_mirror (arena : Arena) (d : Destination) :
    Matches (fun a b => b = a.mirror) (ofDestination arena d) (ofDestination arena.mirror d.mirror) := by
  refine .bind (arena.get_mirror d.previous) fun last _ h => ?_
  subst h
  refine .bind (.refl _) fun cost _ h => .pure ?_
  rw [h]
  rfl

theorem all_mirror (dir : Direction) (arena : Arena) (d : Destination) :
    Matches (fun a b => b = a.map mirror) (all dir arena d) (all dir.mirror arena.mirror d.mirror) := by
  refine .bind (ofDestination_mirror arena d) fun egress _ h => ?_
  subst h
  refine .bind (arena.chain_mirror d.previous) fun chain _ h => ?_
  subst h
  have each (step : Nat × Arrival) : Matches (fun a b => b = a.mirror)
      (ofArrival dir arena step.2) (ofArrival dir.mirror arena.mirror step.2.mirror) :=
    ofArrival_mirror dir arena step.2
  refine .bind (.mapM (m := fun step => (step.1, step.2.mirror)) each chain) fun hops _ h => .pure ?_
  rw [h, List.map_cons]

theorem leg_mirror (dir : Direction) (hop : Hop) : hop.mirror.leg dir.mirror = (hop.leg dir).mirror := by
  obtain ⟨kind, start, finish, cost⟩ := hop
  cases dir <;> cases kind <;> rfl

end Hop

namespace Journey

theorem legs_mirror (dir : Direction) (hops : List Hop) :
    Map.legs dir.mirror (hops.map Hop.mirror) = ((Map.legs dir hops).map JourneyLeg.mirror).reverse := by
  cases dir with
  | forward => simp [Map.legs, Direction.mirror, ← Hop.leg_mirror]
  | reverse => simp [Map.legs, Direction.mirror, ← Hop.leg_mirror]

theorem ofLegs_mirror (iteration : Int) (legs : List JourneyLeg) (transfers : Nat) (cost : Int) :
    Matches (fun a b => b = a.mirror) (ofLegs iteration legs transfers cost)
      (ofLegs (-iteration) (legs.map JourneyLeg.mirror).reverse transfers cost) := by
  unfold ofLegs
  simp only [List.head?_reverse, List.getLast?_reverse, List.head?_map, List.getLast?_map]
  cases legs.head? <;> cases legs.getLast? <;> try exact fun _ _ ha => (throw_ne_ok ha).elim
  exact .pure rfl

theorem ofChain_mirror (dir : Direction) (arena : Arena) (d : Destination) (iteration : Int) :
    Matches (fun a b => b = a.mirror) (Map.ofChain dir arena d (some iteration))
      (Map.ofChain dir.mirror arena.mirror d.mirror (some (-iteration))) := by
  refine .bind (Hop.all_mirror dir arena d) fun hops _ h => ?_
  rw [h, legs_mirror]
  exact ofLegs_mirror iteration (Map.legs dir hops) d.transfers d.cost

/-! ## Comparisons -/

theorem summary_mirror (iteration startTime endTime : Int) (transfers : Nat) (cost : Int) :
    (summary iteration startTime endTime transfers cost).mirror =
      summary (-iteration) (-endTime) (-startTime) transfers cost := rfl

theorem span_mirror (j : Journey) : j.mirror.span = j.span := by
  simp only [span, mirror]
  omega

theorem Order.better_mirror (order : Journey.Order) (l r : Journey) :
    order.mirror.better l.mirror r.mirror = order.better l r := by
  have ht : order.mirror.betterTime l.mirror r.mirror = order.betterTime l r := by
    obtain ⟨criteria, dir⟩ := order
    cases dir <;> simp [betterTime, Order.mirror, Direction.mirror, Journey.mirror]
  have hi : order.mirror.betterIteration l.mirror r.mirror = order.betterIteration l r := by
    obtain ⟨criteria, dir⟩ := order
    cases dir <;> simp [betterIteration, Order.mirror, Direction.mirror, Journey.mirror]
  simp only [better, ht, hi, span_mirror]
  rfl

end Journey

end TransitSearch
