/-
  TransitSearch.Proofs.Journey.Travel — mapped journeys can be travelled.

  Hops that join up in search order are legs that join up in order of travel: a forward
  search reads them from the other end, and a reverse search turns each of them round
  (`isChain_legs`). A journey from an access leg to an egress leg, each leg going on from
  where and when the one before it ended, is `Travelable`.

  So is every journey that is mapped from a chain in which no step goes back in time, with
  an egress leg and a slack that take no negative time, in both directions
  (`ofChain_is_travelable`). Such a chain is mapped to a journey unless the difference
  between two of its costs is out of range.
-/

import TransitSearch.Proofs.Journey.Hops

namespace TransitSearch

open Arena

/-! ## Legs -/

namespace Route

def isAccess : Route → Bool
  | .access _ => true
  | _ => false

def isTransfer : Route → Bool
  | .transfer .. => true
  | _ => false

def isEgress : Route → Bool
  | .egress _ => true
  | _ => false

end Route

namespace JourneyLeg

/-- `b` starts at the stop where `a` ends, and not before. -/
structure Meets (a b : JourneyLeg) : Prop where
  stop : ∃ stop, a.route.toStop? = some stop ∧ b.route.fromStop? = some stop
  time : a.toTime ≤ b.fromTime

/-- A walk takes up all the time between it and the leg from which the search came to it: of two legs in order of
travel that is the first in a forward search, and the second in a reverse one. -/
def Touches (dir : Direction) (a b : JourneyLeg) : Prop :=
  match dir with
  | .forward => b.route.isTransfer = true → a.toTime = b.fromTime
  | .reverse => a.route.isTransfer = true → a.toTime = b.fromTime

theorem head_le_last {legs : List JourneyLeg} (onward : ∀ leg ∈ legs, leg.fromTime ≤ leg.toTime)
    (meets : legs.IsChain Meets) :
    ∀ first ∈ legs.head?, ∀ last ∈ legs.getLast?, first.fromTime ≤ last.toTime := by
  induction legs with
  | nil => exact nofun
  | cons leg rest ih =>
    intro first hfirst last hlast
    cases hfirst
    cases rest with
    | nil =>
      cases hlast
      exact onward leg List.mem_cons_self
    | cons next rest =>
      obtain ⟨hmeets, meets⟩ := List.isChain_cons_cons.mp meets
      rw [List.getLast?_cons_cons] at hlast
      have hrest : next.fromTime ≤ last.toTime :=
        ih (fun leg hleg => onward leg (List.mem_cons_of_mem _ hleg)) meets next rfl last hlast
      have hleg : leg.fromTime ≤ leg.toTime := onward leg List.mem_cons_self
      have := hmeets.time
      omega

end JourneyLeg

/-- A journey from the origin to the destination, found by a search in direction `dir`. -/
structure Journey.Travelable (dir : Direction) (j : Journey) : Prop where
  ends : ∃ first between last, j.legs = first :: (between ++ [last]) ∧ first.route.isAccess = true ∧
    last.route.isEgress = true ∧ ∀ leg ∈ between, leg.route.isTransit = true ∨ leg.route.isTransfer = true
  onward : ∀ leg ∈ j.legs, leg.fromTime ≤ leg.toTime
  meets : j.legs.IsChain JourneyLeg.Meets
  touches : j.legs.IsChain (JourneyLeg.Touches dir)
  span : j.startTime ≤ j.endTime

/-! ## From hops to legs -/

namespace Hop

variable {dir : Direction} {hop before : Hop}

/-- `r` holds of the legs of two hops, the earlier in travel first. -/
def InTravel (dir : Direction) (r : JourneyLeg → JourneyLeg → Prop) (hop before : Hop) : Prop :=
  match dir with
  | .forward => r (before.leg .forward) (hop.leg .forward)
  | .reverse => r (hop.leg .reverse) (before.leg .reverse)

theorem isChain_legs {r : JourneyLeg → JourneyLeg → Prop} {hops : List Hop} (h : hops.IsChain (InTravel dir r)) :
    (Journey.Map.legs dir hops).IsChain r := by
  cases dir with
  | forward =>
    rw [Journey.Map.legs, List.isChain_map, List.isChain_reverse]
    exact h
  | reverse =>
    rw [Journey.Map.legs, List.isChain_map]
    exact h

theorem mem_legs {hops : List Hop} {leg : JourneyLeg} (h : leg ∈ Journey.Map.legs dir hops) :
    ∃ hop ∈ hops, hop.leg dir = leg := by
  cases dir with
  | forward =>
    obtain ⟨hop, hmem, hleg⟩ := List.mem_map.mp h
    exact ⟨hop, List.mem_reverse.mp hmem, hleg⟩
  | reverse => exact List.mem_map.mp h

theorem leg_onward : (hop.leg dir).fromTime ≤ (hop.leg dir).toTime ↔ dir.NoLater hop.start.time hop.finish.time := by
  cases dir with
  | forward => exact Direction.noLater_forward.symm
  | reverse => exact Direction.noLater_reverse.symm

theorem stop_of_start (h : hop.kind ≠ .searchAccess) :
    (hop.route .forward).fromStop? = some hop.start.stop ∧ (hop.route .reverse).toStop? = some hop.start.stop := by
  unfold route
  cases hk : hop.kind with
  | searchAccess => exact absurd hk h
  | transit | transfer | searchEgress => exact ⟨rfl, rfl⟩

theorem stop_of_finish (h : hop.kind ≠ .searchEgress) :
    (hop.route .forward).toStop? = some hop.finish.stop ∧ (hop.route .reverse).fromStop? = some hop.finish.stop := by
  unfold route
  cases hk : hop.kind with
  | searchEgress => exact absurd hk h
  | transit | transfer | searchAccess => exact ⟨rfl, rfl⟩

theorem kind_of_isTransfer (h : (hop.route dir).isTransfer = true) : hop.kind = .transfer := by
  unfold route at h
  cases hk : hop.kind with
  | transfer => rfl
  | searchAccess | transit | searchEgress =>
    rw [hk] at h
    cases dir <;> cases h

theorem route_inNetwork (h : hop.kind.inNetwork = true) :
    (hop.route dir).isTransit = true ∨ (hop.route dir).isTransfer = true := by
  unfold route
  cases hk : hop.kind with
  | transit => exact Or.inl rfl
  | transfer => exact Or.inr rfl
  | searchAccess | searchEgress =>
    rw [hk] at h
    cases h

theorem Joins.legs_meet (h : Joins dir hop before) : InTravel dir JourneyLeg.Meets hop before := by
  obtain ⟨hstart, hstart'⟩ := stop_of_start h.departs
  obtain ⟨hfinish, hfinish'⟩ := stop_of_finish h.arrives
  have hstop : before.finish.stop = hop.start.stop := h.stop
  cases dir with
  | forward => exact ⟨⟨_, hfinish.trans (congrArg some hstop), hstart⟩, Direction.noLater_forward.mp h.time⟩
  | reverse => exact ⟨⟨_, hstart', hfinish'.trans (congrArg some hstop)⟩, Direction.noLater_reverse.mp h.time⟩

theorem Joins.legs_touch (h : Joins dir hop before) : InTravel dir (JourneyLeg.Touches dir) hop before := by
  cases dir with
  | forward => exact fun hwalk => h.touches (kind_of_isTransfer hwalk)
  | reverse => exact fun hwalk => (h.touches (kind_of_isTransfer hwalk)).symm

end Hop

/-! ## Journeys -/

namespace Journey

variable {dir : Direction} {hops : List Hop} {egress : Hop}

theorem ends_of_rooted (rooted : Hop.Rooted dir hops) (hegress : egress.kind = .searchEgress) :
    ∃ first between last, Map.legs dir (egress :: hops) = first :: (between ++ [last]) ∧
      first.route.isAccess = true ∧ last.route.isEgress = true ∧
      ∀ leg ∈ between, leg.route.isTransit = true ∨ leg.route.isTransfer = true := by
  obtain ⟨rides, access, rfl, haccess, hrides⟩ := rooted.ends
  have hbetween : ∀ leg ∈ Map.legs dir rides, leg.route.isTransit = true ∨ leg.route.isTransfer = true := by
    intro leg hleg
    obtain ⟨hop, hhop, rfl⟩ := Hop.mem_legs hleg
    exact Hop.route_inNetwork (hrides hop hhop)
  cases dir with
  | forward =>
    refine ⟨access.leg .forward, Map.legs .forward rides, egress.leg .forward, ?_, ?_, ?_, hbetween⟩
    · simp [Map.legs]
    · simp [Hop.leg, Hop.route, haccess, Route.isAccess]
    · simp [Hop.leg, Hop.route, hegress, Route.isEgress]
  | reverse =>
    refine ⟨egress.leg .reverse, Map.legs .reverse rides, access.leg .reverse, ?_, ?_, ?_, hbetween⟩
    · simp [Map.legs]
    · simp [Hop.leg, Hop.route, hegress, Route.isAccess]
    · simp [Hop.leg, Hop.route, haccess, Route.isEgress]

/-- With an egress hop that joins them, the hops back to the root are the legs of a journey. -/
theorem travelable_of_rooted {before : Hop} {rest : List Hop} (rooted : Hop.Rooted dir (before :: rest))
    (hkind : egress.kind = .searchEgress) (honward : dir.NoLater egress.start.time egress.finish.time)
    (hjoins : Hop.Joins dir egress before) {j : Journey} (hlegs : j.legs = Map.legs dir (egress :: before :: rest))
    (hstart : ∀ first ∈ j.legs.head?, j.startTime = first.fromTime)
    (hend : ∀ last ∈ j.legs.getLast?, j.endTime = last.toTime) : j.Travelable dir := by
  have joined : (egress :: before :: rest).IsChain (Hop.Joins dir) := .cons_cons hjoins rooted.joined
  have forth : ∀ hop ∈ egress :: before :: rest, dir.NoLater hop.start.time hop.finish.time :=
    List.forall_mem_cons.mpr ⟨honward, rooted.onward⟩
  have meets : j.legs.IsChain JourneyLeg.Meets := by
    rw [hlegs]
    exact Hop.isChain_legs (joined.imp fun _ _ h => h.legs_meet)
  have onward : ∀ leg ∈ j.legs, leg.fromTime ≤ leg.toTime := by
    intro leg hleg
    rw [hlegs] at hleg
    obtain ⟨hop, hhop, rfl⟩ := Hop.mem_legs hleg
    exact Hop.leg_onward.mpr (forth hop hhop)
  have ends := ends_of_rooted rooted hkind
  rw [← hlegs] at ends
  refine ⟨ends, onward, meets, ?_, ?_⟩
  · rw [hlegs]
    exact Hop.isChain_legs (joined.imp fun _ _ h => h.legs_touch)
  · have hne : j.legs ≠ [] := by
      obtain ⟨first, between, last, heq, -⟩ := ends
      rw [heq]
      exact List.cons_ne_nil _ _
    rw [hstart _ (List.head?_eq_some_head hne), hend _ (List.getLast?_eq_some_getLast hne)]
    exact JourneyLeg.head_le_last onward meets _ (List.head?_eq_some_head hne) _ (List.getLast?_eq_some_getLast hne)

end Journey

/-- Every journey mapped from a chain of access, ride and walk can be travelled, when no step of the chain goes back
in time; and only costs too far apart keep such a chain from being mapped. -/
theorem ofChain_is_travelable {bare : List Nat} {arena : Arena} (traced : Traced bare arena) {id : Nat}
    {steps : List (Nat × Arrival)} (hchain : arena.chain id = .ok steps) (made : ∀ step ∈ steps, step.1 ∉ bare)
    (travels : Arrival.Travels arena.direction (steps.map (·.2))) {terms : Terms}
    (hdir : terms.calculator.direction = arena.direction) (hslack : 0 ≤ terms.slack) {egress : Leg}
    (hduration : 0 ≤ egress.duration) {d : Destination} (hd : terms.destination? arena id egress = .ok (some d))
    (iteration : Option Int) :
    ((∃ j, Journey.Map.ofChain arena.direction arena d iteration = .ok j) ↔
      (Hop.costs steps).IsChain fun cost before => Checked.Fits (cost - before)) ∧
    ∀ j, Journey.Map.ofChain arena.direction arena d iteration = .ok j →
      j.legs.length = steps.length + 1 ∧ j.Travelable arena.direction := by
  obtain ⟨last, hlast, hprevious, hjoins⟩ := Terms.destination_of_result hd
  obtain ⟨node, rest, hnode, hsteps, hwalk⟩ := walk_of_chain (reach_ordered traced.reach) hchain
  cases hlast.symm.trans hnode
  rw [← hprevious] at hlast hchain
  have stands : ∀ step ∈ steps, arena.Stands step.1 step.2 := fun step hstep =>
    traced.stands step.1 step.2 (hwalk.get step hstep) (made step hstep)
  constructor
  · obtain ⟨egressHop, hegress⟩ := Hop.ofDestination_answers hjoins hlast
    have horigin : ∀ step ∈ steps, ∃ o, Hop.origin arena.direction step.2 = .ok o := fun step hstep =>
      Hop.origin_answers traced.reach (hwalk.get step hstep) (stands step hstep)
    rw [Journey.ofChain_answers_iff, Hop.all_answers_iff hegress hchain]
    exact Hop.hops_answer_iff hwalk horigin
  · intro j hj
    obtain ⟨hops, first, final, hhops, hfirst, hfinal, rfl⟩ := Journey.ofChain_of_result hj
    obtain ⟨egressHop, steps', later, hegress, hsteps', hlater, rfl⟩ := Hop.all_of_result hhops
    cases hchain.symm.trans hsteps'
    have rooted := Hop.rooted_of_walk hwalk stands travels hlater
    have hlength : later.length = steps.length := mapM_length hlater
    rw [hsteps] at hlater
    obtain ⟨before, others, hbefore, -, rfl⟩ := mapM_cons_eq_ok.mp hlater
    obtain ⟨hkind, honward, hjoined⟩ :=
      Hop.joins_of_destination hdir hslack hduration hjoins hlast hegress hbefore
    refine ⟨by rw [Journey.legs_length, List.length_cons, hlength], ?_⟩
    refine Journey.travelable_of_rooted rooted hkind honward hjoined rfl (fun leg hleg => ?_) (fun leg hleg => ?_)
    · cases hfirst.symm.trans hleg
      rfl
    · cases hfinal.symm.trans hleg
      rfl

/-- An arrive-by chain in an arena where something else was derived: a walk to the last stop, a ride to it and a walk
to where the ride is boarded. -/
theorem ofChain_is_travelable_arrive_by :
    let walk : Arrival := ⟨none, 0, 1, 940, 60, 6000, .access (.walk 1 60 6000)⟩
    let derived : Arrival := ⟨some 0, 7, 9, 950, 50, 0, .access (.walk 9 30 0)⟩
    let ride : Arrival := ⟨some 0, 1, 2, 800, 200, 20000, .transit ⟨1, 930, 7⟩⟩
    let last : Arrival := ⟨some 2, 2, 3, 700, 300, 30000, .transfer 2 100⟩
    let arena : Arena := ⟨.reverse, #[walk, derived, ride, last]⟩
    let d : Destination := ⟨3, .flex 3 100 4000 1 false, 640, 540, 40000, 3, 1⟩
    Traced [1] arena ∧
      Terms.destination? ⟨⟨.reverse, none⟩, some .standard, 60⟩ arena 3 (.flex 3 100 4000 1 false) = .ok (some d) ∧
      ∃ j, Journey.Map.ofChain .reverse arena d none = .ok j ∧ j.Travelable .reverse ∧
        j.legs = [⟨.access 3, 540, 640, 10000⟩, ⟨.transfer 3 2, 700, 800, 10000⟩, ⟨.transit 2 1 7, 800, 930, 14000⟩,
          ⟨.egress 1, 940, 1000, 6000⟩] := by
  intro walk derived ride last arena d
  have traced : Traced [1] arena :=
    .step (.transfer 2 3 700 30000) (.step (.transit 0 2 800 20000 ⟨1, 930, 7⟩)
      (.step (.derive 0 7 9 950 0 (.access (.walk 9 30 0))) (.step (.access 1000 (.walk 1 60 6000)) (.empty .reverse)
        rfl rfl) rfl rfl) rfl rfl) rfl rfl
  have hd : Terms.destination? ⟨⟨.reverse, none⟩, some .standard, 60⟩ arena 3 (.flex 3 100 4000 1 false) =
      .ok (some d) := by decide +kernel
  have hchain : arena.chain 3 = .ok [(3, last), (2, ride), (0, walk)] := by decide +kernel
  have travels : Arrival.Travels arena.direction [last, ride, walk] := by
    refine ⟨?_, .cons_cons (show _ = _ by decide) (.cons_cons ?_ (.singleton _))⟩
    · simp [last, ride, walk, Leg.walk]
    · exact ⟨rfl, by decide, by decide⟩
  obtain ⟨hanswers, htravels⟩ :=
    ofChain_is_travelable traced hchain (by decide) travels rfl (by decide) (by decide) hd none
  obtain ⟨j, hj⟩ := hanswers.mpr (by decide)
  refine ⟨traced, hd, j, hj, (htravels j hj).2, ?_⟩
  have hlegs : (Journey.Map.ofChain .reverse arena d none).map (·.legs) =
      .ok [⟨.access 3, 540, 640, 10000⟩, ⟨.transfer 3 2, 700, 800, 10000⟩, ⟨.transit 2 1 7, 800, 930, 14000⟩,
        ⟨.egress 1, 940, 1000, 6000⟩] := by decide +kernel
  rw [show Journey.Map.ofChain .reverse arena d none = .ok j from hj] at hlegs
  exact Except.ok.inj hlegs

end TransitSearch
