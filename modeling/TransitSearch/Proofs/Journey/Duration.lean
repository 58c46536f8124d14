/-
  TransitSearch.Proofs.Journey.Duration — a journey lasts as long as it was travelled.

  How long a journey takes is worked out twice. The arrivals of the search carry the time
  since the origin was left, and a search goes by that. A mapped journey takes the time
  between its two ends, and journeys are compared by that. The ends come from the first and
  the last hop that the map makes: the one at the destination is when that is reached, and
  the one at the origin is when it was left, told by going back from the root by the time
  its leg takes (`ofChain_reaches`, `ofChain_leaves`).

  So the two agree (`ofChain_lasts_as_travelled`): what the last arrival has travelled, the
  wait from there to the egress leg, and the leg itself are the duration of the journey,
  unless that is out of range.
-/

import TransitSearch.Proofs.Arena.Elapsed
import TransitSearch.Proofs.Arena.Recorded
import TransitSearch.Proofs.Arena.Stable
import TransitSearch.Proofs.Journey.Costs

namespace TransitSearch

open Arena

namespace Journey

variable {dir : Direction} {arena : Arena} {d : Destination} {iteration : Option Int} {j : Journey}

/-! ## The two ends -/

theorem ofChain_reaches (h : Map.ofChain dir arena d iteration = .ok j) :
    (dir = .forward → j.endTime = d.arrival) ∧ (dir = .reverse → j.startTime = d.arrival) := by
  obtain ⟨hops, _, _, hhops, -, -, -⟩ := ofChain_of_result h
  obtain ⟨_, _, _, hegress, -, -, -⟩ := Hop.all_of_result hhops
  obtain ⟨last, hlast, -⟩ := Hop.ofDestination_of_result hegress
  constructor
  · rintro rfl
    exact (ofChain_forward_ends h hlast).2
  · rintro rfl
    exact (ofChain_reverse_starts h hlast).2

theorem ofChain_leaves {steps : List (Nat × Arrival)} {root : Nat × Arrival} (hsteps : arena.chain d.previous = .ok steps)
    (hroot : steps.getLast? = some root) (h : Map.ofChain dir arena d iteration = .ok j) :
    ∃ hop, Hop.ofArrival dir arena root.2 = .ok hop ∧
      (dir = .forward → j.startTime = hop.start.time) ∧ (dir = .reverse → j.endTime = hop.start.time) := by
  obtain ⟨hops, first, last, hhops, hfirst, hlast, rfl⟩ := ofChain_of_result h
  obtain ⟨egress, steps', later, -, hsteps', hlater, rfl⟩ := Hop.all_of_result hhops
  cases hsteps.symm.trans hsteps'
  obtain ⟨hop, hhop, hfinal⟩ := mapM_getLast hlater hroot
  have hfinal : (egress :: later).getLast? = some hop := by
    cases later with
    | nil => cases hfinal
    | cons _ _ => rw [List.getLast?_cons_cons]; exact hfinal
  refine ⟨hop, hhop, ?_, ?_⟩
  · rintro rfl
    rw [Map.legs, List.head?_map, List.head?_reverse, hfinal] at hfirst
    cases hfirst
    rfl
  · rintro rfl
    rw [Map.legs, List.getLast?_map, hfinal] at hlast
    cases hlast
    rfl

theorem start_of_root {node : Arrival} {leg : Leg} {hop : Hop} {departure : Int} (hroot : IsRoot dir leg node)
    (hleft : dir.plus departure leg.duration = .ok node.time) (h : Hop.ofArrival dir arena node = .ok hop) :
    hop.start.time = departure := by
  obtain ⟨_, -, horigin, -⟩ := Hop.ofArrival_of_result h
  simp only [Hop.origin, hroot.kind, bind_eq_ok, pure_eq_ok, Prod.mk.injEq] at horigin
  obtain ⟨start, hstart, -, hpoint⟩ := horigin
  rw [← hpoint]
  obtain ⟨-, hback⟩ := Direction.minus_eq_ok.mp hstart
  obtain ⟨-, hforth⟩ := Direction.plus_eq_ok.mp hleft
  have hpos : dir.pos start = dir.pos departure := by omega
  exact Direction.pos_inj.mp hpos

end Journey

/-! ## Recorded chains -/

theorem Arena.Recorded.travelled {makers : List Op} {arena : Arena} (recorded : Recorded makers arena) {id : Nat}
    {node : Arrival} {rest : List (Nat × Arrival)} (walk : arena.Walk ((id, node) :: rest))
    (made : ∀ step ∈ (id, node) :: rest, ∃ op, makers[step.1]? = some op ∧ op.isStep = true) :
    ∃ root departure leg, ((id, node) :: rest).getLast? = some root ∧ makers[root.1]? = some (.access departure leg) ∧
      IsRoot arena.direction leg root.2 ∧ arena.direction.plus departure leg.duration = .ok root.2.time ∧
      node.travelDuration = arena.direction.pos node.time - arena.direction.pos departure := by
  have hmade : ∀ step ∈ (id, node) :: rest, ∃ op, makers[step.1]? = some op ∧ arena.Made step.1 step.2 op := by
    intro step hstep
    obtain ⟨op, hop, hisStep⟩ := made step hstep
    exact ⟨op, hop, recorded.made (walk.get step hstep) hop hisStep⟩
  have trail : Trail arena.direction (((id, node) :: rest).map (·.2)) := by
    refine trail_of_walk walk fun step hstep => ?_
    obtain ⟨_, -, hstands⟩ := hmade step hstep
    exact hstands.stands
  obtain ⟨root, hlast, hnone⟩ := walk.ends
  obtain ⟨op, hop, hroot⟩ := hmade root (List.mem_of_getLast? hlast)
  cases hroot with
  | hop _ p prev hp => cases hnone.symm.trans hp
  | access departure leg hleft hroot =>
    refine ⟨root, departure, leg, hlast, hop, hroot, hleft, ?_⟩
    obtain ⟨times, -, -, hsums⟩ := trail.sum_hopTimes
    obtain ⟨hduration, hpos⟩ := hsums node rfl root.2 (by rw [List.getLast?_map, hlast]; rfl)
    obtain ⟨-, hforth⟩ := Direction.plus_eq_ok.mp hleft
    rw [hroot.travelDuration] at hduration
    omega

/-- From an arrival on a chain of accesses, rides and walks, to a destination: only an overflow keeps the chain from being
mapped to a journey. The journey is at the destination when that is reached, and at the origin at the departure with which
the root was made. It lasts for what the arrival has travelled, the time from there to the start of the egress leg, and the
leg, unless that is no number of 32 bits. -/
theorem ofChain_lasts_as_travelled {makers : List Op} {arena : Arena} (recorded : Recorded makers arena) {id : Nat}
    {steps : List (Nat × Arrival)} (hchain : arena.chain id = .ok steps)
    (made : ∀ step ∈ steps, ∃ op, makers[step.1]? = some op ∧ op.isStep = true) {terms : Terms}
    (hdir : terms.calculator.direction = arena.direction) {egress : Leg} {d : Destination}
    (hd : terms.destination? arena id egress = .ok (some d)) (iteration : Option Int) :
    OnlyOverflows (Journey.Map.ofChain arena.direction arena d iteration) ∧
    ∃ last elapsed root departure leg, arena.get id = .ok last ∧
      arena.direction.between last.time d.departure = .ok elapsed ∧
      steps.getLast? = some root ∧ makers[root.1]? = some (.access departure leg) ∧
      ∀ j, Journey.Map.ofChain arena.direction arena d iteration = .ok j →
        (∀ total, j.duration = .ok total ↔
          Checked.Fits total ∧ total = last.travelDuration + elapsed + egress.duration) ∧
        (arena.direction = .forward → j.startTime = departure ∧ j.endTime = d.arrival) ∧
        (arena.direction = .reverse → j.startTime = d.arrival ∧ j.endTime = departure) := by
  have ordered : arena.Ordered := reach_ordered recorded.reach
  obtain ⟨last, hlast, rfl, hjoins⟩ := Terms.destination_of_result hd
  obtain ⟨_, rest, hlast', rfl, walk⟩ := walk_of_chain ordered hchain
  cases hlast.symm.trans hlast'
  obtain ⟨root, departure, leg, hend, hop, hroot, hleft, htravelled⟩ := recorded.travelled walk made
  obtain ⟨_, hwaits, hwait⟩ := TransitCalculator.fits_wait_of_destination hd
  cases hlast.symm.trans hwaits
  refine ⟨Journey.ofChain_onlyOverflows ordered hlast, last, _, root, departure, leg, hlast,
    Direction.between_of_natAbs hwait, hend, hop, fun j hj => ?_⟩
  obtain ⟨hop, hhop, hstarts, hends⟩ := Journey.ofChain_leaves hchain hend hj
  obtain ⟨hends', hstarts'⟩ := Journey.ofChain_reaches hj
  rw [Journey.start_of_root hroot hleft hhop] at hstarts hends
  obtain ⟨-, harrival⟩ := Direction.plus_eq_ok.mp hjoins.arrival
  rw [hdir] at harrival
  refine ⟨fun total => ?_, fun hdir => ⟨hstarts hdir, hends' hdir⟩, fun hdir => ⟨hstarts' hdir, hends hdir⟩⟩
  have hspan : j.endTime - j.startTime = arena.direction.pos d.arrival - arena.direction.pos departure := by
    cases hforth : arena.direction with
    | forward => rw [hstarts hforth, hends' hforth]; rfl
    | reverse =>
      rw [hstarts' hforth, hends hforth]
      show departure - d.arrival = -d.arrival - -departure
      omega
  rw [Journey.duration, Checked.sub_ok_iff, Direction.fits_and_eq, hspan]
  have hsame : arena.direction.pos d.arrival - arena.direction.pos departure = last.travelDuration +
      (arena.direction.pos d.departure - arena.direction.pos last.time) + egress.duration := by omega
  rw [hsame]

/-- An arrive-by chain with a ride after a ride, in an arena where its root was also re-timed: the journey that is mapped
ends at the departure the root was made with, and lasts for 360 seconds of travel, 60 of waiting and 100 on the leg. -/
theorem ofChain_lasts_as_travelled_arrive_by :
    let access : Leg := .walk 1 60 6000
    let root : Arrival := ⟨none, 0, 1, 940, 60, 6000, .access access⟩
    let moved : Arrival := { root with time := 800 }
    let first : Arrival := ⟨some 0, 1, 2, 800, 200, 20000, .transit ⟨1, 930, 7⟩⟩
    let last : Arrival := ⟨some 2, 2, 3, 640, 360, 30000, .transit ⟨2, 800, 8⟩⟩
    let arena : Arena := ⟨.reverse, #[root, moved, first, last]⟩
    let makers : List Op := [.access 1000 access, .shift 0 800, .transit 0 2 800 20000 ⟨1, 930, 7⟩,
      .transit 2 3 640 30000 ⟨2, 800, 8⟩]
    let egress : Leg := .flex 3 100 4000 1 false
    let d : Destination := ⟨3, egress, 580, 480, 40000, 3, 1⟩
    Recorded makers arena ∧ Terms.destination? ⟨⟨.reverse, none⟩, some .standard, 60⟩ arena 3 egress = .ok (some d) ∧
      ∃ j, Journey.Map.ofChain .reverse arena d none = .ok j ∧ j.duration = .ok (360 + 60 + 100) ∧
        j.startTime = 480 ∧ j.endTime = 1000 := by
  intro access root moved first last arena makers egress d
  have recorded : Recorded makers arena :=
    .step (.transit 2 3 640 30000 ⟨2, 800, 8⟩) (.step (.transit 0 2 800 20000 ⟨1, 930, 7⟩) (.step (.shift 0 800)
      (.step (.access 1000 access) (.empty .reverse) rfl) rfl) rfl) rfl
  have hd : Terms.destination? ⟨⟨.reverse, none⟩, some .standard, 60⟩ arena 3 egress = .ok (some d) := by
    decide +kernel
  have hchain : arena.chain 3 = .ok [(3, last), (2, first), (0, root)] := by decide +kernel
  have made : ∀ step ∈ [(3, last), (2, first), (0, root)], ∃ op, makers[step.1]? = some op ∧ op.isStep = true := by
    intro step hstep
    simp only [List.mem_cons, List.not_mem_nil, or_false] at hstep
    rcases hstep with rfl | rfl | rfl <;> exact ⟨_, rfl, rfl⟩
  obtain ⟨-, _, elapsed, root', departure, _, hlast, helapsed, hend, hop, hspans⟩ :=
    ofChain_lasts_as_travelled recorded hchain made rfl hd none
  cases hlast
  cases helapsed
  cases hend
  cases hop
  have hanswers : (Journey.Map.ofChain .reverse arena d none).isOk = true := by decide +kernel
  obtain ⟨j, hj⟩ := ok_of_isOk hanswers
  obtain ⟨hduration, -, hends⟩ := hspans j hj
  obtain ⟨hstart, hend⟩ := hends rfl
  exact ⟨recorded, hd, j, hj, (hduration _).mpr ⟨by decide, rfl⟩, hstart, hend⟩

end TransitSearch
