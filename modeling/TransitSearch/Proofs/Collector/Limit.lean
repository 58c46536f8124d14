/-
  TransitSearch.Proofs.Collector.Limit — the limit of a search and the slack before a ride.

  The limit is put to the time at which the destination is reached, before there is a
  journey. That time is the end of a forward journey and the start of a reverse one
  (`Journey.ofChain_forward_ends`, `Journey.ofChain_reverse_starts`), so with the calculator
  and the map of one configuration every journey listed keeps to the limit of that
  configuration. The leg at that end starts where the arrival stands, after it and the slack
  (`allows_of_destination`).

  A journey is listed only if an act offered it (`run_lists_offered`), so this holds at any
  time of any run, and an offer beyond the limit changes nothing (`run_keeps_limit`).
-/

import TransitSearch.Proofs.Calculator
import TransitSearch.Proofs.Collector.Front
import TransitSearch.Proofs.Destination
import TransitSearch.Proofs.Journey.Map
import TransitSearch.SearchConfig

namespace TransitSearch

namespace SearchConfig

/-- After the latest arrival or, in a reverse search, before the earliest departure. -/
def Beyond (config : SearchConfig) (time : Int) : Prop :=
  match config.direction with
  | .forward => ∃ latest, config.latestArrival = some latest ∧ latest < time
  | .reverse => ∃ earliest, config.earliestDeparture = some earliest ∧ time < earliest

/-- `j` keeps to the limit, and the leg made from `egress` to the slack at the stop of `node`. -/
def Allows (config : SearchConfig) (node : Arrival) (egress : Leg) (j : Journey) : Prop :=
  match config.direction with
  | .forward =>
    (∀ latest, config.latestArrival = some latest → j.endTime ≤ latest) ∧
    ∃ leg, j.legs.getLast? = some leg ∧ leg.route = .egress node.stop ∧
      node.time + Calculator.lead egress config.transferSlack ≤ leg.fromTime
  | .reverse =>
    (∀ earliest, config.earliestDeparture = some earliest → earliest ≤ j.startTime) ∧
    ∃ leg, j.legs.head? = some leg ∧ leg.route = .access node.stop ∧
      leg.toTime ≤ node.time - Calculator.lead egress config.transferSlack

variable {config : SearchConfig}

theorem calculator_direction (config : SearchConfig) : config.calculator.direction = config.direction := by
  unfold calculator
  cases config.direction <;> rfl

theorem exceedsLimit_iff {time : Int} : config.calculator.exceedsLimit time = true ↔ config.Beyond time := by
  unfold calculator Beyond
  cases config.direction with
  | forward => cases config.latestArrival <;> simp [Calculator.exceedsLimit, Direction.isAfter]
  | reverse => cases config.earliestDeparture <;> simp [Calculator.exceedsLimit, Direction.isAfter]

theorem allows_of_destination {arena : Arena} {id : Nat} {egress : Leg} {d : Destination} {iteration : Option Int}
    {j : Journey} (hd : config.terms.destination? arena id egress = .ok (some d)) (hwithin : ¬ config.Beyond d.arrival)
    (hj : config.journeyMap arena d iteration = .ok j) :
    ∃ node, arena.get id = .ok node ∧ config.Allows node egress j := by
  obtain ⟨node, hnode, hprevious, hjoins⟩ := Terms.destination_of_result hd
  refine ⟨node, hnode, ?_⟩
  rw [← hprevious] at hnode
  have hlead : config.direction.pos node.time + Calculator.lead egress config.transferSlack ≤
      config.direction.pos d.departure := by
    rw [← config.calculator_direction]
    exact Calculator.pos_of_egressDeparture hjoins.departure
  unfold Beyond at hwithin
  unfold journeyMap at hj
  unfold Allows
  cases hdir : config.direction with
  | forward =>
    rw [hdir] at hlead hwithin hj
    obtain ⟨hleg, hend⟩ := Journey.ofChain_forward_ends hj hnode
    refine ⟨fun latest hlatest => ?_, _, hleg, rfl, hlead⟩
    rw [hend]
    exact Int.not_lt.mp fun hlt => hwithin ⟨latest, hlatest, hlt⟩
  | reverse =>
    rw [hdir] at hlead hwithin hj
    obtain ⟨hleg, hstart⟩ := Journey.ofChain_reverse_starts hj hnode
    refine ⟨fun earliest hearliest => ?_, _, hleg, rfl, ?_⟩
    · rw [hstart]
      exact Int.not_lt.mp fun hlt => hwithin ⟨earliest, hearliest, hlt⟩
    · simp only [Direction.pos_reverse] at hlead
      show d.departure ≤ node.time - Calculator.lead egress config.transferSlack
      omega

end SearchConfig

namespace Collector

open Pareto

/-! ## What is listed was offered -/

theorem candidate_of_some {setup : Setup} {iteration : Option Int} {arena : Arena} {id : Nat} {egress : Leg}
    {j : Journey} (h : candidate? setup iteration arena id egress = some j) :
    ∃ d, setup.terms.destination? arena id egress = .ok (some d) ∧
      setup.terms.calculator.exceedsLimit d.arrival = false ∧ setup.map arena d iteration = .ok j := by
  unfold candidate? at h
  split at h
  · rename_i d hd
    split at h
    · cases h
    · rename_i hlimit
      cases hj : setup.map arena d iteration with
      | error e =>
        rw [hj] at h
        cases h
      | ok j' =>
        rw [hj] at h
        cases h
        exact ⟨d, hd, Bool.eq_false_iff.mpr hlimit, hj⟩
  · cases h

theorem mem_offered {setup : Setup} {acts : List Act} : ∀ {iteration : Option Int} {j : Journey},
    j ∈ offered setup iteration acts → ∃ now arena id egress iteration',
      .add now arena id egress ∈ acts ∧ candidate? setup iteration' arena id egress = some j := by
  induction acts with
  | nil =>
    intro iteration j h
    cases h
  | cons a rest ih =>
    intro iteration j h
    rcases List.mem_append.mp h with h | h
    · cases a with
      | add now arena id egress =>
        exact ⟨now, arena, id, egress, iteration, List.mem_cons_self, Option.mem_toList.mp h⟩
      | qualify | reject | hear => cases h
    · obtain ⟨now, arena, id, egress, iteration', hmem, hj⟩ := ih h
      exact ⟨now, arena, id, egress, iteration', List.mem_cons_of_mem _ hmem, hj⟩

theorem run_lists_offered {setup : Setup} {mismatches : Throttle} {acts : List Act} {c : Collector}
    (h : ((Collector.empty setup mismatches).run acts).result = .ok c) {j : Journey} (hj : j ∈ c.list) :
    j ∈ offered setup none acts := by
  obtain ⟨-, hf⟩ := run_front acts (empty_isFor setup mismatches) isFront_nil h
  rw [hf.eq_front] at hj
  exact front_subset hj

/-! ## The limit -/

/-- At any time of any run, with any configuration: each journey listed was offered by one of the acts, for a
destination within the limit; it keeps to the limit itself, and the leg made from the egress leg keeps to the slack.
An offer beyond the limit leaves the collector as it is, whatever else speaks for it. -/
theorem run_keeps_limit (config : SearchConfig) (environment : Environment) (mismatches : Throttle) (acts : List Act)
    {c : Collector} (h : ((Collector.empty (config.setup environment) mismatches).run acts).result = .ok c) :
    (∀ j ∈ c.list, ∃ now arena id egress node d iteration, .add now arena id egress ∈ acts ∧ arena.get id = .ok node ∧
      config.terms.destination? arena id egress = .ok (some d) ∧ ¬ config.Beyond d.arrival ∧
      config.journeyMap arena d iteration = .ok j ∧ config.Allows node egress j) ∧
    ∀ {now arena id egress d c'}, config.terms.destination? arena id egress = .ok (some d) → config.Beyond d.arrival →
      (c.add now arena id egress).result = .ok c' → c' = c := by
  constructor
  · intro j hj
    obtain ⟨now, arena, id, egress, iteration, hact, hcandidate⟩ := mem_offered (run_lists_offered h hj)
    obtain ⟨d, hd, hlimit, hmap⟩ := candidate_of_some hcandidate
    have hwithin : ¬ config.Beyond d.arrival := by
      rw [← SearchConfig.exceedsLimit_iff]
      exact Bool.eq_false_iff.mp hlimit
    obtain ⟨node, hnode, hallows⟩ := SearchConfig.allows_of_destination hd hwithin hmap
    exact ⟨now, arena, id, egress, node, d, iteration, hact, hnode, hd, hwithin, hmap, hallows⟩
  · intro now arena id egress d c' hd hbeyond ha
    have hsetup : c.setup = config.setup environment := (run_isFor (empty_isFor _ mismatches) h).1.setup_eq
    rcases add_of_result ha with ⟨-, rfl⟩ | ⟨_, -, -, rfl⟩ | ⟨d', _, _, _, _, hd', hlimit, -⟩
    · rfl
    · rfl
    · rw [hsetup] at hd' hlimit
      cases hd.symm.trans hd'
      rw [show (config.setup environment).terms.calculator.exceedsLimit d.arrival = true from
        SearchConfig.exceedsLimit_iff.mpr hbeyond] at hlimit
      cases hlimit

/-- An arrive-by search that may not leave before 500 is offered a ride on demand, which it may take from 640 on, the
slack being 60, and a cheaper and longer walk before and after it. -/
theorem run_keeps_limit_arrive_by :
    let config : SearchConfig := { SearchConfig.standard with direction := .reverse, earliestDeparture := some 500 }
    let ride : Arrival := ⟨some 0, 1, 2, 700, 300, 0, .transit ⟨1, 930, 7⟩⟩
    let arena : Arena := ⟨.reverse, #[⟨none, 0, 1, 940, 60, 0, .access (.walk 1 60 0)⟩, ride]⟩
    let setup : Setup := config.setup ⟨.system, fun _ _ => true⟩
    let acts : List Act := [.add 0 arena 1 (.walk 2 250 0), .add 0 arena 1 (.flex 2 100 4000 1 false)]
    config.validate.isOk = true ∧
    ∃ c j leg, ((Collector.empty setup (.ofPeriod 1000)).run acts).result = .ok c ∧ c.list = [j] ∧
      500 ≤ j.startTime ∧ j.legs.head? = some leg ∧ leg.route = .access 2 ∧ leg.toTime ≤ 640 ∧
      (c.add 0 arena 1 (.walk 2 250 0)).result = .ok c := by
  intro config ride arena setup acts
  let next := (Collector.empty setup (.ofPeriod 1000)).run acts >>= fun c =>
    c.add 0 arena 1 (.walk 2 250 0) >>= fun c' => pure (c, c')
  obtain ⟨⟨c, c'⟩, hnext⟩ := ok_of_isOk (show next.result.isOk = true by decide +kernel)
  obtain ⟨c₁, hc, hnext⟩ := Run.result_bind_eq_ok.mp hnext
  obtain ⟨c₂, ha, hpair⟩ := Run.result_bind_eq_ok.mp hnext
  cases hpair
  obtain ⟨hlisted, hbeyond⟩ := run_keeps_limit config _ (.ofPeriod 1000) acts hc
  have hwalk : config.terms.destination? arena 1 (.walk 2 250 0) =
      .ok (some ⟨1, .walk 2 250 0, 700, 450, 0, 2, 0⟩) := by decide +kernel
  have hlate : config.Beyond 450 := ⟨500, rfl, by decide⟩
  have hone : (((Collector.empty setup (.ofPeriod 1000)).run acts).result.map (·.list.length)) = .ok 1 := by
    decide +kernel
  rw [hc] at hone
  obtain ⟨j, hj⟩ := List.length_eq_one_iff.mp (Except.ok.inj hone)
  have hmem : j ∈ c.list := by
    rw [hj]
    exact List.mem_singleton_self j
  obtain ⟨_, _, _, _, node, d, _, hact, hnode, hd, hwithin, -, hallows⟩ := hlisted j hmem
  rcases List.mem_cons.mp hact with hact | hact
  · cases hact
    cases hwalk.symm.trans hd
    exact absurd hlate hwithin
  · cases List.mem_singleton.mp hact
    cases hnode
    obtain ⟨hstart, leg, hleg, hroute, hslack⟩ := hallows
    refine ⟨by decide +kernel, c, j, leg, hc, hj, hstart 500 rfl, hleg, hroute, hslack, ?_⟩
    rw [hbeyond hwalk hlate ha] at ha
    exact ha

end Collector

end TransitSearch
