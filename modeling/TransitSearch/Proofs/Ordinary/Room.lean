/-
  TransitSearch.Proofs.Ordinary.Room — what a configuration has to leave room for.

  A valid configuration has its slack, wait reluctance and transfer cost bounded from below
  only, and all of them go into sums of 32 bits. So a search on ordinary data can be stopped
  by a valid configuration (`valid_config_overflows`).

  How much is too much can be said exactly (`answers_iff_roomy`). The slack has to leave room
  for two days, the access leg and the egress leg; the wait it makes and every wait up to two
  days have to be priced so that the cost of the arrival and of the leg can be added. In a
  reverse search the time of the destination has more room than the duration of the journey,
  which counts only for journeys within the limit.

  Where there is room each step from the offer to the set is answered
  (`destination_answers`, `Journey.ofChain_answers_of_reach`, `span_fits`). Where there is
  none, one access arrival and one leg overflow, or a ride that is offered twice.
-/

import TransitSearch.Proofs.Collector.Qualify
import TransitSearch.Proofs.Ordinary

namespace TransitSearch

open Arena

/-- An offer brings an ordinary arena and an ordinary leg. Anything may be asked, reported and heard. -/
def Collector.Act.Ordinary (dir : Direction) : Act → Prop
  | .add _ arena _ egress => arena.Ordinary dir ∧ egress.Ordinary
  | .qualify .. | .reject .. | .hear _ => True

namespace SearchConfig

/-- Whatever was done with a collector on ordinary data, the next offer is answered. What is offered is an arrival whose
pareto round has a next one. -/
def Answers (config : SearchConfig) : Prop :=
  ∀ (environment : Environment) (mismatches : Throttle) (acts : List Collector.Act) (c : Collector),
    (∀ a ∈ acts, a.Ordinary config.direction) →
    ((Collector.empty (config.setup environment) mismatches).run acts).result = .ok c →
    ∀ (now : Nat) (arena : Arena) (id : Nat) (node : Arrival) (egress : Leg), arena.Ordinary config.direction →
      egress.Ordinary → arena.get id = .ok node → node.paretoRound < 4294967295 →
      ∃ c', (c.add now arena id egress).result = .ok c'

/-- The slack and the prices leave room for ordinary data. -/
structure Roomy (config : SearchConfig) : Prop where
  forward : config.direction = .forward → config.transferSlack + 345600 ≤ 2147483647
  reverse : config.direction = .reverse → config.transferSlack + 172800 ≤ 2147483648 ∧
    (config.transferSlack + 259200 ≤ 2147483647 ∨
      ∃ earliest, config.earliestDeparture = some earliest ∧ 172800 - earliest ≤ 2147483647)
  costs : ∀ model, config.costModel = some model → model.transferCost + 100000000 ≤ 2147483647 ∧
    (∀ wait, 0 ≤ wait → wait ≤ 172800 → model.waitCost wait + 200000000 ≤ 2147483647) ∧
    ∀ wait, config.transferSlack ≤ wait → wait ≤ max config.transferSlack 172800 →
      model.waitCost wait + model.transferCost + 200000000 ≤ 2147483647

/-! ## Valid configurations -/

variable {config : SearchConfig}

theorem slack_nonneg (valid : config.validate = .ok ()) : 0 ≤ config.transferSlack := by
  by_contra hneg
  rw [validate, if_pos (Int.not_le.mp hneg)] at valid
  cases valid

theorem transferCost_nonneg (valid : config.validate = .ok ()) : 0 ≤ config.transferCost := by
  by_contra hneg
  simp only [validate, Int.not_le.mp hneg, if_true] at valid
  split at valid
  · cases valid
  · split at valid <;> cases valid

theorem valid_of_isOk (h : config.validate.isOk = true) : config.validate = .ok () := by
  cases hvalid : config.validate with
  | error e =>
    rw [hvalid] at h
    cases h
  | ok => rfl

/-! ## With room -/

variable {arena : Arena} {id : Nat} {node : Arrival} {egress : Leg}

theorem ready_answers (room : config.Roomy) (valid : config.validate = .ok ()) (hnode : node.Ordinary config.direction) :
    ∃ ready, config.direction.plus node.time config.transferSlack = .ok ready := by
  have hslack := slack_nonneg valid
  obtain ⟨hforward, hreverse⟩ := hnode.time
  refine Direction.plus_answers (fun hdir => ?_) fun hdir => ?_
  · have := room.forward hdir
    have := hforward hdir
    unfold Checked.Fits
    omega
  · have := (room.reverse hdir).1
    have := hreverse hdir
    unfold Checked.Fits
    omega

theorem egressDeparture_answers (room : config.Roomy) (valid : config.validate = .ok ())
    (hnode : node.Ordinary config.direction) (hegress : egress.Ordinary) :
    ∃ start, config.calculator.egressDeparture node.time egress config.transferSlack = .ok start := by
  have hslack := slack_nonneg valid
  obtain ⟨ready, hready⟩ := ready_answers room valid hnode
  have hpos := (Direction.plus_eq_ok.mp hready).2
  unfold Calculator.egressDeparture
  rw [config.calculator_direction]
  cases hdir : config.direction with
  | forward =>
    rw [hdir] at hready
    by_cases hrides : egress.hasRides = true
    · simp only [if_pos hrides, hready]
      exact ⟨_, rfl⟩
    · simp only [if_neg hrides]
      exact ⟨_, rfl⟩
  | reverse =>
    have := (room.reverse hdir).1
    have := hnode.time.2 hdir
    obtain ⟨hnonneg, hday⟩ := hegress.duration
    rw [hdir] at hready hpos
    simp only [Direction.pos_reverse] at hpos
    by_cases hrides : egress.hasRides = true
    · simp only [if_pos hrides, hready]
      exact Leg.latestArrival_answers hegress (by omega) (by omega)
    · simp only [if_neg hrides]
      exact Leg.latestArrival_answers hegress (by omega) (by omega)

theorem addedCost_answers (room : config.Roomy) (valid : config.validate = .ok ()) (hegress : egress.Ordinary)
    {wait cost : Int} (hcost : OrdinaryCost cost) (hlead : Calculator.lead egress config.transferSlack ≤ wait)
    (hwait : wait ≤ max (Calculator.lead egress config.transferSlack) 172800) :
    ∃ added, config.terms.addedCost wait egress = .ok added ∧ Checked.Fits (cost + added) := by
  obtain ⟨hcost, hcost'⟩ := hcost
  obtain ⟨hleg, hleg'⟩ := hegress.cost
  unfold Calculator.lead at hlead hwait
  cases hcosts : config.costModel with
  | none =>
    have hfree : config.terms.costs = none := hcosts
    rw [Terms.addedCost_none hfree]
    exact ⟨0, rfl, by unfold Checked.Fits; omega⟩
  | some model =>
    have hpriced : config.terms.costs = some model := hcosts
    rw [Terms.addedCost_some hpriced]
    obtain ⟨htransfer, hwalks, hrides⟩ := room.costs model hcosts
    have hpriced : 0 ≤ model.transferCost := by
      unfold costModel at hcosts
      split at hcosts
      · cases hcosts
        exact transferCost_nonneg valid
      · cases hcosts
    have hleast := (model.waitCost_fits wait).1
    by_cases hride : egress.hasRides = true
    · rw [if_pos hride] at hlead hwait
      have := hrides wait hlead hwait
      have hused : model.egressCost egress = .ok (egress.cost + model.transferCost) := by
        rw [CostModel.egressCost, if_pos hride]
        exact Checked.add_ok_iff.mpr ⟨by unfold Checked.Fits; omega, rfl⟩
      refine ⟨model.waitCost wait + (egress.cost + model.transferCost), bind_eq_ok.mpr ⟨_, hused, ?_⟩, ?_⟩
      · exact Checked.add_ok_iff.mpr ⟨by unfold Checked.Fits; omega, rfl⟩
      · unfold Checked.Fits
        omega
    · rw [if_neg hride] at hlead hwait
      have := hwalks wait hlead (by omega)
      have hused : model.egressCost egress = .ok egress.cost := by
        rw [CostModel.egressCost, if_neg hride]
        rfl
      refine ⟨model.waitCost wait + egress.cost, bind_eq_ok.mpr ⟨_, hused, ?_⟩, ?_⟩
      · exact Checked.add_ok_iff.mpr ⟨by unfold Checked.Fits; omega, rfl⟩
      · unfold Checked.Fits
        omega

theorem destination_answers (room : config.Roomy) (valid : config.validate = .ok ())
    (hget : arena.get id = .ok node) (hnode : node.Ordinary config.direction) (hround : node.paretoRound < 4294967295)
    (hegress : egress.Ordinary) : ∃ d?, config.terms.destination? arena id egress = .ok d? := by
  have hslack := slack_nonneg valid
  obtain ⟨start, hstart⟩ := egressDeparture_answers room valid hnode hegress
  cases start with
  | none => exact ⟨none, bind_eq_ok.mpr ⟨node, hget, bind_eq_ok.mpr ⟨none, hstart, rfl⟩⟩⟩
  | some departure =>
    rw [← config.calculator_direction] at hnode
    obtain ⟨wait, hpos, hlead, hwait⟩ := Calculator.wait_of_egressDeparture hnode hegress hstart
    obtain ⟨hforward, hreverse⟩ := hnode.time
    obtain ⟨added, hadded, hcost⟩ := addedCost_answers room valid hegress hnode.cost hlead hwait
    have hlead' := Calculator.lead_le hslack egress
    have hnonneg : 0 ≤ wait := Int.le_trans (Calculator.lead_nonneg hslack egress) hlead
    obtain ⟨hmin, hday⟩ := hegress.duration
    have hfour := hegress.rides
    rw [config.calculator_direction] at hpos hforward hreverse
    have hspace : wait ≤ 2147138047 ∨ config.direction = .reverse ∧ wait ≤ 2147310848 := by
      cases hdir : config.direction with
      | forward =>
        have := room.forward hdir
        omega
      | reverse =>
        have := (room.reverse hdir).1
        exact Or.inr ⟨rfl, by omega⟩
    have hnatAbs := Direction.natAbs_of_pos hpos hnonneg
    obtain ⟨arrival, harrival⟩ : ∃ arrival, config.direction.plus departure egress.duration = .ok arrival := by
      refine Direction.plus_answers (fun hdir => ?_) fun hdir => ?_
      · have := room.forward hdir
        have := hforward hdir
        simp only [hdir, Direction.pos_forward] at hpos
        unfold Checked.Fits
        omega
      · have := (room.reverse hdir).1
        have := hreverse hdir
        simp only [hdir, Direction.pos_reverse] at hpos
        unfold Checked.Fits
        omega
    rw [← config.calculator_direction] at harrival
    rw [← hnatAbs] at hadded
    exact ⟨_, Terms.destination_answers hget hstart harrival (by unfold Checked.Fits; omega)
      (by unfold Checked.Fits; omega) hadded hcost (by unfold Checked.FitsCount; omega)
      (by unfold Checked.FitsCount; omega)⟩

theorem span_fits (room : config.Roomy) (valid : config.validate = .ok ()) (hd : arena.Ordinary config.direction)
    (hegress : egress.Ordinary) {d : Destination} (hdestination : config.terms.destination? arena id egress = .ok (some d))
    (hwithin : ¬ config.Beyond d.arrival) {iteration : Option Int} {j : Journey}
    (hj : config.journeyMap arena d iteration = .ok j) : Checked.Fits j.span := by
  have hslack := slack_nonneg valid
  obtain ⟨hdir, reach⟩ := hd
  obtain ⟨node, hget, rfl, hjoins⟩ := Terms.destination_of_result hdestination
  rw [journeyMap, ← hdir] at hj
  obtain ⟨departure, elapsed, hdeparture, hlow, hhigh, hends, hspan⟩ := Journey.span_of_ofChain reach hget hj
  have hnode : node.Ordinary config.terms.calculator.direction := by
    rw [show config.terms.calculator.direction = arena.direction from config.calculator_direction.trans hdir.symm]
    exact reach_ordinary reach _ node hget
  obtain ⟨wait, hpos, hlead, hwait⟩ := Calculator.wait_of_egressDeparture hnode hegress hjoins.departure
  obtain ⟨-, harrival⟩ := Direction.plus_eq_ok.mp hjoins.arrival
  rw [show config.terms.calculator.direction = config.direction from config.calculator_direction] at hpos harrival
  have hlead' := Calculator.lead_le hslack egress
  have hnonneg : 0 ≤ wait := Int.le_trans (Calculator.lead_nonneg hslack egress) hlead
  change wait ≤ max (Calculator.lead egress config.transferSlack) 172800 at hwait
  obtain ⟨hmin, hday⟩ := hegress.duration
  rw [hdir, harrival, hpos] at hspan
  cases hforth : config.direction with
  | forward =>
    have := room.forward hforth
    unfold Checked.Fits
    omega
  | reverse =>
    obtain ⟨-, hshort | ⟨earliest, hearliest, hlimit⟩⟩ := room.reverse hforth
    · unfold Checked.Fits
      omega
    · -- the limit holds the journey together where the slack would not
      obtain ⟨hstart, hend⟩ := hends (hdir.trans hforth)
      have hkept : earliest ≤ d.arrival := by
        by_contra hlt
        refine hwithin ?_
        rw [Beyond, hforth]
        exact ⟨earliest, hearliest, Int.not_le.mp hlt⟩
      obtain ⟨hfirst, hlast⟩ := hdeparture
      have hspan' : j.span = departure - d.arrival := by rw [Journey.span, hstart, hend]
      unfold Checked.Fits
      omega

/-- With room every journey listed has a duration, so every offer can be compared. -/
theorem answers_of_roomy (room : config.Roomy) (valid : config.validate = .ok ()) (quiet : config.debug = false) :
    config.Answers := by
  intro environment mismatches acts c ordinary hrun now arena id node egress harena hegress hget hround
  have hc : Collector.IsFor (config.setup environment) c :=
    (Collector.run_isFor (Collector.empty_isFor _ mismatches) hrun).1
  have hhandler : (config.setup environment).handler = none := by
    show config.debugHandler environment = none
    rw [debugHandler, quiet]
    rfl
  have hears (js : List Journey) : (config.setup environment).Hears js := by
    intro handler hmem
    rw [hhandler] at hmem
    cases hmem
  have hnode : node.Ordinary config.direction := harena.direction ▸ reach_ordinary harena.reach id node hget
  obtain ⟨d?, hd⟩ := destination_answers room valid hget hnode hround hegress
  cases d? with
  | none =>
    refine ⟨c, Run.result_bind_eq_ok.mpr ⟨none, ?_, rfl⟩⟩
    rw [hc.setup_eq]
    exact hd
  | some d =>
    by_cases hlimit : (config.setup environment).terms.calculator.exceedsLimit d.arrival = true
    · refine ⟨c, Collector.add_beyond hc hd hlimit fun handler hmem => ?_⟩
      rw [hhandler] at hmem
      cases hmem
    · have hwithin : ¬ config.Beyond d.arrival := fun hbeyond => hlimit (exceedsLimit_iff.mpr hbeyond)
      obtain ⟨node', hget', hprevious, hjoins⟩ := Terms.destination_of_result hd
      cases hget.symm.trans hget'
      obtain ⟨j, hj⟩ : ∃ j, config.journeyMap arena d c.iteration = .ok j := by
        rw [journeyMap, ← harena.direction]
        exact Journey.ofChain_answers_of_reach harena.reach (hprevious ▸ hget) hjoins
      refine Collector.add_answers hc hd (Bool.not_eq_true _ ▸ hlimit) hj (Journey.cost_of_ofChain hj) ?_ (hears _)
      refine List.forall_mem_cons.mpr ⟨span_fits room valid harena hegress hd hwithin hj, fun m hm => ?_⟩
      obtain ⟨_, arena', _, egress', _, hact, hcandidate⟩ := Collector.mem_offered (Collector.run_lists_offered hrun hm)
      obtain ⟨d', hd', hlimit', hm'⟩ := Collector.candidate_of_some hcandidate
      obtain ⟨harena', hegress'⟩ := ordinary _ hact
      refine span_fits room valid harena' hegress' hd' (fun hbeyond => ?_) hm'
      cases hlimit'.symm.trans (exceedsLimit_iff.mpr hbeyond)

/-! ## Without room -/

theorem destination_of_answers (answers : config.Answers) (harena : arena.Ordinary config.direction)
    (hegress : egress.Ordinary) (hget : arena.get id = .ok node) (hround : node.paretoRound < 4294967295) :
    ∃ d?, config.terms.destination? arena id egress = .ok d? := by
  obtain ⟨c, hadd⟩ := answers ⟨.system, fun _ _ => true⟩ (.ofPeriod 1000) [] _ nofun rfl 0 arena id node egress harena
    hegress hget hround
  rcases Collector.add_of_result hadd with ⟨hd, -⟩ | ⟨d, hd, -⟩ | ⟨d, _, _, _, _, hd, -⟩
  · exact ⟨none, hd⟩
  · exact ⟨some d, hd⟩
  · exact ⟨some d, hd⟩

theorem span_of_answers (answers : config.Answers) (harena : arena.Ordinary config.direction)
    (hegress : egress.Ordinary) (hget : arena.get id = .ok node) (hround : node.paretoRound < 4294967295)
    {d : Destination} (hd : config.terms.destination? arena id egress = .ok (some d))
    (hwithin : ¬ config.Beyond d.arrival) :
    ∃ j, config.journeyMap arena d none = .ok j ∧ Checked.Fits j.span := by
  let setup : Setup := config.setup ⟨.system, fun _ _ => true⟩
  have hempty := Collector.empty_isFor setup (.ofPeriod 1000)
  obtain ⟨c, hadd⟩ := answers ⟨.system, fun _ _ => true⟩ (.ofPeriod 1000) [] _ nofun rfl 0 arena id node egress harena
    hegress hget hround
  rcases Collector.add_of_result hadd with
    ⟨hd', -⟩ | ⟨d', hd', hlimit, -⟩ | ⟨d', j, kept, journeys, _, hd', -, hj, hk, -, hc⟩
  · cases hd.symm.trans hd'
  · cases hd.symm.trans hd'
    exact absurd (exceedsLimit_iff.mp hlimit) hwithin
  · cases hd.symm.trans hd'
    refine ⟨j, hj, ?_⟩
    have hrun : ((Collector.empty setup (.ofPeriod 1000)).run [.add 0 arena id egress]).result = .ok c :=
      Run.result_bind_eq_ok.mpr ⟨c, hadd, rfl⟩
    have hlist : c.journeys.members = [j] := by
      rw [hc]
      exact (ParetoSet.members_of_add setup.order.lawful hempty.computes .nil hk).1
    obtain ⟨_, hagain⟩ := answers _ (.ofPeriod 1000) [.add 0 arena id egress] c (by simpa [Collector.Act.Ordinary]
      using ⟨harena, hegress⟩) hrun 0 arena id node egress harena hegress hget hround
    have hfor : Collector.IsFor setup c := (Collector.run_isFor hempty hrun).1
    have hiteration : c.iteration = none := by rw [hc]; rfl
    rcases Collector.add_of_result hagain with ⟨hd', -⟩ | ⟨_, hd', hlimit, -⟩ | ⟨_, j', _, _, _, hd', -, hj', hk', -, -⟩
    · rw [hfor.setup_eq] at hd'
      cases hd.symm.trans hd'
    · rw [hfor.setup_eq] at hd' hlimit
      cases hd.symm.trans hd'
      exact absurd (exceedsLimit_iff.mp hlimit) hwithin
    · rw [hfor.setup_eq] at hd'
      rw [hfor.setup_eq, hiteration] at hj'
      cases hd.symm.trans hd'
      cases hj.symm.trans hj'
      obtain ⟨_, hblocker, -⟩ := Run.result_bind_eq_ok.mp hk'
      rw [Run.result_lift, ParetoSet.blocker, hlist, hfor.advantage_eq] at hblocker
      obtain ⟨_, hself, -⟩ := bind_eq_ok.mp hblocker
      exact Journey.Order.fits_of_advantage_self hself

theorem exists_root {dir : Direction} {departure duration cost time : Int} (hdeparture : OrdinaryTime departure)
    (hduration : OrdinaryDuration duration) (hcost : OrdinaryCost cost) (ht : dir.plus departure duration = .ok time) :
    ∃ (arena : Arena) (node : Arrival), arena.Ordinary dir ∧ arena.get 0 = .ok node ∧ node.time = time ∧
      node.cost = cost ∧ node.paretoRound = 0 := by
  let node : Arrival := ⟨none, 0, 0, time, duration, cost, .access (.walk 0 duration cost)⟩
  have haccess : (Arena.empty dir).access departure (.walk 0 duration cost) = .ok ((Arena.empty dir).push node) :=
    bind_eq_ok.mpr ⟨0, rfl, bind_eq_ok.mpr ⟨time, ht, rfl⟩⟩
  have hreach : Reach Op.isOrdinary ((Arena.empty dir).push node).1 :=
    .step (.access departure (.walk 0 duration cost)) (.empty dir) (decide_eq_true ⟨hdeparture, hduration, hcost⟩)
      (map_eq_ok.mpr ⟨_, haccess, rfl⟩)
  exact ⟨_, node, ⟨rfl, hreach⟩, get_push.mpr (Or.inr ⟨rfl, rfl⟩), rfl, rfl, rfl⟩

theorem arrival_of_answers (answers : config.Answers) (harena : arena.Ordinary config.direction)
    (hget : arena.get id = .ok node) (hround : node.paretoRound < 4294967295) {duration : Int}
    (hduration : OrdinaryDuration duration) :
    ∃ d, config.terms.destination? arena id (.flex 0 duration 0 1 false) = .ok (some d) ∧ Checked.Fits d.arrival ∧
      config.direction.pos d.arrival = config.direction.pos node.time + config.transferSlack + duration := by
  have hegress : (Leg.flex 0 duration 0 1 false).Ordinary :=
    ⟨hduration, show OrdinaryCost 0 by decide, show 1 ≤ 4 by decide, nofun⟩
  obtain ⟨d?, hd⟩ := destination_of_answers answers harena hegress hget hround
  obtain ⟨_, start, hget', hstart, -⟩ := Calculator.egressDeparture_of_destination hd
  cases hget.symm.trans hget'
  obtain ⟨departure, rfl, hpos⟩ := Calculator.start_of_no_hours hstart rfl
  obtain ⟨d, _, rfl, harrival, -, -⟩ := Terms.fits_of_destination hd hget hstart
  obtain ⟨hfits, hpos'⟩ := Direction.plus_eq_ok.mp harrival
  rw [show config.terms.calculator.direction = config.direction from config.calculator_direction] at hpos hpos'
  exact ⟨d, hd, hfits, by rw [hpos', hpos]; rfl⟩

/-- Every wait that there can be for a leg with so many rides is priced, and the price added to the greatest costs. -/
theorem cost_of_answers (answers : config.Answers) (valid : config.validate = .ok ()) {model : CostModel}
    (hmodel : config.costModel = some model) {rides : Nat} (hrides : rides ≤ 4) {lead wait : Int}
    (hlead : lead = if 0 < rides then config.transferSlack else 0) (hlow : lead ≤ wait) (hhigh : wait ≤ max lead 172800) :
    ∃ used, model.egressCost ⟨0, 0, 100000000, rides, false, none⟩ = .ok used ∧
      Checked.Fits (100000000 + (model.waitCost wait + used)) := by
  have hslack := slack_nonneg valid
  have hnonneg : 0 ≤ lead := by
    rw [hlead]
    split
    · exact hslack
    · exact Int.le_refl 0
  -- the arrival stands at the outset of the two days, in the direction of the search
  obtain ⟨outset, houtset, hnow, hmoment⟩ : ∃ outset, OrdinaryTime outset ∧ config.direction.plus outset 0 = .ok outset ∧
      (wait ≤ 172800 → ∃ moment, OrdinaryTime moment ∧
        config.direction.pos moment = config.direction.pos outset + wait) := by
    cases config.direction with
    | forward => exact ⟨0, by decide, rfl, fun hle => ⟨wait, ⟨by omega, hle⟩, by simp⟩⟩
    | reverse =>
      refine ⟨172800, by decide, rfl, fun hle => ⟨172800 - wait, ⟨by omega, by omega⟩, ?_⟩⟩
      simp only [Direction.pos_reverse]
      omega
  obtain ⟨arena, node, harena, hget, rfl, hcost, hround⟩ := exists_root houtset (by decide)
    (show OrdinaryCost 100000000 by decide) hnow
  have priced : ∀ hours, (∀ h ∈ hours, OrdinaryTime h.opens ∧ OrdinaryTime h.closes) →
      (∀ start, config.calculator.egressDeparture node.time ⟨0, 0, 100000000, rides, false, hours⟩ config.transferSlack =
        .ok start → ∃ departure, start = some departure ∧
          config.direction.pos departure = config.direction.pos node.time + wait) →
      ∃ used, model.egressCost ⟨0, 0, 100000000, rides, false, none⟩ = .ok used ∧
        Checked.Fits (100000000 + (model.waitCost wait + used)) := by
    intro hours hordinary hstarts
    have hegress : Leg.Ordinary ⟨0, 0, 100000000, rides, false, hours⟩ :=
      ⟨show OrdinaryDuration 0 by decide, show OrdinaryCost 100000000 by decide, hrides, hordinary⟩
    obtain ⟨d?, hd⟩ := destination_of_answers answers harena hegress hget (by omega)
    obtain ⟨_, start, hget', hstart, -⟩ := Calculator.egressDeparture_of_destination hd
    cases hget.symm.trans hget'
    obtain ⟨departure, rfl, hpos⟩ := hstarts start hstart
    obtain ⟨_, added, -, -, hadded, hfits⟩ := Terms.fits_of_destination hd hget hstart
    rw [Direction.natAbs_of_pos hpos (by omega)] at hadded
    rw [Terms.addedCost_some (show config.terms.costs = some model from hmodel)] at hadded
    simp only [bind_eq_ok, Checked.add_ok_iff] at hadded
    obtain ⟨used, hused, -, rfl⟩ := hadded
    rw [hcost] at hfits
    exact ⟨used, hused, hfits⟩
  have hlead' : ∀ hours, Calculator.lead ⟨0, 0, 100000000, rides, false, hours⟩ config.transferSlack = lead := by
    intro hours
    rw [hlead, Calculator.lead]
    simp [Leg.hasRides]
  by_cases hdays : wait ≤ 172800
  · obtain ⟨moment, hordinary, hpos⟩ := hmoment hdays
    refine priced (some ⟨moment, moment⟩) (fun h hh => ?_) fun start hstart => ⟨moment, ?_, hpos⟩
    · cases hh
      exact ⟨hordinary, hordinary⟩
    · refine Calculator.start_of_moment hstart rfl rfl ?_
      rw [hlead', config.calculator_direction]
      omega
  · refine priced none nofun fun start hstart => ?_
    obtain ⟨departure, rfl, hpos⟩ := Calculator.start_of_no_hours hstart rfl
    rw [hlead', config.calculator_direction] at hpos
    exact ⟨departure, rfl, by omega⟩

theorem reverse_room_of_answers (answers : config.Answers) (hdir : config.direction = .reverse)
    (hroom : config.transferSlack + 172800 ≤ 2147483648) :
    config.transferSlack + 259200 ≤ 2147483647 ∨
      ∃ earliest, config.earliestDeparture = some earliest ∧ 172800 - earliest ≤ 2147483647 := by
  by_contra hnone
  obtain ⟨hlong, hlimit⟩ := not_or.mp hnone
  let root : Arrival := ⟨none, 0, 0, 172800, 0, 0, .access (.walk 0 0 0)⟩
  let ride : Arrival := ⟨some 0, 1, 0, 0, 172800, 0, .transit ⟨0, 172800, 0⟩⟩
  let arena : Arena := ⟨.reverse, #[root, ride]⟩
  have reach : Reach Op.isOrdinary arena :=
    .step (.transit 0 0 0 0 ⟨0, 172800, 0⟩) (.step (.access 172800 (.walk 0 0 0)) (.empty .reverse) (by decide) rfl)
      (by decide) rfl
  have harena : arena.Ordinary config.direction := ⟨hdir.symm, reach⟩
  have hduration : OrdinaryDuration (2147310848 - config.transferSlack) := ⟨by omega, by omega⟩
  have hget : arena.get 1 = .ok ride := rfl
  obtain ⟨d, hd, -, hpos⟩ := arrival_of_answers answers harena hget (by decide) hduration
  rw [hdir] at hpos
  have harrival : d.arrival = -2147310848 := by
    simp only [Direction.pos_reverse] at hpos
    show d.arrival = -2147310848
    have : ride.time = 0 := rfl
    omega
  have hwithin : ¬ config.Beyond d.arrival := by
    rw [Beyond, hdir, harrival]
    rintro ⟨earliest, hearliest, hlt⟩
    exact hlimit ⟨earliest, hearliest, by omega⟩
  have hegress : (Leg.flex 0 (2147310848 - config.transferSlack) 0 1 false).Ordinary :=
    ⟨hduration, show OrdinaryCost 0 by decide, show 1 ≤ 4 by decide, nofun⟩
  obtain ⟨j, hj, hfits⟩ := span_of_answers answers harena hegress hget (by decide) hd hwithin
  rw [journeyMap, hdir] at hj
  obtain ⟨_, _, hprevious, -⟩ := Terms.destination_of_result hd
  have hsteps : arena.chain d.previous = .ok [(1, ride), (0, root)] := by
    rw [hprevious]
    decide +kernel
  obtain ⟨hop, hhop, -, hend⟩ := Journey.ofChain_leaves hsteps rfl hj
  cases hhop
  have hstart := (Journey.ofChain_reaches hj).2 rfl
  rw [Journey.span, hend rfl, hstart, harrival] at hfits
  exact absurd hfits (by decide)

theorem roomy_of_answers (answers : config.Answers) (valid : config.validate = .ok ()) : config.Roomy := by
  have hday : OrdinaryDuration 86400 := by decide
  refine ⟨fun hdir => ?_, fun hdir => ?_, fun model hmodel => ⟨?_, fun wait hlow hhigh => ?_, fun wait hlow hhigh => ?_⟩⟩
  · have hlast : config.direction.plus 172800 86400 = .ok 259200 := by rw [hdir]; rfl
    obtain ⟨arena, node, harena, hget, htime, -, hround⟩ :=
      exists_root (by decide) hday (show OrdinaryCost 0 by decide) hlast
    obtain ⟨d, -, ⟨-, hfits⟩, hpos⟩ := arrival_of_answers answers harena hget (by omega) hday
    simp only [hdir, Direction.pos_forward, htime] at hpos
    omega
  · have hfirst : config.direction.plus 0 86400 = .ok (-86400) := by rw [hdir]; rfl
    obtain ⟨arena, node, harena, hget, htime, -, hround⟩ :=
      exists_root (by decide) hday (show OrdinaryCost 0 by decide) hfirst
    obtain ⟨d, -, ⟨hfits, -⟩, hpos⟩ := arrival_of_answers answers harena hget (by omega) hday
    simp only [hdir, Direction.pos_reverse, htime] at hpos
    have hroom : config.transferSlack + 172800 ≤ 2147483648 := by omega
    exact ⟨hroom, reverse_room_of_answers answers hdir hroom⟩
  · obtain ⟨used, hused, -⟩ := cost_of_answers answers valid hmodel (show 1 ≤ 4 by decide) rfl (Int.le_refl _)
      (Int.le_max_left _ _)
    have := (Checked.add_ok_iff.mp hused).1.2
    change 100000000 + model.transferCost ≤ 2147483647 at this
    omega
  · obtain ⟨used, hused, -, hfits⟩ := cost_of_answers answers valid hmodel (show 0 ≤ 4 by decide) rfl hlow
      (by simpa using hhigh)
    cases hused
    change 100000000 + (model.waitCost wait + 100000000) ≤ 2147483647 at hfits
    omega
  · obtain ⟨used, hused, -, hfits⟩ := cost_of_answers answers valid hmodel (show 1 ≤ 4 by decide) rfl hlow hhigh
    obtain ⟨-, rfl⟩ := Checked.add_ok_iff.mp hused
    change 100000000 + (model.waitCost wait + (100000000 + model.transferCost)) ≤ 2147483647 at hfits
    omega

/-! ## The room that a search needs -/

/-- With debugging off, a valid configuration answers every offer of a search on ordinary data, in any state that such
offers and any boundaries lead to, exactly when its slack and prices leave the room for it. -/
theorem answers_iff_roomy (valid : config.validate = .ok ()) (quiet : config.debug = false) :
    config.Answers ↔ config.Roomy :=
  ⟨fun answers => roomy_of_answers answers valid, fun room => answers_of_roomy room valid quiet⟩

/-- The greatest slack that a forward search has room for, a second more of it, and a ride priced a hundredth too high. -/
theorem answers_iff_roomy_greatest_slack :
    let config : SearchConfig := { SearchConfig.standard with transferSlack := 2147138047, timetable := true }
    let longer : SearchConfig := { config with transferSlack := 2147138048 }
    let dearer : SearchConfig := { SearchConfig.standard with includeCost := true, transferCost := 1947477648 }
    config.Answers ∧ ¬ longer.Answers ∧ ¬ dearer.Answers := by
  intro config longer dearer
  refine ⟨?_, fun answers => ?_, fun answers => ?_⟩
  · have hiff : config.Answers ↔ config.Roomy := answers_iff_roomy (valid_of_isOk (by decide +kernel)) rfl
    exact hiff.mpr ⟨fun _ => by decide, nofun, nofun⟩
  · have hiff : longer.Answers ↔ longer.Roomy := answers_iff_roomy (valid_of_isOk (by decide +kernel)) rfl
    exact absurd ((hiff.mp answers).forward rfl) (by decide)
  · have hiff : dearer.Answers ↔ dearer.Roomy := answers_iff_roomy (valid_of_isOk (by decide +kernel)) rfl
    have room := hiff.mp answers
    obtain ⟨-, -, hrides⟩ := room.costs _ rfl
    exact absurd (hrides 60 (by decide) (by decide)) (by decide +kernel)

/-- Valid configurations and ordinary data that stop an offer: the slack, the price of a ride, and an access leg with so
many rides that the arrival has no next round. -/
theorem valid_config_overflows :
    let slack : SearchConfig := { SearchConfig.standard with transferSlack := 2147483647, latestArrival := some 172800 }
    let price : SearchConfig := { SearchConfig.standard with includeCost := true, transferCost := 2147483647 }
    let root : Arrival := ⟨none, 0, 1, 1060, 60, 0, .access (.walk 1 60 0)⟩
    let arena : Arena := ⟨.forward, #[root]⟩
    let many : Leg := .flex 1 60 0 2147483647 false
    let first : Arrival := ⟨none, 4294967294, 1, 1060, 60, 0, .access many⟩
    let rides : Arena := ⟨.forward, #[first, ⟨some 0, 4294967295, 2, 2000, 1000, 0, .transit ⟨1, 1100, 7⟩⟩]⟩
    let egress : Leg := .flex 2 60 1 1 false
    let offer (config : SearchConfig) (arena : Arena) (id : Nat) : Except Fault Collector :=
      ((Collector.empty (config.setup ⟨.system, fun _ _ => true⟩) (.ofPeriod Collector.mismatchPeriod)).add 0 arena id
        egress).result
    (∀ config ∈ [slack, price, SearchConfig.standard], config.validate.isOk = true ∧ config.debug = false ∧
      config.direction = .forward) ∧
    arena.Ordinary .forward ∧ rides.Ordinary .forward ∧ egress.Ordinary ∧
    (offer slack arena 0).map (·.list) = .error .addOverflow ∧
    (offer price arena 0).map (·.list) = .error .addOverflow ∧
    (offer SearchConfig.standard rides 1).map (·.list) = .error .addOverflow := by
  intro slack price root arena many first rides egress offer
  have reach : Reach Op.isOrdinary arena := .step (.access 1000 (.walk 1 60 0)) (.empty .forward) (by decide) rfl
  have htwice : Checked.mulCount 2147483647 2 = .ok 4294967294 := Checked.mulCount_ok_iff.mpr ⟨by decide, rfl⟩
  have honce : Checked.addCount 4294967294 1 = .ok 4294967295 := Checked.addCount_ok_iff.mpr ⟨by decide, rfl⟩
  have haccess : (Arena.empty .forward).access 1000 many = .ok (⟨.forward, #[first]⟩, 0) :=
    bind_eq_ok.mpr ⟨4294967294, htwice, bind_eq_ok.mpr ⟨1060, rfl, rfl⟩⟩
  have htransit : Arena.transit ⟨.forward, #[first]⟩ 0 2 2000 0 ⟨1, 1100, 7⟩ = .ok (rides, 1) := by
    refine bind_eq_ok.mpr ⟨first, rfl, bind_eq_ok.mpr ⟨940, rfl, bind_eq_ok.mpr ⟨1000, rfl, ?_⟩⟩⟩
    exact bind_eq_ok.mpr ⟨4294967295, honce, rfl⟩
  have reach' : Reach Op.isOrdinary rides :=
    .step (.transit 0 2 2000 0 ⟨1, 1100, 7⟩) (.step (.access 1000 many) (.empty .forward) (by decide)
      (map_eq_ok.mpr ⟨_, haccess, rfl⟩)) (by decide) (map_eq_ok.mpr ⟨_, htransit, rfl⟩)
  refine ⟨?_, ⟨rfl, reach⟩, ⟨rfl, reach'⟩, ⟨by decide, by decide, by decide, nofun⟩, ?_, ?_, ?_⟩
  · decide +kernel
  · decide +kernel
  · decide +kernel
  · decide +kernel

end SearchConfig

end TransitSearch
