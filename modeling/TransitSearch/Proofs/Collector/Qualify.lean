/-
  TransitSearch.Proofs.Collector.Qualify — asking before offering.

  A question names the totals of a journey; an offer brings the journey itself, mapped from
  a chain. Only totals are compared, and where no iteration is set up the map and the
  question let the same time stand in for it, so the set is scanned alike for both
  (`qualify_of_totals`). What is answered is then what the offer does, unless it lies beyond
  the limit, of which the question knows nothing (`qualify_foretells_add`).

  A refusal is for good (`refusal_is_permanent`). The member that stood for it may be
  dropped, but only for one that covers it and so covers all that it covered; and whatever
  is nowhere better than what was refused is refused as well. It may come to a comparison
  that faults, though, with a journey listed later (`refused_question_faults_later`).
-/

import TransitSearch.Proofs.Arena.Built
import TransitSearch.Proofs.Collector.Front
import TransitSearch.Proofs.Direction
import TransitSearch.Proofs.Journey.Map

namespace TransitSearch

open Arena Pareto

/-! ## Totals -/

namespace Journey

/-- The journey without its legs. -/
def totals (j : Journey) : Journey := { j with legs := [] }

theorem Order.advantage_totals (order : Journey.Order) (l r : Journey) :
    order.advantage l.totals r.totals = order.advantage l r := rfl

theorem totals_of_ofChain {dir : Direction} {arena : Arena} {d : Destination} {iteration : Option Int} {j : Journey}
    (h : Map.ofChain dir arena d iteration = .ok j) :
    j.totals = summary (iteration.getD j.startTime) j.startTime j.endTime j.transfers j.cost := by
  obtain ⟨_, _, _, -, -, -, rfl⟩ := ofChain_of_result h
  rfl

end Journey

namespace Collector

variable {setup : Setup} {c : Collector}

theorem qualify_of_totals (hc : IsFor setup c) {j : Journey}
    (hj : j.totals = .summary (c.iteration.getD j.startTime) j.startTime j.endTime j.transfers j.cost) :
    c.qualify j.startTime j.endTime j.transfers j.cost = c.journeys.qualify j := by
  have alike : ∀ a b : Journey, setup.order.advantage a.totals b.totals = c.journeys.advantage a b := by
    intro a b
    rw [hc.advantage_eq, setup.order.advantage_totals]
  unfold qualify
  rw [← hj, ← ParetoSet.qualify_image (υ := Notice) alike j.totals, ← ParetoSet.qualify_image (υ := Notice) alike j]
  rfl

/-! ## Offers that are answered -/

variable {now id : Nat} {arena : Arena} {egress : Leg} {d : Destination}

theorem add_answers (hc : IsFor setup c) (hd : setup.terms.destination? arena id egress = .ok (some d))
    (hlimit : setup.terms.calculator.exceedsLimit d.arrival = false) {j : Journey}
    (hj : setup.map arena d c.iteration = .ok j) (hcost : j.cost = d.cost)
    (hfits : ∀ m ∈ j :: c.list, Checked.Fits m.span) (hears : setup.Hears (j :: c.list)) :
    ∃ c', (c.add now arena id egress).result = .ok c' := by
  obtain ⟨hjfits, hfits⟩ := List.forall_mem_cons.mp hfits
  have comparable : ∀ m ∈ c.journeys.members, ParetoSet.Comparable c.journeys.advantage j m := by
    intro m hm
    rw [hc.advantage_eq]
    exact ⟨Journey.Order.advantage_answers hjfits (hfits m hm), Journey.Order.advantage_answers (hfits m hm) hjfits⟩
  have told : ParetoSet.Hears c.journeys.listener (j :: c.journeys.members) := by
    rw [hc.listener_eq]
    exact hears.listener
  obtain ⟨⟨kept, journeys⟩, hadd⟩ := ParetoSet.add_answers told comparable
  rw [← hc.setup_eq] at hd hlimit hj
  exact ⟨_, add_of_journey hd hlimit hj hcost hadd now⟩

theorem add_beyond (hc : IsFor setup c) (hd : setup.terms.destination? arena id egress = .ok (some d))
    (hlimit : setup.terms.calculator.exceedsLimit d.arrival = true)
    (hreport : ∀ handler ∈ setup.handler, ∃ j, setup.map arena d c.iteration = .ok j ∧ setup.Hears [j]) :
    (c.add now arena id egress).result = .ok c := by
  have rejected : (c.rejectDestination arena d
      (c.setup.terms.calculator.limitReason c.setup.environment.calendar)).result = .ok () := by
    unfold rejectDestination
    rw [hc.setup_eq]
    cases hhandler : setup.handler with
    | none => rfl
    | some handler =>
      obtain ⟨j, hj, hears⟩ := hreport handler hhandler
      refine Run.result_bind_eq_ok.mpr ⟨j, hj, hears handler hhandler _ ?_⟩
      simp [Decision.named]
  rw [← hc.setup_eq] at hd hlimit
  exact add_of_rejection hd hlimit rejected now

/-! ## The question and the offer -/

/-- What is answered to the totals of the journey that an offer would bring is whether the offer adds it, wherever the
offer is answered, and it is while nothing overflows; an offer beyond the limit leaves what is listed as it is. -/
theorem qualify_foretells_add {dir : Direction} (hmap : setup.map = .ofChain dir) (mismatches : Throttle)
    (acts : List Act) (h : ((Collector.empty setup mismatches).run acts).result = .ok c)
    (hd : setup.terms.destination? arena id egress = .ok (some d)) (now : Nat) :
    (setup.terms.calculator.exceedsLimit d.arrival = false →
      ∀ j, Journey.Map.ofChain dir arena d c.iteration = .ok j →
        ((∀ m ∈ j :: c.list, Checked.Fits m.span) → setup.Hears (j :: c.list) →
          ∃ c', (c.add now arena id egress).result = .ok c') ∧
        ∀ c', (c.add now arena id egress).result = .ok c' →
          ∃ kept, c.qualify j.startTime j.endTime j.transfers j.cost = .ok kept ∧
            (c.journeys.add j).result = .ok (kept, c'.journeys) ∧
            (kept = true → c'.list = undominated setup.order.better j c.list ++ [j] ∧ c'.reachedThisRound = true) ∧
            (kept = false → c'.list = c.list ∧ c'.reachedThisRound = c.reachedThisRound)) ∧
    (setup.terms.calculator.exceedsLimit d.arrival = true →
      ((∀ handler ∈ setup.handler, ∃ j, Journey.Map.ofChain dir arena d c.iteration = .ok j ∧ setup.Hears [j]) →
        ∃ c', (c.add now arena id egress).result = .ok c') ∧
      ∀ c', (c.add now arena id egress).result = .ok c' →
        c'.list = c.list ∧ c'.reachedThisRound = c.reachedThisRound) := by
  have hc : IsFor setup c := (run_isFor (empty_isFor setup mismatches) h).1
  constructor
  · intro hlimit j hj
    refine ⟨add_answers hc hd hlimit (by rw [hmap]; exact hj) (Journey.cost_of_ofChain hj), fun c' ha => ?_⟩
    have hcases := add_of_result ha
    rw [hc.setup_eq] at hcases
    rcases hcases with ⟨hd', -⟩ | ⟨d', hd', hlimit', -⟩ | ⟨d', j', kept, journeys, _, hd', -, hj', hk, -, rfl⟩
    · cases hd.symm.trans hd'
    · cases hd.symm.trans hd'
      cases hlimit.symm.trans hlimit'
    · cases hd.symm.trans hd'
      rw [hmap] at hj'
      cases hj.symm.trans hj'
      have hquestion := qualify_of_totals hc (Journey.totals_of_ofChain hj)
      refine ⟨kept, hquestion.trans (ParetoSet.qualify_of_add hk), hk, ?_⟩
      rcases ParetoSet.add_of_result hc.computes hk with ⟨-, rfl, rfl⟩ | ⟨-, rfl, rfl⟩
      · exact ⟨nofun, fun _ => ⟨rfl, Bool.or_false _⟩⟩
      · exact ⟨fun _ => ⟨ParetoSet.accepting_members _ _, Bool.or_true _⟩, nofun⟩
  · intro hlimit
    refine ⟨fun hreport => ⟨c, add_beyond hc hd hlimit (by rw [hmap]; exact hreport)⟩, fun c' ha => ?_⟩
    have hcases := add_of_result ha
    rw [hc.setup_eq] at hcases
    rcases hcases with ⟨-, rfl⟩ | ⟨_, -, -, rfl⟩ | ⟨d', _, _, _, _, hd', hlimit', -⟩
    · exact ⟨rfl, rfl⟩
    · exact ⟨rfl, rfl⟩
    · cases hd.symm.trans hd'
      cases hlimit.symm.trans hlimit'

/-- A shorter walk from the ride is foretold to be kept, and drops the journey listed. A walk from the access stop late
in the day is short enough to be kept, but lies beyond the limit. -/
theorem qualify_foretells_add_limit :
    let setup : Setup :=
      ⟨⟨.timetable, .forward⟩, Terms.collaborators ⟨⟨.forward, some 1000⟩, none, 0⟩, .ofChain .forward,
        some Notice.recording, ⟨.system, fun _ _ => true⟩⟩
    let arena : Arena := ⟨.forward, #[⟨none, 0, 1, 100, 50, 0, .access (.walk 1 50 0)⟩,
      ⟨some 0, 1, 2, 300, 250, 0, .transit ⟨1, 110, 7⟩⟩, ⟨none, 0, 1, 990, 10, 0, .access (.walk 1 10 0)⟩]⟩
    let acts : List Act := [.hear (.iterationStart 50), .add 0 arena 1 (.walk 2 70 0)]
    let j : Journey := ⟨50, 50, 360, 0, 0, [⟨.access 1, 50, 100, 0⟩, ⟨.transit 1 2 7, 110, 300, 0⟩,
      ⟨.egress 2, 300, 360, 0⟩]⟩
    ∃ c, ((Collector.empty setup (.ofPeriod 1000)).run acts).result = .ok c ∧ c.list.map (·.endTime) = [370] ∧
      (∃ c', (c.add 0 arena 1 (.walk 2 60 0)).result = .ok c' ∧ c.qualify 50 360 0 0 = .ok true ∧ c'.list = [j]) ∧
      ∃ c', (c.add 0 arena 2 (.walk 1 20 0)).result = .ok c' ∧ c.qualify 980 1010 0 0 = .ok true ∧
        c'.list = c.list := by
  intro setup arena acts j
  let first : Journey := ⟨50, 50, 370, 0, 0, [⟨.access 1, 50, 100, 0⟩, ⟨.transit 1 2 7, 110, 300, 0⟩,
    ⟨.egress 2, 300, 370, 0⟩]⟩
  have hrun : (((Collector.empty setup (.ofPeriod 1000)).run acts).result.map fun c =>
      (c.list, c.iteration, c.qualify 50 360 0 0, c.qualify 980 1010 0 0)) =
      .ok ([first], some 50, .ok true, .ok true) := by decide +kernel
  obtain ⟨c, hc⟩ := ok_of_isOk (x := ((Collector.empty setup (.ofPeriod 1000)).run acts).result) (by decide +kernel)
  rw [hc] at hrun
  obtain ⟨hlist, hrun⟩ := Prod.mk.inj (Except.ok.inj hrun)
  obtain ⟨hiteration, hrun⟩ := Prod.mk.inj hrun
  obtain ⟨hride, hlate⟩ := Prod.mk.inj hrun
  have hears (js : List Journey) : setup.Hears js := by
    intro handler hhandler decision _
    cases hhandler
    rfl
  refine ⟨c, hc, by rw [hlist]; rfl, ?_, ?_⟩
  · have hd : setup.terms.destination? arena 1 (.walk 2 60 0) = .ok (some ⟨1, .walk 2 60 0, 300, 360, 0, 2, 0⟩) := by
      decide +kernel
    have hj : Journey.Map.ofChain .forward arena ⟨1, .walk 2 60 0, 300, 360, 0, 2, 0⟩ c.iteration = .ok j := by
      rw [hiteration]
      decide +kernel
    obtain ⟨hanswers, hforetold⟩ := (qualify_foretells_add rfl (.ofPeriod 1000) acts hc hd 0).1 rfl j hj
    obtain ⟨c', hc'⟩ := hanswers (by rw [hlist]; decide) (hears _)
    obtain ⟨kept, hkept, -, hyes, -⟩ := hforetold c' hc'
    cases hkept.symm.trans hride
    refine ⟨c', hc', hride, ?_⟩
    rw [(hyes rfl).1, hlist]
    decide
  · have hd : setup.terms.destination? arena 2 (.walk 1 20 0) = .ok (some ⟨2, .walk 1 20 0, 990, 1010, 0, 1, 0⟩) := by
      decide +kernel
    obtain ⟨j', hj'⟩ := ok_of_isOk (x := Journey.Map.ofChain .forward arena ⟨2, .walk 1 20 0, 990, 1010, 0, 1, 0⟩
      (some 50)) (by decide +kernel)
    rw [← hiteration] at hj'
    obtain ⟨hanswers, hunchanged⟩ := (qualify_foretells_add rfl (.ofPeriod 1000) acts hc hd 0).2 rfl
    obtain ⟨c', hc'⟩ := hanswers fun handler _ => ⟨j', hj', hears _⟩
    exact ⟨c', hc', hlate, (hunchanged c' hc').1⟩

/-! ## Refusals -/

/-- What a question is about, with the iteration in use. -/
def question (c : Collector) (departure arrival : Int) (transfers : Nat) (cost : Int) : Journey :=
  .summary (c.iteration.getD departure) departure arrival transfers cost

theorem qualify_fault (hc : IsFor setup c) {departure arrival : Int} {transfers : Nat} {cost : Int} {e : Fault}
    (h : c.qualify departure arrival transfers cost = .error e) :
    e = .subOverflow ∧ (¬ Checked.Fits (arrival - departure) ∨ ∃ j ∈ c.list, ¬ Checked.Fits j.span) := by
  have hscan : c.journeys.blocker (c.question departure arrival transfers cost) = .error e := by
    unfold qualify ParetoSet.qualify at h
    cases hb : c.journeys.blocker (c.question departure arrival transfers cost) with
    | error fault =>
      rw [← question, hb] at h
      cases h
      rfl
    | ok r =>
      rw [← question, hb] at h
      cases h
  obtain ⟨j, hj, hfault⟩ := ParetoSet.blockerFrom_fault hscan
  rw [hc.advantage_eq] at hfault
  rcases hfault with hfault | hfault
  · obtain ⟨rfl, hfits⟩ := Journey.Order.advantage_fault hfault
    exact ⟨rfl, hfits.imp_right fun hfits => ⟨j, hj, hfits⟩⟩
  · obtain ⟨rfl, hfits⟩ := Journey.Order.advantage_fault hfault
    exact ⟨rfl, hfits.symm.imp_right fun hfits => ⟨j, hj, hfits⟩⟩

theorem run_covers {xs : List Journey} {acts : List Act} {c' : Collector} (hc : IsFor setup c)
    (hf : IsFront setup.order.better xs c.list) (h : (c.run acts).result = .ok c') :
    ∀ m ∈ c.list, ∃ m' ∈ c'.list, Covers setup.order.better m' m := by
  intro m hm
  rw [hf.eq_front] at hm
  obtain ⟨-, hf'⟩ := run_front acts hc hf h
  exact hf'.covered m (List.mem_append_left _ (front_subset hm))

/-- What was refused once is refused after any further acts, and with it whatever is better on no axis that counts:
the time in the direction of the search, transfers, duration, the cost where it is tracked, and where iterations are
tracked the departure of the one in use. No answer is ever another, and there is one as long as durations are in
range, that of the question and those of the journeys listed. -/
theorem refusal_is_permanent (setup : Setup) (mismatches : Throttle) (acts : List Act) {c c' : Collector}
    (h : ((Collector.empty setup mismatches).run acts).result = .ok c) {departure arrival : Int} {transfers : Nat}
    {cost : Int} (hrefused : c.qualify departure arrival transfers cost = .ok false) {more : List Act}
    (hmore : (c.run more).result = .ok c') {departure' arrival' : Int} {transfers' : Nat} {cost' : Int}
    (hforward : setup.order.direction = .forward → arrival ≤ arrival')
    (hreverse : setup.order.direction = .reverse → departure' ≤ departure)
    (htransfers : transfers ≤ transfers') (hduration : arrival - departure ≤ arrival' - departure')
    (hcost : setup.order.criteria.tracksCost = true → cost ≤ cost')
    (hiteration : setup.order.criteria.tracksIteration = true →
      setup.order.direction.NoLater (c'.iteration.getD departure') (c.iteration.getD departure)) :
    (∀ kept, c'.qualify departure' arrival' transfers' cost' = .ok kept → kept = false) ∧
    (Checked.Fits (arrival' - departure') → (∀ j ∈ c'.list, Checked.Fits j.span) →
      c'.qualify departure' arrival' transfers' cost' = .ok false) := by
  obtain ⟨hc, hf⟩ := run_front acts (empty_isFor setup mismatches) isFront_nil h
  obtain ⟨hc', hf'⟩ := run_front more hc hf hmore
  have hworse : Covers setup.order.better (c.question departure arrival transfers cost)
      (c'.question departure' arrival' transfers' cost') := by
    refine Journey.Order.covers_iff_asGood.mpr
      ⟨hforward, hreverse, htransfers, hduration, hcost, fun htracks hdir => ?_, fun htracks hdir => ?_⟩
    · have hlater := hiteration htracks
      rwa [hdir, Direction.noLater_forward] at hlater
    · have hlater := hiteration htracks
      rwa [hdir, Direction.noLater_reverse] at hlater
  have refused : ∀ kept, c'.qualify departure' arrival' transfers' cost' = .ok kept → kept = false := by
    intro kept hanswer
    -- the member that stood for the refusal is covered still, and so is all that is nowhere better
    obtain ⟨m, hm, hcovers⟩ :=
      (ParetoSet.refuses_iff_covered setup.order.lawful hc.computes hf.apart hrefused).mp rfl
    obtain ⟨m', hm', hcovers'⟩ := run_covers hc hf hmore m hm
    exact (ParetoSet.refuses_iff_covered setup.order.lawful hc'.computes hf'.apart hanswer).mpr
      ⟨m', hm', setup.order.lawful.trans hcovers' (setup.order.lawful.trans hcovers hworse)⟩
  refine ⟨refused, fun hfits hlist => ?_⟩
  cases hanswer : c'.qualify departure' arrival' transfers' cost' with
  | error e =>
    obtain ⟨-, hown | ⟨j, hj, hlisted⟩⟩ := qualify_fault hc' hanswer
    · exact absurd hfits hown
    · exact absurd (hlist j hj) hlisted
  | ok kept => rw [refused kept hanswer]

/-- The journey that a question was refused for is dropped, and an earlier iteration follows; a longer journey with a
transfer more is refused. -/
theorem refusal_is_permanent_dropped :
    let setup : Setup := ⟨⟨.timetable, .forward⟩, Terms.collaborators ⟨⟨.forward, none⟩, none, 0⟩, .ofChain .forward,
      none, ⟨.system, fun _ _ => true⟩⟩
    let arena : Arena := ⟨.forward, #[⟨none, 0, 1, 100, 50, 0, .access (.walk 1 50 0)⟩,
      ⟨some 0, 1, 2, 300, 250, 0, .transit ⟨1, 110, 7⟩⟩]⟩
    let acts : List Act := [.hear (.iterationStart 50), .add 0 arena 1 (.walk 2 70 0)]
    let more : List Act := [.add 0 arena 1 (.walk 2 60 0), .hear (.iterationStart 40), .hear (.roundStart 1)]
    ∃ c c', ((Collector.empty setup (.ofPeriod 1000)).run acts).result = .ok c ∧ c.qualify 50 370 0 0 = .ok false ∧
      c.list.map (·.endTime) = [370] ∧ (c.run more).result = .ok c' ∧ c'.list.map (·.endTime) = [360] ∧
      c'.qualify 40 375 1 0 = .ok false := by
  intro setup arena acts more
  let both := (Collector.empty setup (.ofPeriod 1000)).run acts >>= fun c => c.run more >>= fun c' => pure (c, c')
  have hbefore : (both.result.map fun p => (p.1.qualify 50 370 0 0, p.1.iteration, p.1.list.map (·.endTime))) =
      .ok (.ok false, some 50, [370]) := by decide +kernel
  have hafter : (both.result.map fun p => (p.2.iteration, p.2.list.map fun j => (j.startTime, j.endTime))) =
      .ok (some 40, [(50, 360)]) := by decide +kernel
  obtain ⟨⟨c, c'⟩, hc⟩ := ok_of_isOk (x := both.result) (by decide +kernel)
  rw [hc] at hbefore hafter
  obtain ⟨hrefused, hbefore⟩ := Prod.mk.inj (Except.ok.inj hbefore)
  obtain ⟨hiteration, hfirst⟩ := Prod.mk.inj hbefore
  obtain ⟨hiteration', hlist⟩ := Prod.mk.inj (Except.ok.inj hafter)
  obtain ⟨c₁, hacts, hc⟩ := Run.result_bind_eq_ok.mp hc
  obtain ⟨c₂, hmore, hpair⟩ := Run.result_bind_eq_ok.mp hc
  cases hpair
  have hnoLater : setup.order.criteria.tracksIteration = true →
      setup.order.direction.NoLater (c'.iteration.getD 40) (c.iteration.getD 50) := by
    intro _
    rw [show c'.iteration = some 40 from hiteration', show c.iteration = some 50 from hiteration]
    decide
  obtain ⟨j, hj, htimes⟩ := List.map_eq_singleton_iff.mp hlist
  obtain ⟨hstart, hend⟩ := Prod.mk.inj htimes
  have hfits : ∀ k ∈ c'.list, Checked.Fits k.span := by
    intro k hk
    rw [hj, List.mem_singleton] at hk
    rw [hk, Journey.span, hstart, hend]
    decide
  refine ⟨c, c', hacts, hrefused, hfirst, hmore, by rw [hj, List.map_singleton, hend], ?_⟩
  exact (refusal_is_permanent setup (.ofPeriod 1000) acts hacts hrefused hmore (fun _ => by decide) nofun
    (by decide) (by decide) nofun hnoLater).2 (by decide) hfits

/-- A question is refused for the one journey listed. A journey that is longer than 32 bits can hold is listed next, and
then one that drops the first; the same question, now compared with the long one, ends in a fault. A question that is
itself too long does so at once. -/
theorem refused_question_faults_later :
    let setup : Setup := ⟨⟨.standard, .forward⟩, Terms.collaborators ⟨⟨.forward, none⟩, none, 0⟩, .ofChain .forward,
      none, ⟨.system, fun _ _ => true⟩⟩
    let arena : Arena := ⟨.forward, #[⟨none, 0, 1, 10, 10, 0, .access (.walk 1 10 0)⟩,
      ⟨some 0, 1, 2, 20, 20, 0, .transit ⟨1, 10, 7⟩⟩,
      ⟨none, 0, 1, -2147483588, 60, 0, .access (.walk 1 60 0)⟩,
      ⟨some 2, 1, 2, -1, 2147483647, 0, .transit ⟨1, -2147483588, 7⟩⟩,
      ⟨none, 0, 1, 15, 5, 0, .access (.walk 1 5 0)⟩, ⟨some 4, 1, 2, 20, 10, 0, .transit ⟨1, 15, 7⟩⟩]⟩
    let acts : List Act := [.add 0 arena 1 (.flex 2 80 0 1 false)]
    let more : List Act := [.add 0 arena 3 (.flex 2 51 0 2 false), .add 0 arena 5 (.flex 2 70 0 1 false)]
    Reach Op.inRange arena ∧
    ∃ c c', ((Collector.empty setup (.ofPeriod 1000)).run acts).result = .ok c ∧ (c.run more).result = .ok c' ∧
      c.list.map (fun j => (j.startTime, j.endTime, j.transfers)) = [(0, 100, 1)] ∧
      c'.list.map (fun j => (j.startTime, j.endTime, j.transfers)) = [(-2147483648, 50, 2), (10, 90, 1)] ∧
      c.qualify 50 200 2 0 = .ok false ∧ c'.qualify 50 200 2 0 = .error .subOverflow ∧
      c.qualify (-2147483648) 200 2 0 = .error .subOverflow := by
  intro setup arena acts more
  let both := (Collector.empty setup (.ofPeriod 1000)).run acts >>= fun c => c.run more >>= fun c' => pure (c, c')
  have hlists : (both.result.map fun p => (p.1.list.map (fun j => (j.startTime, j.endTime, j.transfers)),
      p.2.list.map (fun j => (j.startTime, j.endTime, j.transfers)))) =
      .ok ([(0, 100, 1)], [(-2147483648, 50, 2), (10, 90, 1)]) := by decide +kernel
  have hanswers : (both.result.map fun p =>
      (p.1.qualify 50 200 2 0, p.2.qualify 50 200 2 0, p.1.qualify (-2147483648) 200 2 0)) =
      .ok (.ok false, .error .subOverflow, .error .subOverflow) := by decide +kernel
  have reach : Reach Op.inRange arena :=
    .step (.transit 4 2 20 0 ⟨1, 15, 7⟩) (.step (.access 10 (.walk 1 5 0))
      (.step (.transit 2 2 (-1) 0 ⟨1, -2147483588, 7⟩) (.step (.access (-2147483648) (.walk 1 60 0))
        (.step (.transit 0 2 20 0 ⟨1, 10, 7⟩) (.step (.access 0 (.walk 1 10 0)) (.empty .forward) rfl rfl)
          rfl rfl) rfl rfl) rfl rfl) rfl rfl) rfl rfl
  obtain ⟨⟨c, c'⟩, hboth⟩ := ok_of_isOk (x := both.result) (by decide +kernel)
  rw [hboth] at hlists hanswers
  obtain ⟨hbefore, hafter⟩ := Prod.mk.inj (Except.ok.inj hlists)
  obtain ⟨hrefused, hanswers⟩ := Prod.mk.inj (Except.ok.inj hanswers)
  obtain ⟨hfault, hlong⟩ := Prod.mk.inj hanswers
  obtain ⟨_, hacts, hboth⟩ := Run.result_bind_eq_ok.mp hboth
  obtain ⟨_, hmore, hpair⟩ := Run.result_bind_eq_ok.mp hboth
  cases hpair
  exact ⟨reach, c, c', hacts, hmore, hbefore, hafter, hrefused, hfault, hlong⟩

end Collector

end TransitSearch
