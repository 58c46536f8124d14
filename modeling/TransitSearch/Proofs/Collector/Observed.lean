/-
  TransitSearch.Proofs.Collector.Observed — a debug handler only observes.

  The collector `plain` is the same collector without its handler. Whatever the handler
  answers is dropped, so a collector that its handler does not stop runs in lockstep with
  the plain one: every act leaves the plain one of what it leaves with the handler
  (`act_plain`, `run_plain`). The other way it need not be so, since a journey that lies
  beyond the limit is mapped for the handler alone.

  What an offer tells the handler is worked out from the journeys listed before it: beyond
  the limit one rejection (`told_beyond`), within it the decisions of the set
  (`told_within`). The log has its entries before them and after them, never in between.
-/

import TransitSearch.Proofs.Collector.Run
import TransitSearch.Proofs.ParetoSet.Journal

namespace TransitSearch

open Pareto

/-- All that a handler writes when it is told of these decisions one after the other. -/
def Decision.told {α ω : Type} (handler : DebugHandler α ω) (ds : List (Decision α)) : List ω :=
  ds.flatMap fun d => (handler d).written

theorem Decision.told_listener {α ω : Type} (handler : DebugHandler α ω) (es : List (SetEvent α)) :
    ParetoSet.told (listener handler) es = told handler (es.map .ofSetEvent) := by
  rw [told, List.flatMap_map]
  rfl

namespace Collector

/-- The same collector without a debug handler. -/
def plain (c : Collector) : Collector :=
  { c with setup := { c.setup with handler := none }, journeys := c.journeys.setListener ParetoSet.silent }

variable {setup : Setup} {c c' : Collector}

/-! ## Without the handler -/

theorem empty_plain (setup : Setup) (mismatches : Throttle) :
    (empty setup mismatches).plain = empty { setup with handler := none } mismatches := rfl

theorem qualify_plain (c : Collector) (departure arrival : Int) (transfers : Nat) (cost : Int) :
    c.plain.qualify departure arrival transfers cost = c.qualify departure arrival transfers cost := rfl

theorem add_plain (hc : IsFor setup c) {now id : Nat} {arena : Arena} {egress : Leg}
    (h : (c.add now arena id egress).result = .ok c') :
    (c.plain.add now arena id egress).result = .ok c'.plain := by
  rcases add_steps h with ⟨hd, rfl, -⟩ | ⟨d, hd, hlimit, rfl, -, -⟩ | ⟨d, j, kept, journeys, mismatches, hd, hlimit,
    hj, hcheck, hk, rfl, -⟩
  · exact Run.result_bind_eq_ok.mpr ⟨none, hd, rfl⟩
  · exact add_of_rejection (c := c'.plain) hd hlimit rfl now
  · have hsilent := ParetoSet.add_silent hc.computes hk
    exact add_of_check (c := c.plain) hd hlimit hj hcheck hsilent

theorem act_plain (hc : IsFor setup c) {a : Act} (h : (c.act a).result = .ok c') :
    (c.plain.act a).result = .ok c'.plain := by
  cases a with
  | add now arena id egress => exact add_plain hc h
  | qualify departure arrival transfers cost =>
    obtain ⟨b, hb, h⟩ := Run.result_bind_eq_ok.mp h
    cases h
    exact Run.result_bind_eq_ok.mpr ⟨b, hb, rfl⟩
  | reject arena id egress reason =>
    rw [act_reject_of_result h]
    rfl
  | hear b =>
    cases h
    cases b <;> rfl

theorem run_plain {acts : List Act} : ∀ {c c' : Collector}, IsFor setup c → (c.run acts).result = .ok c' →
    (c.plain.run acts).result = .ok c'.plain := by
  induction acts with
  | nil =>
    intro c c' _ h
    cases h
    rfl
  | cons a rest ih =>
    intro c c' hc h
    obtain ⟨t, ht, h⟩ := Run.result_bind_eq_ok.mp h
    exact Run.result_bind_eq_ok.mpr ⟨t.plain, act_plain hc ht, ih (act_isFor hc ht).1 h⟩

theorem run_take {acts : List Act} : ∀ {c c' : Collector}, (c.run acts).result = .ok c' → ∀ n,
    ∃ u, (c.run (acts.take n)).result = .ok u := by
  induction acts with
  | nil =>
    intro c c' _ n
    rw [List.take_nil]
    exact ⟨c, rfl⟩
  | cons a rest ih =>
    intro c c' h n
    cases n with
    | zero => exact ⟨c, rfl⟩
    | succ n =>
      obtain ⟨t, ht, h⟩ := Run.result_bind_eq_ok.mp h
      obtain ⟨u, hu⟩ := ih h n
      exact ⟨u, Run.result_bind_eq_ok.mpr ⟨t, ht, hu⟩⟩

/-! ## What the handler is told -/

variable {handler : DebugHandler Journey Notice}

theorem rejectDestination_written (hhandler : c.setup.handler = some handler) {arena : Arena} {d : Destination}
    {reason : String} (h : (c.rejectDestination arena d reason).result = .ok ()) :
    ∃ j, c.setup.map arena d c.iteration = .ok j ∧
      (c.rejectDestination arena d reason).written = Decision.told handler [.reject j none reason] := by
  simp only [rejectDestination, hhandler, Run.result_bind_eq_ok, Run.result_lift] at h
  obtain ⟨j, hj, -⟩ := h
  refine ⟨j, hj, ?_⟩
  simp [rejectDestination, hhandler, hj, Decision.told]

theorem set_written (hc : IsFor setup c) (hhandler : setup.handler = some handler) {j : Journey} {kept : Bool}
    {journeys : ParetoSet Journey Notice} (h : (c.journeys.add j).result = .ok (kept, journeys)) :
    (c.journeys.add j).written =
      Decision.told handler ((ParetoSet.events setup.order.better j c.list).map .ofSetEvent) := by
  have hlistener : c.journeys.listener = Decision.listener handler := by
    rw [hc.listener_eq, Setup.listener, hhandler]
  rw [ParetoSet.add_written hc.computes h, hlistener, Decision.told_listener]
  rfl

variable {now id : Nat} {arena : Arena} {egress : Leg} {d : Destination}

theorem told_beyond (hc : IsFor setup c) (hhandler : setup.handler = some handler)
    (hd : setup.terms.destination? arena id egress = .ok (some d))
    (hlimit : setup.terms.calculator.exceedsLimit d.arrival = true)
    (ha : (c.add now arena id egress).result = .ok c') :
    ∃ j, setup.map arena d c.iteration = .ok j ∧ (c.add now arena id egress).written =
      Decision.told handler [.reject j none (setup.terms.calculator.limitReason setup.environment.calendar)] := by
  have hsteps := add_steps ha
  rw [hc.setup_eq] at hsteps
  rcases hsteps with ⟨hd', -⟩ | ⟨d', hd', -, -, hreport, hwritten⟩ | ⟨d', _, _, _, _, hd', hwithin, -⟩
  · cases hd.symm.trans hd'
  · cases hd.symm.trans hd'
    obtain ⟨j, hj, htold⟩ := rejectDestination_written (hc.setup_eq ▸ hhandler) hreport
    rw [hc.setup_eq] at hj
    exact ⟨j, hj, hwritten.trans htold⟩
  · cases hd.symm.trans hd'
    cases hlimit.symm.trans hwithin

theorem told_within (hc : IsFor setup c) (hhandler : setup.handler = some handler)
    (hd : setup.terms.destination? arena id egress = .ok (some d))
    (hlimit : setup.terms.calculator.exceedsLimit d.arrival = false)
    (ha : (c.add now arena id egress).result = .ok c') :
    ∃ j, setup.map arena d c.iteration = .ok j ∧
      ((∃ m ∈ c.list, setup.order.AsGood m j ∧ c'.list = c.list ∧
        (c.add now arena id egress).written = (checkCost setup.environment c.mismatches now arena d j).written ++
          Decision.told handler [.reject j (some m) "Dominated by an existing element"]) ∨
      c'.list = undominated setup.order.better j c.list ++ [j] ∧
        (c.add now arena id egress).written = (checkCost setup.environment c.mismatches now arena d j).written ++
          Decision.told handler ((c.list.filter (dominates setup.order.better j)).map
            (.drop · (some j) "Dominated by a new element") ++ [.accept j]) ++
            (logReached setup.environment d).written) := by
  have hsteps := add_steps ha
  rw [hc.setup_eq] at hsteps
  rcases hsteps with ⟨hd', -⟩ | ⟨d', hd', hbeyond, -⟩ | ⟨d', j, kept, journeys, mismatches, hd', -, hj, -, hk, rfl,
    hwritten⟩
  · cases hd.symm.trans hd'
  · cases hd.symm.trans hd'
    cases hlimit.symm.trans hbeyond
  · cases hd.symm.trans hd'
    rw [set_written hc hhandler hk] at hwritten
    refine ⟨j, hj, ?_⟩
    rcases ParetoSet.add_of_result hc.computes hk with ⟨⟨m, hm⟩, rfl, rfl⟩ | ⟨hfree, rfl, rfl⟩
    · obtain ⟨hmem, hcovers⟩ := ParetoSet.blocker_covers hm
      refine Or.inl ⟨m, hmem, Journey.Order.covers_iff_asGood.mp hcovers, rfl, ?_⟩
      rw [hwritten, ParetoSet.events, list, hm]
      simp [Decision.ofSetEvent]
    · refine Or.inr ⟨ParetoSet.accepting_members _ _, ?_⟩
      rw [hwritten, ParetoSet.events, list, hfree]
      simp [ParetoSet.drops, Decision.ofSetEvent, Function.comp_def]

/-! ## Any acts -/

/-- Whatever is done with a collector that its debug handler does not stop, the collector without the handler is not
stopped either, and after every act both list the same journeys, have the same flag and iteration, and answer every
question alike. Of an offer without a destination the handler is told nothing. Of one beyond the limit it is told that
its journey is rejected for the limit, with no other journey as the cause. Of any other it is told either that its
journey is rejected for one listed that it beats nowhere, or that each journey that leaves the list is dropped for it,
in the order of the list, and then that it is accepted. The warning of a cost that disagrees comes before. -/
theorem handler_only_observes (hhandler : setup.handler = some handler) (mismatches : Throttle) (acts : List Act)
    (h : ((Collector.empty setup mismatches).run acts).result = .ok c) :
    (∀ n, ∃ u v, ((Collector.empty setup mismatches).run (acts.take n)).result = .ok u ∧
      ((Collector.empty { setup with handler := none } mismatches).run (acts.take n)).result = .ok v ∧
      v.list = u.list ∧ v.reachedThisRound = u.reachedThisRound ∧ v.iteration = u.iteration ∧
      ∀ departure arrival transfers cost,
        v.qualify departure arrival transfers cost = u.qualify departure arrival transfers cost) ∧
    ∀ {now arena id egress c'}, (c.add now arena id egress).result = .ok c' →
      (setup.terms.destination? arena id egress = .ok none → (c.add now arena id egress).written = []) ∧
      ∀ d, setup.terms.destination? arena id egress = .ok (some d) → ∃ j, setup.map arena d c.iteration = .ok j ∧
        (setup.terms.calculator.exceedsLimit d.arrival = true → (c.add now arena id egress).written =
          Decision.told handler [.reject j none (setup.terms.calculator.limitReason setup.environment.calendar)]) ∧
        (setup.terms.calculator.exceedsLimit d.arrival = false →
          (∃ m ∈ c.list, setup.order.AsGood m j ∧ c'.list = c.list ∧
            (c.add now arena id egress).written = (checkCost setup.environment c.mismatches now arena d j).written ++
              Decision.told handler [.reject j (some m) "Dominated by an existing element"]) ∨
          c'.list = c.list.filter (!dominates setup.order.better j ·) ++ [j] ∧
            (c.add now arena id egress).written = (checkCost setup.environment c.mismatches now arena d j).written ++
              Decision.told handler ((c.list.filter (dominates setup.order.better j)).map
                (.drop · (some j) "Dominated by a new element") ++ [.accept j]) ++
                (logReached setup.environment d).written) := by
  have hnew : IsFor setup (.empty setup mismatches) := empty_isFor setup mismatches
  have hc : IsFor setup c := (run_isFor hnew h).1
  constructor
  · intro n
    obtain ⟨u, hu⟩ := run_take h n
    have hv := run_plain hnew hu
    rw [empty_plain] at hv
    exact ⟨u, u.plain, hu, hv, rfl, rfl, rfl, u.qualify_plain⟩
  · intro now arena id egress c' ha
    refine ⟨fun hd => ?_, fun d hd => ?_⟩
    · rw [← hc.setup_eq] at hd
      simp [add, hd]
    · by_cases hlimit : setup.terms.calculator.exceedsLimit d.arrival = true
      · obtain ⟨j, hj, hwritten⟩ := told_beyond hc hhandler hd hlimit ha
        refine ⟨j, hj, fun _ => hwritten, fun hwithin => ?_⟩
        cases hlimit.symm.trans hwithin
      · obtain ⟨j, hj, hwritten⟩ := told_within hc hhandler hd (Bool.eq_false_iff.mpr hlimit) ha
        exact ⟨j, hj, fun hbeyond => absurd hbeyond hlimit, fun _ => hwritten⟩

/-- A shorter walk from the ride drops the journey listed, a longer one is rejected for it, and a walk from the access
stop lies beyond the limit. Without the handler the same journey is listed. -/
theorem handler_only_observes_three_offers :
    let setup : Setup :=
      ⟨⟨.standard, .forward⟩, Terms.collaborators ⟨⟨.forward, some 1000⟩, none, 0⟩, .ofChain .forward,
        some Notice.recording, ⟨.system, fun _ _ => true⟩⟩
    let arena : Arena := ⟨.forward, #[⟨none, 0, 1, 100, 50, 0, .access (.walk 1 50 0)⟩,
      ⟨some 0, 1, 2, 300, 250, 0, .transit ⟨1, 110, 7⟩⟩]⟩
    let acts : List Act := [.hear (.iterationStart 50), .add 0 arena 1 (.walk 2 70 0)]
    let ride (arrival : Int) : Journey := ⟨50, 50, arrival, 0, 0, [⟨.access 1, 50, 100, 0⟩,
      ⟨.transit 1 2 7, 110, 300, 0⟩, ⟨.egress 2, 300, arrival, 0⟩]⟩
    let walk : Journey := ⟨50, 50, 1050, 0, 0, [⟨.access 1, 50, 100, 0⟩, ⟨.egress 1, 100, 1050, 0⟩]⟩
    ∃ c v, ((Collector.empty setup (.ofPeriod 1000)).run acts).result = .ok c ∧
      ((Collector.empty { setup with handler := none } (.ofPeriod 1000)).run acts).result = .ok v ∧
      c.list = [ride 370] ∧ v.list = [ride 370] ∧
      (c.add 0 arena 1 (.walk 2 60 0)).written =
        [.decision (.drop (ride 370) (some (ride 360)) "Dominated by a new element"), .decision (.accept (ride 360)),
          .log ⟨.debug, "destination reached", [("arrival_time", .number 360), ("transfers", .number 0),
            ("c1", .number 0)]⟩] ∧
      (c.add 0 arena 1 (.walk 2 80 0)).written =
        [.decision (.reject (ride 380) (some (ride 370)) "Dominated by an existing element")] ∧
      (c.add 0 arena 0 (.walk 1 950 0)).written =
        [.decision (.reject walk none (setup.terms.calculator.limitReason .system))] := by
  intro setup arena acts ride walk
  let offers := (Collector.empty setup (.ofPeriod 1000)).run acts >>= fun c =>
    c.add 0 arena 1 (.walk 2 60 0) >>= fun _ => c.add 0 arena 1 (.walk 2 80 0) >>= fun c' =>
      c.add 0 arena 0 (.walk 1 950 0) >>= fun _ => pure (c, c')
  have hrun : (offers.result.map fun (c, c') => (c.list, c.iteration, c'.list)) =
      .ok ([ride 370], some 50, [ride 370]) := by decide +kernel
  obtain ⟨⟨c, c'⟩, hoffers⟩ := ok_of_isOk (x := offers.result) (by decide +kernel)
  rw [hoffers] at hrun
  obtain ⟨(hlist : c.list = [ride 370]), hrun⟩ := Prod.mk.inj (Except.ok.inj hrun)
  obtain ⟨(hiteration : c.iteration = some 50), (hlist' : c'.list = [ride 370])⟩ := Prod.mk.inj hrun
  obtain ⟨_, hc, hoffers⟩ := Run.result_bind_eq_ok.mp hoffers
  obtain ⟨_, hshorter, hoffers⟩ := Run.result_bind_eq_ok.mp hoffers
  obtain ⟨_, hlonger, hoffers⟩ := Run.result_bind_eq_ok.mp hoffers
  obtain ⟨_, hlate, hoffers⟩ := Run.result_bind_eq_ok.mp hoffers
  cases hoffers
  have hhandler : setup.handler = some Notice.recording := rfl
  obtain ⟨hsteps, htold⟩ := handler_only_observes hhandler (.ofPeriod 1000) acts hc
  obtain ⟨u, v, hu, hv, hsame, -⟩ := hsteps 2
  cases hu.symm.trans hc
  refine ⟨c, v, hc, hv, hlist, hsame.trans hlist, ?_, ?_, ?_⟩
  · obtain ⟨j, hj, -, hwithin⟩ := (htold hshorter).2 ⟨1, .walk 2 60 0, 300, 360, 0, 2, 0⟩ (by decide +kernel)
    have hride : setup.map arena ⟨1, .walk 2 60 0, 300, 360, 0, 2, 0⟩ (some 50) = .ok (ride 360) := by decide +kernel
    rw [hiteration, hride] at hj
    cases hj
    rcases hwithin (by decide) with ⟨m, hm, hgood, -⟩ | ⟨-, hwritten⟩
    · rw [hlist, List.mem_singleton] at hm
      subst hm
      exact absurd (hgood.forward rfl) (by decide)
    · rw [hwritten, checkCost_of_eq rfl, Run.written_pure, hlist]
      decide +kernel
  · obtain ⟨j, hj, -, hwithin⟩ := (htold hlonger).2 ⟨1, .walk 2 80 0, 300, 380, 0, 2, 0⟩ (by decide +kernel)
    have hride : setup.map arena ⟨1, .walk 2 80 0, 300, 380, 0, 2, 0⟩ (some 50) = .ok (ride 380) := by decide +kernel
    rw [hiteration, hride] at hj
    cases hj
    rcases hwithin (by decide) with ⟨m, hm, -, -, hwritten⟩ | ⟨hafter, -⟩
    · rw [hlist, List.mem_singleton] at hm
      subst hm
      rw [hwritten, checkCost_of_eq rfl]
      rfl
    · rw [hlist, hlist'] at hafter
      exact absurd hafter (by decide)
  · obtain ⟨j, hj, hbeyond, -⟩ := (htold hlate).2 ⟨0, .walk 1 950 0, 100, 1050, 0, 1, 0⟩ (by decide +kernel)
    have hwalk : setup.map arena ⟨0, .walk 1 950 0, 100, 1050, 0, 1, 0⟩ (some 50) = .ok walk := by decide +kernel
    rw [hiteration, hwalk] at hj
    cases hj
    rw [hbeyond (by decide)]
    rfl

end Collector

end TransitSearch
