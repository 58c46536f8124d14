/-
  TransitSearch.Proofs.Unpriced.Search — a search that does not count costs.

  Where cost is no criterion, journeys compare as they do without their prices
  (`advantage_unpriced`). So a search that is not stopped runs in lockstep with the search
  that is given the same calls without prices: every call of the one is answered as in the
  other and leaves what the other leaves, less the prices (`step_unpriced`,
  `run_unpriced`). The map of whole chains takes the cost of a journey from its
  destination, so the warning that compares the two plays no part.

  Two searches that differ in prices only keep pace with the same search without prices,
  and so with each other (`run_ignores_cost`).
-/

import TransitSearch.Proofs.Search.Acts
import TransitSearch.Proofs.Unpriced.Journey

namespace TransitSearch

theorem Journey.Order.advantage_unpriced {order : Journey.Order} (h : order.criteria.tracksCost = false)
    (l r : Journey) : order.advantage l.unpriced r.unpriced = order.advantage l r := by
  simp only [advantage, h, Bool.false_and]
  rfl

/-! ## The collector -/

namespace Collector

variable {setup : Setup} {dir : Direction} {c c' : Collector}

theorem IsFor.alike (hc : IsFor setup c) (hcriteria : setup.order.criteria.tracksCost = false) (l r : Journey) :
    c.setup.order.advantage l.unpriced r.unpriced = c.journeys.advantage l r := by
  rw [hc.setup_eq, hc.advantage_eq]
  exact Journey.Order.advantage_unpriced hcriteria l r

theorem qualify_unpriced (hc : IsFor setup c) (hcriteria : setup.order.criteria.tracksCost = false)
    (departure arrival : Int) (transfers : Nat) (cost : Int) :
    c.unpriced.qualify departure arrival transfers 0 = c.qualify departure arrival transfers cost :=
  ParetoSet.qualify_image (hc.alike hcriteria) (.summary (c.iteration.getD departure) departure arrival transfers cost)

theorem add_unpriced (hc : IsFor setup c) (hcriteria : setup.order.criteria.tracksCost = false)
    (hmap : setup.map = .ofChain dir) (hcalculator : setup.terms.calculator.IgnoresCost) {now id : Nat} {arena : Arena}
    {egress : Leg} (h : (c.add now arena id egress).result = .ok c') :
    (c.unpriced.add now arena.unpriced id egress.unpriced).result = .ok c'.unpriced := by
  rw [← hc.setup_eq] at hcalculator
  -- no destination, one beyond the limit, or one whose journey goes to the set
  rcases add_of_result h with ⟨hd, hc'⟩ | ⟨d, hd, hlimit, hc'⟩ | ⟨d, j, kept, journeys, _, hd, hlimit, hj, hk, hm, hc'⟩
  · rw [hc']
    exact Run.result_bind_eq_ok.mpr ⟨none, Collaborators.destination_unpriced hcalculator hd, rfl⟩
  · have hd' := Collaborators.destination_unpriced hcalculator hd
    rw [hc']
    exact add_of_rejection (c := c.unpriced) (d := d.unpriced) hd' hlimit rfl now
  · have hd' := Collaborators.destination_unpriced hcalculator hd
    rw [hc.setup_eq, hmap] at hj
    have hj' : c.setup.map arena.unpriced d.unpriced c.iteration = .ok j.unpriced := by
      rw [hc.setup_eq, hmap]
      exact Journey.ofChain_unpriced hj
    rw [hc', hm (Journey.cost_of_ofChain hj)]
    exact add_of_journey (c := c.unpriced) (d := d.unpriced) (j := j.unpriced) hd' hlimit hj' rfl
      (ParetoSet.add_image (hc.alike hcriteria) hk) now

end Collector

/-! ## One call -/

namespace Search

variable {setup : Setup} {dir : Direction} {s s' : Search} {reply : Reply}

theorem appended_unpriced {x y : Except Fault (Arena × Nat)} (hxy : y = Prod.map Arena.unpriced id <$> x)
    (h : (s.appended x).result = .ok (reply, s')) : (s.unpriced.appended y).result = .ok (reply, s'.unpriced) := by
  subst hxy
  obtain ⟨⟨arena, handle⟩, hx, h⟩ := Run.result_bind_eq_ok.mp h
  cases h
  exact Run.result_bind_eq_ok.mpr ⟨(arena.unpriced, handle), map_eq_ok.mpr ⟨_, hx, rfl⟩, rfl⟩

theorem announced_unpriced {x : Run LogEvent (LifeCycle × Boundary)}
    (h : (s.announced x).result = .ok (reply, s')) : (s.unpriced.announced x).result = .ok (reply, s'.unpriced) := by
  obtain ⟨⟨cycle, boundary⟩, hx, h⟩ := Run.result_bind_eq_ok.mp h
  cases h
  refine Run.result_bind_eq_ok.mpr ⟨(cycle, boundary), hx, ?_⟩
  simp [unpriced]

theorem step_unpriced (hc : Collector.IsFor setup s.collector) (hcriteria : setup.order.criteria.tracksCost = false)
    (hmap : setup.map = .ofChain dir) (hcalculator : setup.terms.calculator.IgnoresCost) {call : Call}
    (h : (s.step call).result = .ok (reply, s')) :
    (s.unpriced.step call.unpriced).result = .ok (reply, s'.unpriced) := by
  cases call with
  | access departure leg => exact appended_unpriced (s.arena.access_unpriced departure leg) h
  | transit previous stop time cost boarding =>
    exact appended_unpriced (s.arena.transit_unpriced previous stop time cost boarding) h
  | transfer previous stop time cost => exact appended_unpriced (s.arena.transfer_unpriced previous stop time cost) h
  | derive previous increment stop time cost kind =>
    exact appended_unpriced (s.arena.derive_unpriced previous increment stop time cost kind) h
  | shift handle requested =>
    obtain ⟨⟨outcome, arena⟩, hshift, h⟩ := Run.result_bind_eq_ok.mp h
    have hshift' : (s.unpriced.arena.shift handle requested).result = .ok (outcome, arena.unpriced) := by
      show (s.arena.unpriced.shift handle requested).result = .ok (outcome, arena.unpriced)
      rw [s.arena.shift_unpriced, Run.result_map]
      exact map_eq_ok.mpr ⟨_, hshift, rfl⟩
    refine Run.result_bind_eq_ok.mpr ⟨(outcome, arena.unpriced), hshift', ?_⟩
    cases outcome <;> cases h <;> rfl
  | clear =>
    cases h
    simp [step, Call.unpriced, unpriced]
  | add now id egress =>
    obtain ⟨collector, hadd, h⟩ := Run.result_bind_eq_ok.mp h
    cases h
    exact Run.result_bind_eq_ok.mpr ⟨collector.unpriced, Collector.add_unpriced hc hcriteria hmap hcalculator hadd, rfl⟩
  | qualify departure arrival transfers cost =>
    obtain ⟨b, hb, h⟩ := Run.result_bind_eq_ok.mp h
    cases h
    refine Run.result_bind_eq_ok.mpr ⟨b, ?_, rfl⟩
    exact (Collector.qualify_unpriced hc hcriteria departure arrival transfers cost).trans hb
  | reject id egress reason =>
    obtain ⟨_, -, h⟩ := Run.result_bind_eq_ok.mp h
    cases h
    rfl
  | setIteration departure =>
    cases h
    rfl
  | setupIteration departure => exact announced_unpriced h
  | nextRound => exact announced_unpriced h
  | roundComplete destinationReached => exact announced_unpriced h
  | iterationComplete => exact announced_unpriced h

/-! ## Any calls -/

theorem run_unpriced (hcriteria : setup.order.criteria.tracksCost = false) (hmap : setup.map = .ofChain dir)
    (hcalculator : setup.terms.calculator.IgnoresCost) (calls : List Call) :
    ∀ {s s' : Search} {replies : List Reply}, Collector.IsFor setup s.collector →
      (s.run calls).result = .ok (replies, s') →
        (s.unpriced.run (calls.map Call.unpriced)).result = .ok (replies, s'.unpriced) := by
  induction calls with
  | nil =>
    intro s s' replies _ h
    cases h
    rfl
  | cons call rest ih =>
    intro s s' replies hc h
    obtain ⟨reply, t, later, hstep, hrest, rfl⟩ := run_cons_eq_ok.mp h
    have hstep' := step_unpriced hc hcriteria hmap hcalculator hstep
    have hrest' := ih (step_isFor hc hstep).1 hrest
    exact run_cons_eq_ok.mpr ⟨reply, t.unpriced, later, hstep', hrest', rfl⟩

/-- Two searches that differ in the prices of legs and arrivals, in the cost calculator and in who observes them only,
where cost is no criterion, no leg starts later for its cost (`Calculator.transit_ignoresCost`), and neither is stopped:
after each call the replies so far are the same, the journeys listed are the same one by one, less the prices, the flag
is the same, and any question is answered alike whatever cost it names. -/
theorem run_ignores_cost {a b : Setup} (hcriteria : a.order.criteria.tracksCost = false) {mapDir : Direction}
    (hmap : a.map = .ofChain mapDir) (hcalculator : a.terms.calculator.IgnoresCost)
    (hsetups : b.unpriced = a.unpriced) {calls calls' : List Call}
    (hcalls : calls'.map Call.unpriced = calls.map Call.unpriced) {replies replies' : List Reply} {s t : Search}
    (hs : ((start dir a).run calls).result = .ok (replies, s))
    (ht : ((start dir b).run calls').result = .ok (replies', t)) :
    replies' = replies ∧ ∀ n, ∃ first u v,
      ((start dir a).run (calls.take n)).result = .ok (first, u) ∧
      ((start dir b).run (calls'.take n)).result = .ok (first, v) ∧
      v.collector.list.map Journey.unpriced = u.collector.list.map Journey.unpriced ∧
      v.collector.reachedThisRound = u.collector.reachedThisRound ∧
      ∀ departure arrival transfers cost cost', v.collector.qualify departure arrival transfers cost' =
        u.collector.qualify departure arrival transfers cost := by
  have horder := congrArg Setup.order hsetups
  have hmaps := congrArg Setup.map hsetups
  have hcriteria' : b.order.criteria.tracksCost = false := by
    rw [show b.order = a.order from horder]
    exact hcriteria
  have hmap' : b.map = .ofChain mapDir := hmaps.trans hmap
  have hcalculators := congrArg (·.terms.calculator) hsetups
  have hcalculator' : b.terms.calculator.IgnoresCost := by
    rw [show b.terms.calculator = a.terms.calculator from hcalculators]
    exact hcalculator
  -- both keep pace with the search without prices
  have alike : ∀ {pre pre' : List Call} {rs rs' : List Reply} {u v : Search},
      pre'.map Call.unpriced = pre.map Call.unpriced → ((start dir a).run pre).result = .ok (rs, u) →
      ((start dir b).run pre').result = .ok (rs', v) → rs' = rs ∧ v.unpriced = u.unpriced := by
    intro pre pre' rs rs' u v hpre hu hv
    have hu := run_unpriced hcriteria hmap hcalculator pre (Collector.empty_isFor a _) hu
    have hv := run_unpriced hcriteria' hmap' hcalculator' pre' (Collector.empty_isFor b _) hv
    rw [unpriced_start] at hu hv
    rw [hsetups, hpre, hu] at hv
    obtain ⟨hreplies, hend⟩ := Prod.mk.inj (Except.ok.inj hv)
    exact ⟨hreplies.symm, hend.symm⟩
  refine ⟨(alike hcalls hs ht).1, fun n => ?_⟩
  rw [← List.take_append_drop n calls] at hs
  rw [← List.take_append_drop n calls'] at ht
  obtain ⟨first, u, -, hu, -, -⟩ := run_append_of_result hs
  obtain ⟨first', v, -, hv, -, -⟩ := run_append_of_result ht
  obtain ⟨rfl, hend⟩ := alike (by rw [List.map_take, List.map_take, hcalls]) hu hv
  have hcollector := congrArg Search.collector hend
  have hreached := congrArg Collector.reachedThisRound hcollector
  refine ⟨_, u, v, hu, hv, ?_, hreached, fun departure arrival transfers cost cost' => ?_⟩
  · rw [← Collector.unpriced_list, ← Collector.unpriced_list]
    exact congrArg Collector.list hcollector
  · have hu := run_isFor (Collector.empty_isFor a _) hu
    have hv := run_isFor (Collector.empty_isFor b _) hv
    rw [← Collector.qualify_unpriced hu hcriteria, ← Collector.qualify_unpriced hv hcriteria']
    exact congrArg (fun c => c.qualify departure arrival transfers 0) hcollector

/-- A shorter walk that costs more takes the place of a longer one that costs nothing, in a search that has prices as in
one that has none. -/
theorem run_ignores_cost_walks :
    let a : Setup := ⟨⟨.standard, .forward⟩, Terms.collaborators ⟨⟨.forward, none⟩, none, 0⟩, .ofChain .forward, none,
      ⟨.system, fun _ _ => true⟩⟩
    let b : Setup := { a with terms := Terms.collaborators ⟨⟨.forward, none⟩, some .standard, 0⟩ }
    let calls : List Call := [.setupIteration 50, .access 50 (.walk 1 50 0), .transit 0 2 300 0 ⟨1, 110, 7⟩, .nextRound,
      .add 0 1 (.walk 2 70 0), .qualify 50 360 0 0, .add 0 1 (.walk 2 60 0)]
    let calls' : List Call := [.setupIteration 50, .access 50 (.walk 1 50 5000), .transit 0 2 300 90000 ⟨1, 110, 7⟩,
      .nextRound, .add 0 1 (.walk 2 70 0), .qualify 50 360 0 90800, .add 0 1 (.walk 2 60 800)]
    let replies : List Reply := [.done, .arrival 0, .arrival 1, .done, .done, .qualified true, .done]
    ∃ s t, ((start .forward a).run calls).result = .ok (replies, s) ∧
      ((start .forward b).run calls').result = .ok (replies, t) ∧
      s.collector.list.map (fun j => (j.startTime, j.endTime, j.cost)) = [(50, 360, 0)] ∧
      t.collector.list.map (·.cost) = [90800] ∧
      t.collector.list.map Journey.unpriced = s.collector.list.map Journey.unpriced ∧
      ∀ departure arrival transfers cost cost', t.collector.qualify departure arrival transfers cost' =
        s.collector.qualify departure arrival transfers cost := by
  intro a b calls calls' replies
  obtain ⟨⟨rs, s⟩, hs⟩ := ok_of_isOk (x := ((start .forward a).run calls).result) (by decide +kernel)
  obtain ⟨⟨rs', t⟩, ht⟩ := ok_of_isOk (x := ((start .forward b).run calls').result) (by decide +kernel)
  have hleft : ((start .forward a).run calls).result.map (fun r =>
      (r.1, r.2.collector.list.map fun j => (j.startTime, j.endTime, j.cost))) =
      .ok (replies, [(50, 360, 0)]) := by decide +kernel
  have hright : ((start .forward b).run calls').result.map (fun r => r.2.collector.list.map (·.cost)) =
      .ok [90800] := by decide +kernel
  rw [hs] at hleft
  rw [ht] at hright
  obtain ⟨hfirst, hlist⟩ : rs = replies ∧ _ := Prod.mk.inj (Except.ok.inj hleft)
  have hmap : a.map = .ofChain .forward := rfl
  have hsetups : b.unpriced = a.unpriced := rfl
  have hcalls : calls'.map Call.unpriced = calls.map Call.unpriced := by decide
  obtain ⟨hreplies, heach⟩ := run_ignores_cost rfl hmap (Calculator.transit_ignoresCost _) hsetups hcalls hs ht
  obtain ⟨_, u, v, hu, hv, hlists, -, hqualify⟩ := heach 7
  cases hs.symm.trans hu
  cases ht.symm.trans hv
  rw [hreplies] at ht
  rw [hfirst] at hs ht
  exact ⟨s, t, hs, ht, hlist, Except.ok.inj hright, hlists, hqualify⟩

end Search

end TransitSearch
