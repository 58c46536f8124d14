/-
  TransitSearch.Proofs.Collector.Run — a collector from one act to the next.

  An act offers an arrival of some arena, asks whether a journey would be kept, reports a
  rejection, or lets the collector hear of a boundary. Acts come in any order, and each
  offer or report brings an arena of its own.

  `add_of_result` says all an answered offer can have done: there was no destination, it
  lay beyond the limit (`add_of_rejection`), or its journey went to the set (`add_of_check`,
  `add_of_journey`); `add_steps` says also what it wrote on the way. No act changes the
  setup, and the iteration is the last one set up (`act_isFor`, `run_isFor`). What the set
  decides is told to the debug handler of the setup, which is said to hear certain journeys
  when no decision about them stops it (`Setup.Hears`).
-/

import TransitSearch.Collector
import TransitSearch.Proofs.Comparators

namespace TransitSearch

open Pareto

/-- The values that a report names. -/
def Decision.named {α : Type} : Decision α → List α
  | .accept e => [e]
  | .reject e cause _ | .drop e cause _ => e :: cause.toList

namespace Setup

/-- What is told of the decisions of the set. -/
def listener (setup : Setup) : Listener Journey Notice :=
  match setup.handler with
  | none => ParetoSet.silent
  | some handler => Decision.listener handler

/-- The debug handler, if there is one, is not stopped by any report about these journeys. -/
def Hears (setup : Setup) (js : List Journey) : Prop :=
  ∀ handler ∈ setup.handler, ∀ decision : Decision Journey, (∀ j ∈ decision.named, j ∈ js) →
    (handler decision).result = .ok ()

theorem Hears.listener {setup : Setup} {js : List Journey} (h : setup.Hears js) :
    ParetoSet.Hears setup.listener js := by
  intro e he
  unfold Setup.listener
  cases hhandler : setup.handler with
  | none => rfl
  | some handler =>
    refine h handler hhandler (Decision.ofSetEvent e) fun j hj => he j ?_
    cases e <;> exact hj

end Setup

namespace Collector

inductive Act where
  /-- Offers the arrival `id`, extended by `egress`, at the clock reading `now`. -/
  | add (now : Nat) (arena : Arena) (id : Nat) (egress : Leg)
  | qualify (departure arrival : Int) (transfers : Nat) (cost : Int)
  | reject (arena : Arena) (id : Nat) (egress : Leg) (reason : String)
  | hear (boundary : Boundary)

def act (c : Collector) : Act → Run Notice Collector
  | .add now arena id egress => c.add now arena id egress
  | .qualify departure arrival transfers cost => do
    let _ ← c.qualify departure arrival transfers cost
    pure c
  | .reject arena id egress reason => do
    c.reject arena id egress reason
    pure c
  | .hear boundary => pure (c.hear boundary)

def run (c : Collector) : List Act → Run Notice Collector
  | [] => pure c
  | a :: rest => do
    let c ← c.act a
    c.run rest

/-- The departure of the last iteration set up, `iteration` being the one before. -/
def iterationAfter (iteration : Option Int) : Act → Option Int
  | .hear (.iterationStart departure) => some departure
  | _ => iteration

/-! ## One offer -/

theorem checkCost_of_eq {environment : Environment} {throttle : Throttle} {now : Nat} {arena : Arena} {d : Destination}
    {j : Journey} (hc : j.cost = d.cost) : checkCost environment throttle now arena d j = pure throttle := by
  rw [checkCost, if_pos hc]

theorem checkCost_of_result {environment : Environment} {throttle throttle' : Throttle} {now : Nat} {arena : Arena}
    {d : Destination} {j : Journey} (h : (checkCost environment throttle now arena d j).result = .ok throttle')
    (hc : j.cost = d.cost) : throttle' = throttle := by
  rw [checkCost_of_eq hc] at h
  cases h
  rfl

theorem logReached_result (environment : Environment) (d : Destination) :
    (logReached environment d).result = .ok () := by
  unfold logReached Run.log
  split <;> rfl

/-- All the steps that an answered offer can have taken, and what they wrote. -/
theorem add_steps {c c' : Collector} {now : Nat} {arena : Arena} {id : Nat} {egress : Leg}
    (h : (c.add now arena id egress).result = .ok c') :
    (c.setup.terms.destination? arena id egress = .ok none ∧ c' = c ∧ (c.add now arena id egress).written = []) ∨
    (∃ d, c.setup.terms.destination? arena id egress = .ok (some d) ∧
      c.setup.terms.calculator.exceedsLimit d.arrival = true ∧ c' = c ∧
      (c.rejectDestination arena d (c.setup.terms.calculator.limitReason c.setup.environment.calendar)).result = .ok () ∧
      (c.add now arena id egress).written =
        (c.rejectDestination arena d (c.setup.terms.calculator.limitReason c.setup.environment.calendar)).written) ∨
    ∃ d j kept journeys mismatches, c.setup.terms.destination? arena id egress = .ok (some d) ∧
      c.setup.terms.calculator.exceedsLimit d.arrival = false ∧ c.setup.map arena d c.iteration = .ok j ∧
      (checkCost c.setup.environment c.mismatches now arena d j).result = .ok mismatches ∧
      (c.journeys.add j).result = .ok (kept, journeys) ∧
      c' = { c with journeys, mismatches, reachedThisRound := c.reachedThisRound || kept } ∧
      (c.add now arena id egress).written = (checkCost c.setup.environment c.mismatches now arena d j).written ++
        (c.journeys.add j).written ++ if kept then (logReached c.setup.environment d).written else [] := by
  simp only [add, Run.result_bind_eq_ok, Run.result_lift] at h
  obtain ⟨d?, hd, h⟩ := h
  cases d? with
  | none =>
    cases h
    refine Or.inl ⟨hd, rfl, ?_⟩
    simp [add, hd]
  | some d =>
    right
    by_cases hlimit : c.setup.terms.calculator.exceedsLimit d.arrival = true
    · simp only [hlimit, if_true, Run.result_bind_eq_ok, Run.result_pure, Except.ok.injEq] at h
      obtain ⟨_, hreport, rfl⟩ := h
      refine Or.inl ⟨d, hd, hlimit, rfl, hreport, ?_⟩
      simp only [add, hd, Run.lift_ok, pure_bind, hlimit, if_true]
      rw [Run.written_bind_of_result hreport, Run.written_pure, List.append_nil]
    · rw [Bool.not_eq_true] at hlimit
      simp only [hlimit, Bool.false_eq_true, if_false, Run.result_bind_eq_ok, Run.result_lift] at h
      obtain ⟨j, hj, mismatches, hm, ⟨kept, journeys⟩, hk, h⟩ := h
      refine Or.inr ⟨d, j, kept, journeys, mismatches, hd, hlimit, hj, hm, hk, ?_, ?_⟩
      · cases kept with
        | true =>
          simp only [if_true, Run.result_bind_eq_ok, Run.result_pure, Except.ok.injEq] at h
          obtain ⟨-, -, rfl⟩ := h
          simp
        | false =>
          cases h
          simp
      · simp only [add, hd, Run.lift_ok, pure_bind, hlimit, Bool.false_eq_true, if_false, hj]
        rw [Run.written_bind_of_result hm, Run.written_bind_of_result hk, List.append_assoc]
        cases kept with
        | true =>
          simp only [if_true]
          rw [Run.written_bind_of_result (logReached_result c.setup.environment d), Run.written_pure, List.append_nil]
        | false => rfl

theorem add_of_result {c c' : Collector} {now : Nat} {arena : Arena} {id : Nat} {egress : Leg}
    (h : (c.add now arena id egress).result = .ok c') :
    (c.setup.terms.destination? arena id egress = .ok none ∧ c' = c) ∨
    (∃ d, c.setup.terms.destination? arena id egress = .ok (some d) ∧
      c.setup.terms.calculator.exceedsLimit d.arrival = true ∧ c' = c) ∨
    ∃ d j kept journeys mismatches, c.setup.terms.destination? arena id egress = .ok (some d) ∧
      c.setup.terms.calculator.exceedsLimit d.arrival = false ∧ c.setup.map arena d c.iteration = .ok j ∧
      (c.journeys.add j).result = .ok (kept, journeys) ∧ (j.cost = d.cost → mismatches = c.mismatches) ∧
      c' = { c with journeys, mismatches, reachedThisRound := c.reachedThisRound || kept } := by
  rcases add_steps h with ⟨hd, rfl, -⟩ | ⟨d, hd, hlimit, rfl, -, -⟩ | ⟨d, j, kept, journeys, mismatches, hd, hlimit,
    hj, hm, hk, rfl, -⟩
  · exact Or.inl ⟨hd, rfl⟩
  · exact Or.inr (Or.inl ⟨d, hd, hlimit, rfl⟩)
  · exact Or.inr (Or.inr ⟨d, j, kept, journeys, mismatches, hd, hlimit, hj, hk, checkCost_of_result hm, rfl⟩)

theorem add_of_check {c : Collector} {now : Nat} {arena : Arena} {id : Nat} {egress : Leg} {d : Destination}
    {j : Journey} {kept : Bool} {journeys : ParetoSet Journey Notice} {mismatches : Throttle}
    (hd : c.setup.terms.destination? arena id egress = .ok (some d))
    (hlimit : c.setup.terms.calculator.exceedsLimit d.arrival = false) (hj : c.setup.map arena d c.iteration = .ok j)
    (hcheck : (checkCost c.setup.environment c.mismatches now arena d j).result = .ok mismatches)
    (hadd : (c.journeys.add j).result = .ok (kept, journeys)) :
    (c.add now arena id egress).result =
      .ok { c with journeys, mismatches, reachedThisRound := c.reachedThisRound || kept } := by
  simp only [add, Run.result_bind_eq_ok, Run.result_lift]
  refine ⟨some d, hd, ?_⟩
  simp only [hlimit, Bool.false_eq_true, if_false, Run.result_bind_eq_ok, Run.result_lift]
  refine ⟨j, hj, mismatches, hcheck, (kept, journeys), hadd, ?_⟩
  cases kept with
  | true =>
    rw [Bool.or_true]
    exact Run.result_bind_eq_ok.mpr ⟨(), logReached_result c.setup.environment d, rfl⟩
  | false =>
    rw [Bool.or_false]
    rfl

theorem add_of_journey {c : Collector} {arena : Arena} {id : Nat} {egress : Leg} {d : Destination} {j : Journey}
    {kept : Bool} {journeys : ParetoSet Journey Notice}
    (hd : c.setup.terms.destination? arena id egress = .ok (some d))
    (hlimit : c.setup.terms.calculator.exceedsLimit d.arrival = false) (hj : c.setup.map arena d c.iteration = .ok j)
    (hcost : j.cost = d.cost) (hadd : (c.journeys.add j).result = .ok (kept, journeys)) (now : Nat) :
    (c.add now arena id egress).result =
      .ok { c with journeys, reachedThisRound := c.reachedThisRound || kept } := by
  have hcheck : (checkCost c.setup.environment c.mismatches now arena d j).result = .ok c.mismatches := by
    rw [checkCost_of_eq hcost, Run.result_pure]
  exact add_of_check hd hlimit hj hcheck hadd

theorem add_of_rejection {c : Collector} {arena : Arena} {id : Nat} {egress : Leg} {d : Destination}
    (hd : c.setup.terms.destination? arena id egress = .ok (some d))
    (hlimit : c.setup.terms.calculator.exceedsLimit d.arrival = true)
    (hreport : (c.rejectDestination arena d
      (c.setup.terms.calculator.limitReason c.setup.environment.calendar)).result = .ok ()) (now : Nat) :
    (c.add now arena id egress).result = .ok c := by
  simp only [add, Run.result_bind_eq_ok, Run.result_lift]
  refine ⟨some d, hd, ?_⟩
  simp only [hlimit, if_true, Run.result_bind_eq_ok]
  exact ⟨(), hreport, rfl⟩

/-! ## Any acts -/

theorem act_qualify_of_result {c c' : Collector} {departure arrival : Int} {transfers : Nat} {cost : Int}
    (h : (c.act (.qualify departure arrival transfers cost)).result = .ok c') : c' = c := by
  obtain ⟨_, -, h⟩ := Run.result_bind_eq_ok.mp h
  cases h
  rfl

theorem act_reject_of_result {c c' : Collector} {arena : Arena} {id : Nat} {egress : Leg} {reason : String}
    (h : (c.act (.reject arena id egress reason)).result = .ok c') : c' = c := by
  obtain ⟨_, -, h⟩ := Run.result_bind_eq_ok.mp h
  cases h
  rfl

theorem hear_frame (c : Collector) (b : Boundary) :
    (c.hear b).setup = c.setup ∧ (c.hear b).journeys = c.journeys ∧ (c.hear b).mismatches = c.mismatches ∧
      (c.hear b).iteration = iterationAfter c.iteration (.hear b) := by
  cases b <;> exact ⟨rfl, rfl, rfl, rfl⟩

/-- The setup, and with it the comparison and the listener of the set, is for good. -/
structure IsFor (setup : Setup) (c : Collector) : Prop where
  setup_eq : c.setup = setup
  advantage_eq : c.journeys.advantage = setup.order.advantage
  listener_eq : c.journeys.listener = setup.listener

theorem IsFor.computes {setup : Setup} {c : Collector} (h : IsFor setup c) :
    Computes c.journeys.advantage setup.order.better := by
  rw [h.advantage_eq]
  exact setup.order.advantage_computes

theorem empty_isFor (setup : Setup) (mismatches : Throttle) : IsFor setup (.empty setup mismatches) :=
  ⟨rfl, rfl, rfl⟩

theorem act_isFor {setup : Setup} {c c' : Collector} {a : Act} (hc : IsFor setup c) (h : (c.act a).result = .ok c') :
    IsFor setup c' ∧ c'.iteration = iterationAfter c.iteration a := by
  cases a with
  | add now arena id egress =>
    rcases add_of_result h with ⟨-, rfl⟩ | ⟨_, -, -, rfl⟩ | ⟨_, _, _, journeys, _, -, -, -, hk, -, rfl⟩
    · exact ⟨hc, rfl⟩
    · exact ⟨hc, rfl⟩
    · obtain ⟨hadvantage, hlistener⟩ := ParetoSet.advantage_of_add hc.computes hk
      exact ⟨⟨hc.setup_eq, hadvantage.trans hc.advantage_eq, hlistener.trans hc.listener_eq⟩, rfl⟩
  | qualify => rw [act_qualify_of_result h]; exact ⟨hc, rfl⟩
  | reject => rw [act_reject_of_result h]; exact ⟨hc, rfl⟩
  | hear b =>
    cases h
    obtain ⟨hs, hj, -, hi⟩ := hear_frame c b
    exact ⟨⟨hs.trans hc.setup_eq, by rw [hj]; exact hc.advantage_eq, by rw [hj]; exact hc.listener_eq⟩, hi⟩

theorem run_isFor {setup : Setup} {acts : List Act} : ∀ {c c' : Collector}, IsFor setup c →
    (c.run acts).result = .ok c' → IsFor setup c' ∧ c'.iteration = acts.foldl iterationAfter c.iteration := by
  induction acts with
  | nil =>
    intro c c' hc h
    cases h
    exact ⟨hc, rfl⟩
  | cons a rest ih =>
    intro c c' hc h
    obtain ⟨t, ht, h⟩ := Run.result_bind_eq_ok.mp h
    obtain ⟨hfor, hi⟩ := act_isFor hc ht
    rw [List.foldl_cons, ← hi]
    exact ih hfor h

end Collector

end TransitSearch
