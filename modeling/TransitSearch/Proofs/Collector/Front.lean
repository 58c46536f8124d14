/-
  TransitSearch.Proofs.Collector.Front — the journeys listed are the front of those offered.

  `offered` is read off the acts alone: the journey of every offer that has a destination
  within the limit, mapped with the departure of the last iteration set up before it.
  After any acts, in any order and up to no fault, the collector lists the front of that
  sequence (`run_lists_front`). An offer without a destination or beyond the limit leaves
  the collector as it was, and one whose map disagrees on the cost is treated as any other.
-/

import TransitSearch.Proofs.Collector.Run

namespace TransitSearch

open Pareto

namespace Collector

/-- The journey that an offer brings to the set, if it has a destination within the limit. -/
def candidate? (setup : Setup) (iteration : Option Int) (arena : Arena) (id : Nat) (egress : Leg) : Option Journey :=
  match setup.terms.destination? arena id egress with
  | .ok (some d) =>
    if setup.terms.calculator.exceedsLimit d.arrival then none else (setup.map arena d iteration).toOption
  | _ => none

def offeredBy (setup : Setup) (iteration : Option Int) : Act → List Journey
  | .add _ arena id egress => (candidate? setup iteration arena id egress).toList
  | _ => []

/-- What the acts bring to the set, in order. -/
def offered (setup : Setup) : Option Int → List Act → List Journey
  | _, [] => []
  | iteration, a :: rest => offeredBy setup iteration a ++ offered setup (iterationAfter iteration a) rest

/-! ## One act -/

theorem act_front {setup : Setup} {c c' : Collector} {xs : List Journey} {a : Act} (hc : IsFor setup c)
    (hf : IsFront setup.order.better xs c.list) (h : (c.act a).result = .ok c') :
    IsFront setup.order.better (xs ++ offeredBy setup c.iteration a) c'.list := by
  cases a with
  | add now arena id egress =>
    rcases add_of_result h with ⟨hd, rfl⟩ | ⟨d, hd, hlimit, rfl⟩ | ⟨d, j, kept, journeys, _, hd, hlimit, hj, hk, -, rfl⟩
    · rw [hc.setup_eq] at hd
      simpa [offeredBy, candidate?, hd] using hf
    · rw [hc.setup_eq] at hd hlimit
      simpa [offeredBy, candidate?, hd, hlimit] using hf
    · rw [hc.setup_eq] at hd hlimit hj
      have hm := (ParetoSet.members_of_add setup.order.lawful hc.computes hf.apart hk).1
      have := hf.offer setup.order.lawful j
      simpa [offeredBy, candidate?, hd, hlimit, hj, Except.toOption, list, hm] using this
  | qualify => simpa [act_qualify_of_result h, offeredBy] using hf
  | reject => simpa [act_reject_of_result h, offeredBy] using hf
  | hear b =>
    cases h
    simpa [list, (hear_frame c b).2.1, offeredBy] using hf

/-! ## Any acts -/

theorem run_front {setup : Setup} (acts : List Act) : ∀ {c c' : Collector} {xs : List Journey}, IsFor setup c →
    IsFront setup.order.better xs c.list → (c.run acts).result = .ok c' →
      IsFor setup c' ∧ IsFront setup.order.better (xs ++ offered setup c.iteration acts) c'.list := by
  induction acts with
  | nil =>
    intro c c' xs hc hf h
    cases h
    exact ⟨hc, by simpa [offered] using hf⟩
  | cons a rest ih =>
    intro c c' xs hc hf h
    obtain ⟨t, ht, h⟩ := Run.result_bind_eq_ok.mp h
    obtain ⟨hfor, hi⟩ := act_isFor hc ht
    have := ih hfor (act_front hc hf ht) h
    rwa [hi, List.append_assoc] at this

/-- Whatever was done with a collector, it lists the front of what it was offered, and of the next offer only what
reaches the set counts. -/
theorem run_lists_front (setup : Setup) (mismatches : Throttle) (acts : List Act) {c : Collector}
    (h : ((Collector.empty setup mismatches).run acts).result = .ok c) :
    c.list = front setup.order.better (offered setup none acts) ∧
    ∀ {now arena id egress c'}, (c.add now arena id egress).result = .ok c' →
      (setup.terms.destination? arena id egress = .ok none → c' = c) ∧
      ∀ d, setup.terms.destination? arena id egress = .ok (some d) →
        (setup.terms.calculator.exceedsLimit d.arrival = true → c' = c) ∧
        (setup.terms.calculator.exceedsLimit d.arrival = false →
          ∃ j, setup.map arena d c.iteration = .ok j ∧ c'.list = offer setup.order.better c.list j ∧
            c'.reachedThisRound = (c.reachedThisRound || c.list.all (setup.order.better j ·)) ∧
            c'.iteration = c.iteration ∧ c'.setup = setup ∧ (j.cost = d.cost → c'.mismatches = c.mismatches)) := by
  obtain ⟨hc, hf⟩ := run_front acts (empty_isFor setup mismatches) isFront_nil h
  refine ⟨hf.eq_front, fun {now arena id egress c'} ha => ?_⟩
  have hcases := add_of_result ha
  rw [hc.setup_eq] at hcases
  rcases hcases with ⟨hd, rfl⟩ | ⟨d, hd, hlimit, rfl⟩ | ⟨d, j, kept, journeys, _, hd, hlimit, hj, hk, hcost, rfl⟩
  · refine ⟨fun _ => rfl, fun d hd' => ?_⟩
    rw [hd] at hd'
    cases hd'
  · refine ⟨fun _ => rfl, fun d' hd' => ?_⟩
    rw [hd] at hd'
    cases hd'
    refine ⟨fun _ => rfl, fun hwithin => ?_⟩
    rw [hlimit] at hwithin
    cases hwithin
  · obtain ⟨hm, hb⟩ := ParetoSet.members_of_add setup.order.lawful hc.computes hf.apart hk
    refine ⟨fun hnone => ?_, fun d' hd' => ?_⟩
    · rw [hd] at hnone
      cases hnone
    · rw [hd] at hd'
      cases hd'
      refine ⟨fun hbeyond => ?_, fun _ => ⟨j, hj, hm, by rw [hb]; rfl, rfl, rfl, hcost⟩⟩
      rw [hlimit] at hbeyond
      cases hbeyond

/-- A ride is offered twice, the second time over a longer walk. A later start would make a shorter journey, but one
that ends beyond the limit, and it changes nothing. -/
theorem run_lists_front_ride :
    let setup : Setup := ⟨⟨.standard, .forward⟩, Terms.collaborators ⟨⟨.forward, some 1000⟩, none, 0⟩,
      .ofChain .forward, none, ⟨.system, fun _ _ => true⟩⟩
    let arena : Arena := ⟨.forward, #[⟨none, 0, 1, 100, 50, 0, .access (.walk 1 50 0)⟩,
      ⟨some 0, 1, 2, 300, 250, 0, .transit ⟨1, 110, 7⟩⟩, ⟨none, 0, 1, 900, 50, 0, .access (.walk 1 50 0)⟩]⟩
    let acts : List Act := [.hear (.iterationStart 50), .add 0 arena 2 (.walk 1 110 0), .add 0 arena 1 (.walk 2 60 0),
      .hear (.roundStart 2), .add 0 arena 1 (.walk 2 70 0)]
    ∃ c, ((Collector.empty setup (.ofPeriod 1000)).run acts).result = .ok c ∧
      c.list.map (fun j => (j.startTime, j.endTime, j.iteration)) = [(50, 360, 50)] ∧
      c.qualify 850 1010 0 0 = .ok true ∧ (c.add 0 arena 2 (.walk 1 110 0)).result = .ok c := by
  intro setup arena acts
  let next := (Collector.empty setup (.ofPeriod 1000)).run acts >>= fun c => c.add 0 arena 2 (.walk 1 110 0)
  obtain ⟨c', hc'⟩ := ok_of_isOk (x := next.result) (by decide +kernel)
  obtain ⟨c, hc, ha⟩ := Run.result_bind_eq_ok.mp hc'
  obtain ⟨hlist, hnext⟩ := run_lists_front setup (.ofPeriod 1000) acts hc
  refine ⟨c, hc, ?_, ?_, ?_⟩
  · rw [hlist]
    decide +kernel
  · have hwanted : (((Collector.empty setup (.ofPeriod 1000)).run acts).result >>= fun c => c.qualify 850 1010 0 0) =
        .ok true := by decide +kernel
    rwa [hc] at hwanted
  · have hd : setup.terms.destination? arena 2 (.walk 1 110 0) = .ok (some ⟨2, .walk 1 110 0, 900, 1010, 0, 1, 0⟩) := by
      decide +kernel
    have hsame : c' = c := ((hnext ha).2 _ hd).1 (by decide)
    rw [ha, hsame]

end Collector

end TransitSearch
