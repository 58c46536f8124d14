/-
  TransitSearch.Proofs.Journey.Costs — the legs of a journey add up.

  A leg is not told what it costs. It is given the difference between two accumulated
  costs, the second of which the map looks up for itself, apart from the walk along the
  chain. In any arena that can be reached the arrival looked up is the next one of the
  walk, so the differences add up again: made in search order, the legs run through the
  accumulated costs of the chain and end at the cost of the destination
  (`sums_of_walk`, `ofChain_adds_up`).

  So the cost of a journey is its destination's, and a collector with this map never finds
  the two apart (`checkCost_of_ofChain`, `run_keeps_mismatches`). The only thing that can
  keep the map from answering is an overflow (`ofChain_onlyOverflows`).
-/

import Mathlib.Algebra.Ring.Int.Defs
import TransitSearch.Proofs.Arena.Ordered
import TransitSearch.Proofs.Collector.Run
import TransitSearch.Proofs.Destination
import TransitSearch.Proofs.Journey.Map

namespace TransitSearch

open Arena

namespace Hop

variable {dir : Direction} {arena : Arena}

/-! ## Along a walk -/

theorem scanl_snoc (costs : List Int) (cost : Int) :
    (costs ++ [cost]).scanl (· + ·) 0 = costs.scanl (· + ·) 0 ++ [costs.sum + cost] := by
  rw [List.scanl_append, ← List.sum_eq_foldl]
  rfl

/-- Read from the root on, the costs of the hops run through the accumulated costs of the arrivals. -/
theorem sums_of_walk {steps : List (Nat × Arrival)} (h : arena.Walk steps) : ∀ {hops : List Hop},
    (steps.mapM fun (_, node) => ofArrival dir arena node) = .ok hops →
      (hops.map (·.cost)).reverse.scanl (· + ·) 0 = 0 :: (steps.map (·.2.cost)).reverse ∧
      ∀ node ∈ steps.head?, (hops.map (·.cost)).sum = node.2.cost := by
  induction h with
  | @last id node _ hp =>
    intro hops hh
    obtain ⟨hop, _, hhop, hnil, rfl⟩ := mapM_cons_eq_ok.mp hh
    cases hnil
    obtain ⟨before, hbefore, -, -, -, hcost⟩ := ofArrival_of_result hhop
    have h0 : before = 0 := by
      rw [paid_of_root hp] at hbefore
      cases hbefore
      rfl
    have hcost : hop.cost = node.cost := by omega
    refine ⟨by simp [hcost], fun n hn => ?_⟩
    cases hn
    simp [hcost]
  | @hop id p node prev rest _ hp hwalk ih =>
    intro hops hh
    obtain ⟨hop, later, hhop, hlater, rfl⟩ := mapM_cons_eq_ok.mp hh
    obtain ⟨hsums, htotal⟩ := ih hlater
    have htotal : (later.map (·.cost)).sum = prev.cost := htotal (p, prev) rfl
    obtain ⟨before, hbefore, -, -, -, hcost⟩ := ofArrival_of_result hhop
    have hpaid : before = prev.cost := by
      rw [paid_of_previous hp hwalk.get_head] at hbefore
      cases hbefore
      rfl
    -- what was paid before the hop cancels against the sum of the hops before it
    have hcancel : prev.cost + hop.cost = node.cost := by omega
    refine ⟨?_, fun n hn => ?_⟩
    · rw [List.map_cons, List.reverse_cons, scanl_snoc, hsums, List.sum_reverse, htotal, hcancel]
      simp
    · cases hn
      show ((hop :: later).map (·.cost)).sum = node.cost
      rw [List.map_cons, List.sum_cons, htotal]
      omega

/-! ## Overflow -/

theorem origin_onlyOverflows (dir : Direction) (node : Arrival) : OnlyOverflows (origin dir node) := by
  unfold origin
  cases node.kind with
  | access leg => exact .bind (Direction.minus_onlyOverflows dir node.time leg.duration) fun _ _ => .ok _
  | transit boarding => exact .ok _
  | transfer fromStop duration => exact .bind (Direction.minus_onlyOverflows dir node.time duration) fun _ _ => .ok _

theorem ofArrival_onlyOverflows {node : Arrival} {before : Int} (h : paid arena node = .ok before) :
    OnlyOverflows (ofArrival dir arena node) := by
  rw [ofArrival_eq, h]
  refine .bind (.ok before) fun _ _ => .bind (origin_onlyOverflows dir node) fun _ _ => ?_
  exact .bind (Direction.fit_onlyOverflows rfl _) fun _ _ => .ok _

theorem paid_of_walk {steps : List (Nat × Arrival)} (h : arena.Walk steps) :
    ∀ step ∈ steps, ∃ before, paid arena step.2 = .ok before := by
  induction h with
  | last _ hp =>
    intro step hstep
    rw [List.mem_singleton.mp hstep]
    exact ⟨0, paid_of_root hp⟩
  | hop _ hp hwalk ih =>
    intro step hstep
    rcases List.mem_cons.mp hstep with rfl | hstep
    · exact ⟨_, paid_of_previous hp hwalk.get_head⟩
    · exact ih step hstep

end Hop

namespace Journey

variable {dir : Direction} {arena : Arena} {d : Destination} {iteration : Option Int}

theorem ofChain_onlyOverflows (ordered : arena.Ordered) {last : Arrival} (hlast : arena.get d.previous = .ok last) :
    OnlyOverflows (Map.ofChain dir arena d iteration) := by
  obtain ⟨rest, hchain, hwalk⟩ := walk_of_ordered ordered hlast
  have hhops : OnlyOverflows (Hop.all dir arena d) := by
    unfold Hop.all
    rw [hchain]
    refine .bind ?_ fun _ _ => .bind (.ok _) fun _ hsteps => .bind (.mapM fun step hstep => ?_) fun _ _ => .ok _
    · unfold Hop.ofDestination
      rw [hlast]
      exact .bind (.ok last) fun _ _ => .bind (Direction.fit_onlyOverflows rfl _) fun _ _ => .ok _
    · cases hsteps
      obtain ⟨before, hbefore⟩ := Hop.paid_of_walk hwalk step hstep
      exact Hop.ofArrival_onlyOverflows hbefore
  cases hall : Hop.all dir arena d with
  | error fault =>
    intro e he
    unfold Map.ofChain at he
    rw [hall] at he
    cases he
    exact hhops fault hall
  | ok hops =>
    obtain ⟨j, hj⟩ := ofChain_answers hall iteration
    rw [hj]
    exact .ok j

/-! ## Costs -/

/-- What is told of each leg, in the order in which the search made the legs. -/
def Map.inSearchOrder {α : Type} (dir : Direction) (legs : List α) : List α :=
  match dir with
  | .forward => legs
  | .reverse => legs.reverse

theorem costs_of_legs (dir : Direction) (hops : List Hop) :
    Map.inSearchOrder dir ((Map.legs dir hops).map (·.cost)) = (hops.map (·.cost)).reverse := by
  have hcost : (fun leg : JourneyLeg => leg.cost) ∘ (fun hop : Hop => hop.leg dir) = fun hop => hop.cost := rfl
  cases dir with
  | forward => simp only [Map.inSearchOrder, Map.legs, List.map_map, List.map_reverse, hcost]
  | reverse => simp only [Map.inSearchOrder, Map.legs, List.map_map, hcost]

theorem sum_inSearchOrder (dir : Direction) (costs : List Int) : (Map.inSearchOrder dir costs).sum = costs.sum := by
  cases dir with
  | forward => rfl
  | reverse => exact List.sum_reverse costs

/-- The legs of a mapped journey cost what the destination costs, and lead there through the costs of the chain. -/
theorem legs_of_ofChain (ordered : arena.Ordered) {j : Journey} (h : Map.ofChain dir arena d iteration = .ok j) :
    ∃ steps, arena.chain d.previous = .ok steps ∧ j.legs.length = steps.length + 1 ∧
      (j.legs.map (·.cost)).sum = j.cost ∧ j.cost = d.cost ∧
      (Map.inSearchOrder dir (j.legs.map (·.cost))).scanl (· + ·) 0 =
        0 :: ((steps.map (·.2.cost)).reverse ++ [d.cost]) := by
  obtain ⟨hops, first, last, hhops, -, -, rfl⟩ := ofChain_of_result h
  obtain ⟨egress, steps, later, hegress, hsteps, hlater, rfl⟩ := Hop.all_of_result hhops
  obtain ⟨node, rest, hnode, rfl, hwalk⟩ := walk_of_chain ordered hsteps
  obtain ⟨hsums, htotal⟩ := Hop.sums_of_walk hwalk hlater
  have htotal : (later.map (·.cost)).sum = node.cost := htotal _ rfl
  have hcost : egress.cost = d.cost - node.cost := by
    obtain ⟨last', hlast', rfl⟩ := Hop.ofDestination_of_result hegress
    cases hnode.symm.trans hlast'
    rfl
  have hcancel : node.cost + egress.cost = d.cost := by omega
  refine ⟨_, hsteps, ?_, ?_, rfl, ?_⟩
  · rw [legs_length, List.length_cons, mapM_length hlater]
  · show ((Map.legs dir (egress :: later)).map (·.cost)).sum = d.cost
    rw [← sum_inSearchOrder dir, costs_of_legs, List.sum_reverse, List.map_cons, List.sum_cons, htotal]
    omega
  · rw [costs_of_legs, List.map_cons, List.reverse_cons, Hop.scanl_snoc, hsums, List.sum_reverse, htotal, hcancel]
    simp

end Journey

/-! ## The collector -/

namespace Collector

theorem checkCost_of_ofChain {dir : Direction} {arena : Arena} {d : Destination} {iteration : Option Int} {j : Journey}
    (h : Journey.Map.ofChain dir arena d iteration = .ok j) (environment : Environment) (throttle : Throttle)
    (now : Nat) : checkCost environment throttle now arena d j = pure throttle :=
  checkCost_of_eq (Journey.cost_of_ofChain h)

theorem act_keeps_mismatches {dir : Direction} {c c' : Collector} {a : Act} (hmap : c.setup.map = .ofChain dir)
    (h : (c.act a).result = .ok c') : c'.mismatches = c.mismatches := by
  cases a with
  | add now arena id egress =>
    rcases add_of_result h with ⟨-, rfl⟩ | ⟨_, -, -, rfl⟩ | ⟨d, j, _, _, mismatches, -, -, hj, -, hcost, rfl⟩
    · rfl
    · rfl
    · rw [hmap] at hj
      exact hcost (Journey.cost_of_ofChain hj)
  | qualify => rw [act_qualify_of_result h]
  | reject => rw [act_reject_of_result h]
  | hear b =>
    cases h
    exact (hear_frame c b).2.2.1

theorem run_keeps_mismatches {dir : Direction} {setup : Setup} (hmap : setup.map = .ofChain dir) (acts : List Act) :
    ∀ {c c' : Collector}, IsFor setup c → (c.run acts).result = .ok c' → c'.mismatches = c.mismatches := by
  induction acts with
  | nil =>
    intro c c' _ h
    cases h
    rfl
  | cons a rest ih =>
    intro c c' hc h
    obtain ⟨t, ht, h⟩ := Run.result_bind_eq_ok.mp h
    have hstep : t.mismatches = c.mismatches := act_keeps_mismatches (by rw [hc.setup_eq, hmap]) ht
    rw [ih (act_isFor hc ht).1 h, hstep]

end Collector

/-! ## Any arena -/

/-- From any live arrival of any arena: the journey of a destination costs what the destination costs, leg by leg
along the chain, unless mapping it overflows. No collector with this map ever warns of a cost. -/
theorem ofChain_adds_up {allowed : Op → Bool} {arena : Arena} (reach : Reach allowed arena) {terms : Collaborators}
    {id : Nat} {egress : Leg} {d : Destination} (h : terms.destination? arena id egress = .ok (some d)) (dir : Direction)
    (iteration : Option Int) :
    ((∃ e, Journey.Map.ofChain dir arena d iteration = .error e ∧ e.isOverflow = true) ∨
      ∃ j steps, Journey.Map.ofChain dir arena d iteration = .ok j ∧ arena.chain id = .ok steps ∧
        j.legs.length = steps.length + 1 ∧ (j.legs.map (·.cost)).sum = j.cost ∧ j.cost = d.cost ∧
        (Journey.Map.inSearchOrder dir (j.legs.map (·.cost))).scanl (· + ·) 0 =
          0 :: ((steps.map (·.2.cost)).reverse ++ [d.cost]) ∧
        ∀ environment throttle now, Collector.checkCost environment throttle now arena d j = pure throttle) ∧
    ∀ (setup : Setup) (mismatches : Throttle) (acts : List Collector.Act) (c : Collector),
      setup.map = .ofChain dir → ((Collector.empty setup mismatches).run acts).result = .ok c →
        c.mismatches = mismatches := by
  constructor
  · obtain ⟨last, hlast, hprevious, -⟩ := Collaborators.destination_of_result h
    have ordered : arena.Ordered := reach_ordered reach
    rw [← hprevious] at hlast
    cases hj : Journey.Map.ofChain dir arena d iteration with
    | error e =>
      left
      exact ⟨e, rfl, Journey.ofChain_onlyOverflows ordered hlast e hj⟩
    | ok j =>
      right
      obtain ⟨steps, hsteps, hlength, hsum, hcost, hsums⟩ := Journey.legs_of_ofChain ordered hj
      rw [hprevious] at hsteps
      exact ⟨j, steps, rfl, hsteps, hlength, hsum, hcost, hsums, Collector.checkCost_of_ofChain hj⟩
  · intro setup mismatches acts c hmap hrun
    exact Collector.run_keeps_mismatches hmap acts (Collector.empty_isFor setup mismatches) hrun

/-- An arrive-by chain with an access leg in its middle and a walk that costs less than nothing. -/
theorem ofChain_adds_up_derived :
    let walk : Arrival := ⟨none, 0, 1, 940, 60, 6000, .access (.walk 1 60 6000)⟩
    let derived : Arrival := ⟨some 0, 5, 2, 800, 200, 25000, .access (.walk 9 30 0)⟩
    let last : Arrival := ⟨some 1, 6, 3, 700, 300, 24000, .transfer 2 100⟩
    let arena : Arena := ⟨.reverse, #[walk, derived, last]⟩
    Reach (fun _ => true) arena ∧ ∃ d j,
      Terms.destination? ⟨⟨.reverse, none⟩, some .standard, 60⟩ arena 2 (.flex 3 100 4000 1 false) = .ok (some d) ∧
      Journey.Map.ofChain .reverse arena d none = .ok j ∧ j.legs.map (·.cost) = [10000, -1000, 19000, 6000] ∧
      j.cost = 34000 ∧
      (Journey.Map.inSearchOrder .reverse (j.legs.map (·.cost))).scanl (· + ·) 0 = [0, 6000, 25000, 24000, 34000] := by
  intro walk derived last arena
  have reach : Reach (fun _ => true) arena :=
    .step (.transfer 1 3 700 24000) (.step (.derive 0 5 2 800 25000 (.access (.walk 9 30 0)))
      (.step (.access 1000 (.walk 1 60 6000)) (.empty .reverse) rfl rfl) rfl rfl) rfl rfl
  have hd : Terms.destination? ⟨⟨.reverse, none⟩, some .standard, 60⟩ arena 2 (.flex 3 100 4000 1 false) =
      .ok (some ⟨2, .flex 3 100 4000 1 false, 640, 540, 34000, 7, 3⟩) := by decide +kernel
  have hwalked : arena.chain 2 = .ok [(2, last), (1, derived), (0, walk)] := by decide +kernel
  rcases (ofChain_adds_up reach hd .reverse none).1 with ⟨e, he, -⟩ | ⟨j, steps, hj, hchain, -, -, hcost, hsums, -⟩
  · have hanswers : (Journey.Map.ofChain .reverse arena ⟨2, .flex 3 100 4000 1 false, 640, 540, 34000, 7, 3⟩
        none).isOk = true := by decide +kernel
    rw [he] at hanswers
    cases hanswers
  · cases hwalked.symm.trans hchain
    refine ⟨reach, _, j, hd, hj, ?_, hcost, hsums⟩
    have hlegs : (Journey.Map.ofChain .reverse arena ⟨2, .flex 3 100 4000 1 false, 640, 540, 34000, 7, 3⟩ none).map
        (fun j => j.legs.map (·.cost)) = .ok [10000, -1000, 19000, 6000] := by decide +kernel
    rw [hj] at hlegs
    exact Except.ok.inj hlegs

end TransitSearch
