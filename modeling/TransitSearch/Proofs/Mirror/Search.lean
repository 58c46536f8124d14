/-
  TransitSearch.Proofs.Mirror.Search — a search and its mirror, call by call.

  A search one way and a search the other way are carried along side by side, the second
  given the mirror of every call of the first (`Search.Mirrors`). One call keeps them each
  other's mirror and gives mirrored replies (`step_mirrors`), so a whole run does
  (`run_mirrors`), and so does every beginning of it (`run_is_mirrored`).

  An iteration is set up before the first offer or question: until then the start of a
  journey stands in for the iteration, which is not mirrored by the start of its mirror.
  What is written on the way is not compared, and a debug handler may differ; the results
  do not depend on either.
-/

import TransitSearch.Proofs.Mirror.Journey
import TransitSearch.Proofs.Search.Acts

namespace TransitSearch

open Pareto

/-- The second compares, reckons and maps as the first does, turned round. -/
structure Setup.Mirrors (a b : Setup) : Prop where
  order : b.order = a.order.mirror
  destination (arena : Arena) (id : Nat) (egress : Leg) :
    Matches (fun x y => y = x.map Destination.mirror) (a.terms.destination? arena id egress)
      (b.terms.destination? arena.mirror id egress.mirror)
  limit (time : Int) : b.terms.calculator.exceedsLimit (-time) = a.terms.calculator.exceedsLimit time
  map (arena : Arena) (d : Destination) (iteration : Int) :
    Matches (fun j k => k = j.mirror) (a.map arena d (some iteration)) (b.map arena.mirror d.mirror (some (-iteration)))

/-- Everything goes one way: the comparison, the calculator and the map of whole chains. -/
def Setup.directed (dir : Direction) (criteria : Criteria) (limit : Option Int) (costs : Option CostModel) (slack : Int)
    (handler : Option (DebugHandler Journey Notice)) (environment : Environment) : Setup :=
  { order := ⟨criteria, dir⟩, terms := Terms.collaborators ⟨⟨dir, limit⟩, costs, slack⟩, map := .ofChain dir, handler,
    environment }

theorem Setup.directed_mirrors (dir : Direction) (criteria : Criteria) (limit : Option Int) (costs : Option CostModel)
    (slack : Int) (handler handler' : Option (DebugHandler Journey Notice)) (environment environment' : Environment) :
    Setup.Mirrors (.directed dir criteria limit costs slack handler environment)
      (.directed dir.mirror criteria (limit.map (-·)) costs slack handler' environment') where
  order := rfl
  destination := Terms.destination_mirror ⟨⟨dir, limit⟩, costs, slack⟩
  limit := Calculator.exceedsLimit_mirror ⟨dir, limit⟩
  map := Journey.ofChain_mirror dir

/-! ## The pareto set -/

theorem ParetoSet.add_mirror {order : Journey.Order} {s t : ParetoSet Journey Notice}
    (hs : Computes s.advantage order.better) (ht : Computes t.advantage order.mirror.better)
    (hm : t.members = s.members.map Journey.mirror) (j : Journey) :
    Matches (fun x y => y.1 = x.1 ∧ y.2.members = x.2.members.map Journey.mirror)
      (s.add j).result (t.add j.mirror).result := by
  intro ⟨b, s'⟩ ⟨b', t'⟩ hx hy
  have hblock : Pareto.blocker order.mirror.better j.mirror t.members =
      (Pareto.blocker order.better j s.members).map Journey.mirror := by
    rw [hm, blocker_map order.better_mirror]
  rcases add_of_result hs hx with ⟨⟨m, hb⟩, rfl, rfl⟩ | ⟨hb, rfl, rfl⟩ <;>
    rcases add_of_result ht hy with ⟨⟨m', hb'⟩, rfl, rfl⟩ | ⟨hb', rfl, rfl⟩
  · exact ⟨rfl, hm⟩
  · rw [hblock, hb] at hb'
    cases hb'
  · rw [hblock, hb] at hb'
    cases hb'
  · refine ⟨rfl, ?_⟩
    rw [accepting_members, accepting_members, hm, undominated_map order.better_mirror, List.map_append]
    rfl

/-! ## The collector -/

namespace Collector

structure Mirrors (a b : Setup) (c c' : Collector) : Prop where
  left : IsFor a c
  right : IsFor b c'
  list : c'.list = c.list.map Journey.mirror
  reached : c'.reachedThisRound = c.reachedThisRound
  iteration : c'.iteration = c.iteration.map (-·)

variable {a b : Setup} {c c' : Collector}

theorem Mirrors.computes (hab : a.Mirrors b) (h : Mirrors a b c c') :
    Computes c'.journeys.advantage a.order.mirror.better := by
  rw [← hab.order]
  exact h.right.computes

theorem empty_mirrors (mismatches mismatches' : Throttle) : Mirrors a b (.empty a mismatches) (.empty b mismatches') :=
  ⟨empty_isFor a mismatches, empty_isFor b mismatches', rfl, rfl, rfl⟩

theorem Mirrors.hear (h : Mirrors a b c c') (boundary : Boundary) :
    Mirrors a b (c.hear boundary) (c'.hear boundary.mirror) := by
  obtain ⟨left, right, list, reached, iteration⟩ := h
  have left := (act_isFor (a := .hear boundary) left rfl).1
  have right := (act_isFor (a := .hear boundary.mirror) right rfl).1
  cases boundary with
  | iterationStart departure => exact ⟨left, right, list, reached, rfl⟩
  | roundStart round => exact ⟨left, right, list, rfl, iteration⟩
  | roundEnd destinationReached => exact ⟨left, right, list, reached, iteration⟩
  | iterationEnd => exact ⟨left, right, list, reached, iteration⟩

theorem Mirrors.add (hab : a.Mirrors b) (h : Mirrors a b c c') {iteration : Int} (hi : c.iteration = some iteration)
    (now : Nat) (arena : Arena) (id : Nat) (egress : Leg) :
    Matches (Mirrors a b) (c.add now arena id egress).result (c'.add now arena.mirror id egress.mirror).result := by
  intro x y hx hy
  have hfor := (act_isFor (a := .add now arena id egress) h.left hx).1
  have hfor' := (act_isFor (a := .add now arena.mirror id egress.mirror) h.right hy).1
  have hi' : c'.iteration = some (-iteration) := by rw [h.iteration, hi, Option.map_some]
  have hdestination := hab.destination arena id egress
  have hx' := add_of_result hx
  have hy' := add_of_result hy
  rw [h.left.setup_eq, hi] at hx'
  rw [h.right.setup_eq, hi'] at hy'
  -- both reach the destination or neither does, on the same side of the limit
  rcases hx' with ⟨hd, rfl⟩ | ⟨d, hd, hlimit, rfl⟩ | ⟨d, j, kept, journeys, mismatches, hd, hlimit, hj, hk, -, rfl⟩ <;>
    rcases hy' with ⟨hd', rfl⟩ | ⟨d', hd', hlimit', rfl⟩ |
      ⟨d', j', kept', journeys', mismatches', hd', hlimit', hj', hk', -, rfl⟩ <;>
    cases hdestination _ _ hd hd'
  · exact h
  · exact h
  · rw [← hab.limit] at hlimit
    cases hlimit.symm.trans hlimit'
  · rw [← hab.limit] at hlimit
    cases hlimit.symm.trans hlimit'
  · have hjj := hab.map arena d iteration _ _ hj hj'
    subst hjj
    obtain ⟨hkept, hmembers⟩ := ParetoSet.add_mirror h.left.computes (h.computes hab) h.list j _ _ hk hk'
    refine ⟨hfor, hfor', hmembers, ?_, rfl⟩
    show (c'.reachedThisRound || kept') = (c.reachedThisRound || kept)
    rw [h.reached, show kept' = kept from hkept]

theorem Mirrors.qualify (hab : a.Mirrors b) (h : Mirrors a b c c') {iteration : Int}
    (hi : c.iteration = some iteration) (departure arrival : Int) (transfers : Nat) (cost : Int) :
    Matches Eq (c.qualify departure arrival transfers cost) (c'.qualify (-arrival) (-departure) transfers cost) := by
  intro x y hx hy
  unfold Collector.qualify at hx hy
  rw [h.iteration, hi] at hy
  rw [hi] at hx
  rw [ParetoSet.qualify_of_result h.left.computes hx, ParetoSet.qualify_of_result (h.computes hab) hy]
  have hm : c'.journeys.members = c.journeys.members.map Journey.mirror := h.list
  simp only [Option.map_some, Option.getD_some, hm, ← Journey.summary_mirror, blocker_map a.order.better_mirror,
    Option.isNone_map]

end Collector

/-! ## One call -/

namespace LifeCycle

theorem setupIteration_mirror (cycle : LifeCycle) (departure : Int) :
    Matches (fun x y => y = (x.1.mirror, x.2.mirror)) (cycle.setupIteration departure).result
      (cycle.mirror.setupIteration (-departure)).result := by
  intro x y hx hy
  cases hx
  cases hy
  rfl

theorem nextRound_mirror (cycle : LifeCycle) :
    Matches (fun x y => y = (x.1.mirror, x.2.mirror)) cycle.nextRound.result cycle.mirror.nextRound.result := by
  refine Run.matches_bind (.refl _) fun round _ h => ?_
  subst h
  exact .pure rfl

end LifeCycle

namespace Search

structure Mirrors (a b : Setup) (s t : Search) : Prop where
  arena : t.arena = s.arena.mirror
  cycle : t.cycle = s.cycle.mirror
  collector : s.collector.Mirrors a b t.collector

/-- Mirrored replies, from searches that are still each other's mirror. -/
def Answers (a b : Setup) (x y : Reply × Search) : Prop := y.1 = x.1.mirror ∧ Mirrors a b x.2 y.2

variable {a b : Setup} {s t : Search}

theorem start_mirrors (dir : Direction) : Mirrors a b (start dir a) (start dir.mirror b) :=
  ⟨(Arena.mirror_empty dir).symm, rfl, Collector.empty_mirrors _ _⟩

theorem appended_mirrors (h : Mirrors a b s t) {x y : Except Fault (Arena × Nat)} (hxy : Matches Arena.Appends x y) :
    Matches (Answers a b) (s.appended x).result (t.appended y).result := by
  refine Run.matches_bind hxy fun ⟨arena, id⟩ _ hp => ?_
  cases hp
  exact .pure ⟨rfl, rfl, h.cycle, h.collector⟩

theorem announced_mirrors (h : Mirrors a b s t) {x y : Run LogEvent (LifeCycle × Boundary)}
    (hxy : Matches (fun p q => q = (p.1.mirror, p.2.mirror)) x.result y.result) :
    Matches (Answers a b) (s.announced x).result (t.announced y).result := by
  refine Run.matches_bind hxy fun ⟨cycle, boundary⟩ _ hp => ?_
  subst hp
  exact .pure ⟨rfl, h.arena, rfl, h.collector.hear boundary⟩

theorem shift_mirrors (h : Mirrors a b s t) (id : Nat) (requested : Int) :
    Matches (Answers a b) (s.step (.shift id requested)).result (t.step (.shift id (-requested))).result := by
  refine Run.matches_bind (r := Arena.Shifts) ?_ fun ⟨outcome, arena⟩ _ hp => ?_
  · rw [h.arena]
    exact s.arena.shift_mirror id requested
  · subst hp
    cases outcome with
    | ok id => exact .pure ⟨rfl, rfl, h.cycle, h.collector⟩
    | error why => exact .pure ⟨rfl, rfl, h.cycle, h.collector⟩

theorem step_mirrors (hab : a.Mirrors b) (h : Mirrors a b s t) (call : Call)
    (hi : call.usesIteration = true → s.collector.iteration.isSome = true) :
    Matches (Answers a b) (s.step call).result (t.step call.mirror).result := by
  cases call with
  | access departure leg =>
    refine appended_mirrors h ?_
    rw [h.arena]
    exact s.arena.access_mirror departure leg
  | transit previous stop time cost boarding =>
    refine appended_mirrors h ?_
    rw [h.arena]
    exact s.arena.transit_mirror previous stop time cost boarding
  | transfer previous stop time cost =>
    refine appended_mirrors h ?_
    rw [h.arena]
    exact s.arena.transfer_mirror previous stop time cost
  | derive previous increment stop time cost kind =>
    refine appended_mirrors h ?_
    rw [h.arena]
    exact s.arena.derive_mirror previous increment stop time cost kind
  | shift id requested => exact shift_mirrors h id requested
  | clear => exact .pure ⟨rfl, by rw [h.arena, Arena.mirror_clear], h.cycle, h.collector⟩
  | add now id egress =>
    obtain ⟨iteration, hi⟩ := Option.isSome_iff_exists.mp (hi rfl)
    refine Run.matches_bind (r := Collector.Mirrors a b) ?_ fun c c' hc => .pure ⟨rfl, h.arena, h.cycle, hc⟩
    rw [h.arena]
    exact h.collector.add hab hi now s.arena id egress
  | qualify departure arrival transfers cost =>
    obtain ⟨iteration, hi⟩ := Option.isSome_iff_exists.mp (hi rfl)
    refine Run.matches_bind (h.collector.qualify hab hi departure arrival transfers cost) fun x _ hx => ?_
    subst hx
    exact .pure ⟨rfl, h⟩
  | reject id egress reason =>
    exact Run.matches_bind (r := fun _ _ => True) (fun _ _ _ _ => trivial) fun _ _ _ => .pure ⟨rfl, h⟩
  | setIteration departure =>
    exact .pure ⟨rfl, h.arena, h.cycle, h.collector.hear (.iterationStart departure)⟩
  | setupIteration departure =>
    refine announced_mirrors h ?_
    rw [h.cycle]
    exact s.cycle.setupIteration_mirror departure
  | nextRound =>
    refine announced_mirrors h ?_
    rw [h.cycle]
    exact s.cycle.nextRound_mirror
  | roundComplete destinationReached =>
    refine announced_mirrors h ?_
    rw [h.cycle]
    exact .pure rfl
  | iterationComplete =>
    refine announced_mirrors h ?_
    rw [h.cycle]
    exact .pure rfl

/-! ## Any calls -/

theorem iterationFirst_cons {call : Call} {rest : List Call} {iteration : Option Int}
    (hi : iteration.isSome = true ∨ iterationFirst (call :: rest) = true) :
    (call.usesIteration = true → iteration.isSome = true) ∧
      ((call.iterationAfter iteration).isSome = true ∨ iterationFirst rest = true) := by
  cases call <;> simp_all [iterationFirst, Call.usesIteration, Call.setsIteration, Call.iterationAfter]

theorem run_mirrors (hab : a.Mirrors b) (calls : List Call) : ∀ {s t : Search}, Mirrors a b s t →
    (s.collector.iteration.isSome = true ∨ iterationFirst calls = true) →
      Matches (fun x y => y.1 = x.1.map Reply.mirror ∧ Mirrors a b x.2 y.2)
        (s.run calls).result (t.run (calls.map Call.mirror)).result := by
  induction calls with
  | nil =>
    intro s t h _
    exact .pure ⟨rfl, h⟩
  | cons call rest ih =>
    intro s t h hi ⟨replies, s''⟩ ⟨replies', t''⟩ hx hy
    obtain ⟨huses, hafter⟩ := iterationFirst_cons hi
    obtain ⟨reply, s', rs, hs, hu, rfl⟩ := run_cons_eq_ok.mp hx
    obtain ⟨reply', t', rs', ht, hv, rfl⟩ := run_cons_eq_ok.mp hy
    obtain ⟨hreply, h'⟩ := step_mirrors hab h call huses _ _ hs ht
    rw [← (step_isFor h.collector.left hs).2] at hafter
    obtain ⟨hrs, huv⟩ := ih h' hafter _ _ hu hv
    refine ⟨?_, huv⟩
    rw [show reply' = reply.mirror from hreply, show rs' = rs.map Reply.mirror from hrs, List.map_cons]

theorem iterationFirst_append {pre post : List Call} (h : iterationFirst (pre ++ post) = true) :
    iterationFirst pre = true := by
  induction pre with
  | nil => rfl
  | cons call rest ih =>
    simp only [List.cons_append, iterationFirst, Bool.or_eq_true, Bool.and_eq_true] at h ⊢
    exact h.imp_right fun hr => ⟨hr.1, ih hr.2⟩

/-- A search one way and its mirror the other way, both to the end: after every call the replies so far, the arena,
the journeys listed and the flag are each other's mirror. -/
theorem run_is_mirrored (dir : Direction) (criteria : Criteria) (limit : Option Int) (costs : Option CostModel)
    (slack : Int) (handler handler' : Option (DebugHandler Journey Notice)) (environment environment' : Environment)
    {calls : List Call} (hfirst : iterationFirst calls = true) {replies replies' : List Reply} {s t : Search}
    (hs : ((start dir (.directed dir criteria limit costs slack handler environment)).run calls).result = .ok (replies, s))
    (ht : ((start dir.mirror (.directed dir.mirror criteria (limit.map (-·)) costs slack handler' environment')).run
      (calls.map Call.mirror)).result = .ok (replies', t)) :
    replies' = replies.map Reply.mirror ∧ ∀ pre post, calls = pre ++ post → ∃ first u first' v,
      ((start dir (.directed dir criteria limit costs slack handler environment)).run pre).result = .ok (first, u) ∧
      ((start dir.mirror (.directed dir.mirror criteria (limit.map (-·)) costs slack handler' environment')).run
        (pre.map Call.mirror)).result = .ok (first', v) ∧
      first' = first.map Reply.mirror ∧
      v.arena = u.arena.mirror ∧
      v.collector.list = u.collector.list.map Journey.mirror ∧
      v.collector.reachedThisRound = u.collector.reachedThisRound := by
  have hab := Setup.directed_mirrors dir criteria limit costs slack handler handler' environment environment'
  have hstart := start_mirrors (a := .directed dir criteria limit costs slack handler environment)
    (b := .directed dir.mirror criteria (limit.map (-·)) costs slack handler' environment') dir
  refine ⟨(run_mirrors hab calls hstart (Or.inr hfirst) _ _ hs ht).1, fun pre post hcalls => ?_⟩
  subst hcalls
  rw [List.map_append] at ht
  obtain ⟨first, u, -, hu, -, -⟩ := run_append_of_result hs
  obtain ⟨first', v, -, hv, -, -⟩ := run_append_of_result ht
  obtain ⟨hreplies, h⟩ := run_mirrors hab pre hstart (Or.inr (iterationFirst_append hfirst)) _ _ hu hv
  exact ⟨first, u, first', v, hu, hv, hreplies, h.arena, h.collector.list, h.collector.reached⟩

/-- An access leg with hours is re-timed, a ride and a walk follow, and two re-timings are refused. -/
theorem run_is_mirrored_ride :
    let calls : List Call := [.setupIteration 28000, .access 28000 (.withHours (.walk 1 300 0) 27000 29000),
      .shift 0 28900, .transit 1 2 30000 0 ⟨1, 29000, 7⟩, .transfer 2 3 30100 0, .shift 3 30100, .shift 0 27000,
      .nextRound, .add 0 3 (.walk 3 100 0), .qualify 28600 30200 0 0]
    let replies : List Reply := [.done, .arrival 0, .arrival 1, .arrival 2, .arrival 3,
      .notShifted (.unsupported "transfer" 3), .notShifted (.notAvailable 1 27000), .done, .done, .qualified false]
    let environment : Environment := ⟨.system, fun _ _ => true⟩
    let x := ((start .forward (.directed .forward .timetable (some 31000) none 60 none environment)).run calls).result
    let y := ((start .reverse (.directed .reverse .timetable (some (-31000)) none 60 none environment)).run
      (calls.map Call.mirror)).result
    iterationFirst calls = true ∧ ∃ s t, x = .ok (replies, s) ∧ y = .ok (replies.map Reply.mirror, t) ∧
      s.collector.list.map (fun j => (j.startTime, j.endTime)) = [(28600, 30200)] ∧
      t.collector.list = s.collector.list.map Journey.mirror := by
  intro calls replies environment x y
  have hx : (x.toOption.map fun r => (r.1, r.2.collector.list.map fun j => (j.startTime, j.endTime))) =
      some (replies, [(28600, 30200)]) := by decide +kernel
  obtain ⟨⟨rs, s⟩, hs⟩ := ok_of_isOk (x := x) (by decide +kernel)
  obtain ⟨⟨rs', t⟩, ht⟩ := ok_of_isOk (x := y) (by decide +kernel)
  simp only [hs, Except.toOption, Option.map_some, Option.some.injEq, Prod.mk.injEq] at hx
  obtain ⟨rfl, hlist⟩ := hx
  obtain ⟨rfl, heach⟩ := run_is_mirrored .forward .timetable (some 31000) none 60 none none environment environment
    (by decide +kernel) hs ht
  obtain ⟨_, u, _, v, hu, hv, -, -, hlists, -⟩ := heach calls [] (List.append_nil _).symm
  cases hs.symm.trans hu
  cases ht.symm.trans hv
  exact ⟨by decide +kernel, s, t, hs, ht, hlist, hlists⟩

end Search

end TransitSearch
