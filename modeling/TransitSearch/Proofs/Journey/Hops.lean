/-
  TransitSearch.Proofs.Journey.Hops — hops join up in search order.

  The start of a hop comes from the arrival it leads to: the arrival time less the duration
  of the access leg or of the walk, or the place and time of boarding. Its end is where and
  when that arrival stands, and the next hop starts from there. So nothing in a hop refers
  to the hop before it, and that the two meet has to come from how the arrivals were made
  (`Follows`) and from times that go on in search order (`Steady`).

  `Rooted` collects what holds of the hops from an arrival back to its root. A hop in front
  keeps it (`Rooted.cons`), so it holds of every walk (`rooted_of_walk`), and it holds
  with the egress hop in front of all (`joins_of_destination`).
-/

import Mathlib.Data.List.Chain
import TransitSearch.Proofs.Arena.Traced
import TransitSearch.Proofs.Calculator
import TransitSearch.Proofs.Destination
import TransitSearch.Proofs.Journey.Map

namespace TransitSearch

open Arena

/-! ## Times along a chain -/

namespace Arrival

/-- Time does not go back from `prev` to `node`, and a ride is boarded where `prev` stands, between the two. -/
def Steady (dir : Direction) (node prev : Arrival) : Prop :=
  match node.kind with
  | .access _ => True
  | .transit boarding =>
    boarding.stop = prev.stop ∧ dir.NoLater prev.time boarding.time ∧ dir.NoLater boarding.time node.time
  | .transfer .. => dir.NoLater prev.time node.time

/-- From an arrival back to its root: no step goes back in time. -/
structure Travels (dir : Direction) (nodes : List Arrival) : Prop where
  outset : ∀ node ∈ nodes, ∀ leg, node.kind = .access leg → 0 ≤ leg.duration
  steady : nodes.IsChain (Steady dir)

theorem Travels.tail {dir : Direction} {node : Arrival} {rest : List Arrival} (h : Travels dir (node :: rest)) :
    Travels dir rest :=
  ⟨fun n hn => h.outset n (List.mem_cons_of_mem _ hn), h.steady.tail⟩

end Arrival

/-! ## Hops -/

def HopKind.inNetwork : HopKind → Bool
  | .transit _ | .transfer => true
  | .searchAccess | .searchEgress => false

namespace Hop

/-- `hop` starts where `before` ends, and not before; a walk starts at once. -/
structure Joins (dir : Direction) (hop before : Hop) : Prop where
  departs : hop.kind ≠ .searchAccess
  arrives : before.kind ≠ .searchEgress
  stop : before.finish.stop = hop.start.stop
  time : dir.NoLater before.finish.time hop.start.time
  touches : hop.kind = .transfer → before.finish.time = hop.start.time

/-- The hops from an arrival back to its root. -/
structure Rooted (dir : Direction) (hops : List Hop) : Prop where
  ends : ∃ rides access, hops = rides ++ [access] ∧ access.kind = .searchAccess ∧
    ∀ hop ∈ rides, hop.kind.inNetwork = true
  onward : ∀ hop ∈ hops, dir.NoLater hop.start.time hop.finish.time
  joined : hops.IsChain (Joins dir)

variable {dir : Direction} {arena : Arena} {node prev : Arrival} {hop before : Hop}

theorem Rooted.access (hkind : hop.kind = .searchAccess) (honward : dir.NoLater hop.start.time hop.finish.time) :
    Rooted dir [hop] := by
  refine ⟨⟨[], hop, rfl, hkind, nofun⟩, fun h hh => ?_, .singleton hop⟩
  rw [List.mem_singleton.mp hh]
  exact honward

theorem Rooted.cons {rest : List Hop} (h : Rooted dir (before :: rest)) (hkind : hop.kind.inNetwork = true)
    (honward : dir.NoLater hop.start.time hop.finish.time) (hjoins : Joins dir hop before) :
    Rooted dir (hop :: before :: rest) := by
  obtain ⟨rides, access, hends, haccess, hrides⟩ := h.ends
  refine ⟨⟨hop :: rides, access, by rw [hends, List.cons_append], haccess, ?_⟩, ?_, .cons_cons hjoins h.joined⟩
  · exact List.forall_mem_cons.mpr ⟨hkind, hrides⟩
  · exact List.forall_mem_cons.mpr ⟨honward, h.onward⟩

/-! ## One arrival -/

theorem finish_of_result (h : ofArrival dir arena node = .ok hop) : hop.finish = ⟨node.stop, node.time⟩ := by
  obtain ⟨_, -, -, hfinish, -, -⟩ := ofArrival_of_result h
  exact hfinish

theorem kind_ne_egress (h : ofArrival dir arena node = .ok hop) : hop.kind ≠ .searchEgress := by
  obtain ⟨_, -, horigin, -, -, -⟩ := ofArrival_of_result h
  intro hkind
  unfold origin at horigin
  cases hk : node.kind with
  | access | transfer =>
    simp only [hk, bind_eq_ok, pure_eq_ok, Prod.mk.injEq] at horigin
    obtain ⟨_, -, hne, -⟩ := horigin
    rw [hkind] at hne
    cases hne
  | transit =>
    simp only [hk, pure_eq_ok, Prod.mk.injEq] at horigin
    rw [hkind] at horigin
    cases horigin.1

theorem access_onward {leg : Leg} (hk : node.kind = .access leg) (hduration : 0 ≤ leg.duration)
    (h : ofArrival dir arena node = .ok hop) :
    hop.kind = .searchAccess ∧ dir.NoLater hop.start.time hop.finish.time := by
  obtain ⟨_, -, horigin, hfinish, -, -⟩ := ofArrival_of_result h
  simp only [origin, hk, bind_eq_ok, pure_eq_ok, Prod.mk.injEq] at horigin
  obtain ⟨start, hstart, hkind, heq⟩ := horigin
  refine ⟨hkind.symm, ?_⟩
  rw [hfinish, ← heq, Direction.noLater_iff]
  show dir.pos start ≤ dir.pos node.time
  obtain ⟨-, hpos⟩ := Direction.minus_eq_ok.mp hstart
  omega

theorem joins_of_follows (hf : Follows dir prev node) (hs : node.Steady dir prev)
    (h : ofArrival dir arena node = .ok hop) (hprev : ofArrival dir arena prev = .ok before) :
    hop.kind.inNetwork = true ∧ dir.NoLater hop.start.time hop.finish.time ∧ Joins dir hop before := by
  obtain ⟨_, -, horigin, hfinish, -, -⟩ := ofArrival_of_result h
  have hbefore : before.finish = ⟨prev.stop, prev.time⟩ := finish_of_result hprev
  have harrives : before.kind ≠ .searchEgress := kind_ne_egress hprev
  cases hf with
  | transit boarding _ hk =>
    simp only [Arrival.Steady, hk] at hs
    obtain ⟨hstop, hboards, hrides⟩ := hs
    simp only [origin, hk, pure_eq_ok, Prod.mk.injEq] at horigin
    obtain ⟨hkind, hstart⟩ := horigin
    refine ⟨by rw [← hkind]; rfl, by rwa [hfinish, ← hstart], ?_⟩
    refine ⟨by simp [← hkind], harrives, ?_, ?_, by simp [← hkind]⟩
    · rw [hbefore, ← hstart, hstop]
    · rwa [hbefore, ← hstart]
  | transfer duration _ hd hk =>
    simp only [Arrival.Steady, hk] at hs
    simp only [origin, hk, bind_eq_ok, pure_eq_ok, Prod.mk.injEq] at horigin
    obtain ⟨start, hstart, hkind, hstart'⟩ := horigin
    -- the walk has taken all the time since `prev`, so going back by it leads to `prev` again
    have htouches : start = prev.time := by
      obtain ⟨-, hduration⟩ := Direction.between_eq_ok.mp hd
      obtain ⟨-, hpos⟩ := Direction.minus_eq_ok.mp hstart
      have hpos : dir.pos start = dir.pos prev.time := by omega
      exact Direction.pos_inj.mp hpos
    subst htouches
    refine ⟨by rw [← hkind]; rfl, by rwa [hfinish, ← hstart'], ?_⟩
    refine ⟨by simp [← hkind], harrives, ?_, ?_, fun _ => ?_⟩
    · rw [hbefore, ← hstart']
    · rw [hbefore, ← hstart']
      exact Direction.noLater_iff.mpr (Int.le_refl _)
    · rw [hbefore, ← hstart']

/-! ## A whole chain -/

theorem rooted_of_walk {steps : List (Nat × Arrival)} (walk : arena.Walk steps) :
    (∀ step ∈ steps, arena.Stands step.1 step.2) → Arrival.Travels arena.direction (steps.map (·.2)) →
    ∀ {hops : List Hop}, (steps.mapM fun (_, node) => ofArrival arena.direction arena node) = .ok hops →
      Rooted arena.direction hops := by
  induction walk with
  | @last id node _ hp =>
    intro stands travels hops hh
    obtain ⟨hop, _, hhop, hnil, rfl⟩ := mapM_cons_eq_ok.mp hh
    cases hnil
    obtain ⟨leg, hroot⟩ := (stands (id, node) List.mem_cons_self).root_of_none hp
    have hduration : 0 ≤ leg.duration := travels.outset node List.mem_cons_self leg hroot.kind
    obtain ⟨hkind, honward⟩ := access_onward hroot.kind hduration hhop
    exact .access hkind honward
  | @hop id p node prev rest _ hp hwalk ih =>
    intro stands travels hops hh
    obtain ⟨hop, later, hhop, hlater, rfl⟩ := mapM_cons_eq_ok.mp hh
    obtain ⟨hstands, stands⟩ := List.forall_mem_cons.mp stands
    have hrooted : Rooted arena.direction later := ih stands travels.tail hlater
    obtain ⟨before, others, hbefore, -, rfl⟩ := mapM_cons_eq_ok.mp hlater
    have hfollows : Follows arena.direction prev node := hstands.follows hp hwalk.get_head
    have hsteady : node.Steady arena.direction prev := travels.steady.rel
    obtain ⟨hkind, honward, hjoins⟩ := joins_of_follows hfollows hsteady hhop hbefore
    exact hrooted.cons hkind honward hjoins

theorem joins_of_destination {terms : Terms} {egress : Leg} {d : Destination} {last : Arrival}
    (hdir : terms.calculator.direction = dir) (hslack : 0 ≤ terms.slack) (hduration : 0 ≤ egress.duration)
    (hd : terms.collaborators.Joins last egress d) (hlast : arena.get d.previous = .ok last)
    (h : ofDestination arena d = .ok hop) (hbefore : ofArrival dir arena last = .ok before) :
    hop.kind = .searchEgress ∧ dir.NoLater hop.start.time hop.finish.time ∧ Joins dir hop before := by
  subst hdir
  obtain ⟨last', hlast', rfl⟩ := ofDestination_of_result h
  cases hlast.symm.trans hlast'
  have hfinish : before.finish = ⟨last.stop, last.time⟩ := finish_of_result hbefore
  obtain ⟨-, harrival⟩ := Direction.plus_eq_ok.mp hd.arrival
  have hdeparture : terms.calculator.direction.pos last.time + Calculator.lead egress terms.slack ≤
      terms.calculator.direction.pos d.departure := Calculator.pos_of_egressDeparture hd.departure
  have hlead : 0 ≤ Calculator.lead egress terms.slack := Calculator.lead_nonneg hslack egress
  refine ⟨rfl, Direction.noLater_iff.mpr ?_, nofun, kind_ne_egress hbefore, by rw [hfinish], ?_, nofun⟩
  · show terms.calculator.direction.pos d.departure ≤ terms.calculator.direction.pos d.arrival
    omega
  · rw [hfinish, Direction.noLater_iff]
    show terms.calculator.direction.pos last.time ≤ terms.calculator.direction.pos d.departure
    omega

/-! ## Overflow -/

theorem ofArrival_answers_iff {paidBefore : Int} (hpaid : paid arena node = .ok paidBefore)
    {o : HopKind × Endpoint} (horigin : origin dir node = .ok o) :
    (∃ hop, ofArrival dir arena node = .ok hop) ↔ Checked.Fits (node.cost - paidBefore) := by
  constructor
  · rintro ⟨hop, h⟩
    obtain ⟨before, hbefore, -, -, hfits, -⟩ := ofArrival_of_result h
    cases hpaid.symm.trans hbefore
    exact hfits
  · intro hfits
    simp only [ofArrival_eq, bind_eq_ok, Checked.sub_ok_iff, pure_eq_ok]
    exact ⟨_, paidBefore, hpaid, o, horigin, _, ⟨hfits, rfl⟩, rfl⟩

/-- Where a hop began can be told: the time back to there is a time that was told before. -/
theorem origin_answers (reach : Reach Op.inRange arena) {id : Nat} (hget : arena.get id = .ok node)
    (hstands : arena.Stands id node) : ∃ o, origin arena.direction node = .ok o := by
  cases hstands with
  | root _ hroot =>
    obtain ⟨leg, departure, hk, hback⟩ := (reach_inRange reach id node hget).departure hroot.previous
    rw [origin, hk]
    exact ⟨_, bind_eq_ok.mpr ⟨departure, hback, rfl⟩⟩
  | hop p prev hp hlt hprev hf =>
    cases hf with
    | transit boarding _ hk =>
      rw [origin, hk]
      exact ⟨_, rfl⟩
    | transfer duration _ hd hk =>
      have hback := Direction.minus_of_between hd (reach_inRange reach p prev hprev).time
      rw [origin, hk]
      exact ⟨_, bind_eq_ok.mpr ⟨prev.time, hback, rfl⟩⟩

/-- What had been paid at each arrival of a chain, and nothing at its outset. -/
def costs (steps : List (Nat × Arrival)) : List Int := steps.map (·.2.cost) ++ [0]

theorem hops_answer_iff {steps : List (Nat × Arrival)} (walk : arena.Walk steps) :
    (∀ step ∈ steps, ∃ o, origin dir step.2 = .ok o) →
    ((∃ hops, (steps.mapM fun (_, node) => ofArrival dir arena node) = .ok hops) ↔
      (costs steps).IsChain fun cost before => Checked.Fits (cost - before)) := by
  simp only [mapM_answers]
  induction walk with
  | @last id node _ hp =>
    intro horigin
    obtain ⟨o, ho⟩ := horigin _ List.mem_cons_self
    rw [List.forall_mem_singleton, ofArrival_answers_iff (paid_of_root hp) ho]
    show _ ↔ List.IsChain _ [node.cost, 0]
    rw [List.isChain_pair]
  | @hop id p node prev rest _ hp hwalk ih =>
    intro horigin
    obtain ⟨⟨o, ho⟩, horigin⟩ := List.forall_mem_cons.mp horigin
    rw [List.forall_mem_cons, ih horigin, ofArrival_answers_iff (paid_of_previous hp hwalk.get_head) ho]
    show _ ↔ List.IsChain _ (node.cost :: prev.cost :: (rest.map (·.2.cost) ++ [0]))
    rw [List.isChain_cons_cons]
    rfl

theorem ofDestination_answers {terms : Collaborators} {egress : Leg} {d : Destination} {last : Arrival}
    (hd : terms.Joins last egress d) (hlast : arena.get d.previous = .ok last) :
    ∃ hop, ofDestination arena d = .ok hop := by
  obtain ⟨added, hadded, hcost⟩ := hd.cost
  have hback : d.cost - last.cost = added := by omega
  have hfits : Checked.Fits (d.cost - last.cost) := by
    rw [hback]
    exact Collaborators.fits_of_addedCost hadded
  exact ⟨_, bind_eq_ok.mpr ⟨last, hlast, bind_eq_ok.mpr ⟨_, Checked.sub_ok_iff.mpr ⟨hfits, rfl⟩, rfl⟩⟩⟩

end Hop

end TransitSearch
