/-
  TransitSearch.Proofs.Destination — what a destination arrival is made of.

  `Collaborators.Joins` lists what the collaborators of a search make of an arrival and an
  egress leg; a destination that is given is always such a join (`destination_of_result`).
  What an egress leg adds to the cost is a number of 32 bits (`fits_of_addedCost`). The
  terms that come with the search are a case (`Terms.destination_of_result`).

  Nothing but the cost depends on what waiting and the leg cost, so the same join is there
  for prices that are set in any way (`TransitCalculator.destination?`).
-/

import TransitSearch.Destination
import TransitSearch.Proofs.Results

namespace TransitSearch

variable {slack : Int} {price : Int → Leg → Except Fault Int} {arena : Arena} {id : Nat} {egress : Leg}
  {d : Destination}

/-! ## Any prices -/

namespace TransitCalculator

variable {c : TransitCalculator}

theorem egressDeparture_of_destination {d? : Option Destination}
    (h : c.destination? slack price arena id egress = .ok d?) :
    ∃ node start, arena.get id = .ok node ∧ c.egressDeparture node.time egress slack = .ok start ∧
      d?.map (·.departure) = start := by
  simp only [destination?, bind_eq_ok] at h
  obtain ⟨node, hnode, start, hstart, h⟩ := h
  refine ⟨node, start, hnode, hstart, ?_⟩
  cases start with
  | none =>
    cases h
    rfl
  | some departure =>
    simp only [bind_eq_ok, pure_eq_ok] at h
    obtain ⟨_, -, _, -, _, -, _, -, _, -, _, -, _, -, _, -, rfl⟩ := h
    rfl

theorem destination_of_result (h : c.destination? slack price arena id egress = .ok (some d)) :
    ∃ node added, arena.get id = .ok node ∧ d.previous = id ∧ d.egress = egress ∧
      c.egressDeparture node.time egress slack = .ok (some d.departure) ∧
      c.plusDuration d.departure egress.duration = .ok d.arrival ∧
      price (d.departure - node.time).natAbs egress = .ok added ∧ d.cost = node.cost + added ∧
      d.paretoRound = node.paretoRound + 1 ∧ d.transfers = (node.paretoRound + 1) / 2 + egress.rides - 1 := by
  simp only [destination?, bind_eq_ok] at h
  obtain ⟨node, hnode, departure?, hdeparture, h⟩ := h
  cases departure? with
  | none => cases h
  | some departure =>
    simp only [bind_eq_ok, Checked.sub_ok_iff, Checked.abs_ok_iff, Checked.add_ok_iff, Checked.addCount_ok_iff,
      Arrival.round, roundOf, map_eq_ok, pure_eq_ok, Option.some.injEq] at h
    obtain ⟨arrival, harrival, _, ⟨-, rfl⟩, _, ⟨-, rfl⟩, added, hadded, _, ⟨_, ⟨-, rfl⟩, rfl⟩, _, ⟨-, rfl⟩,
      _, ⟨-, rfl⟩, _, ⟨-, rfl⟩, rfl⟩ := h
    exact ⟨node, added, hnode, rfl, rfl, hdeparture, harrival, hadded, rfl, rfl, rfl⟩

theorem fits_wait_of_destination (h : c.destination? slack price arena id egress = .ok (some d)) :
    ∃ node, arena.get id = .ok node ∧ Checked.Fits (d.departure - node.time).natAbs := by
  simp only [destination?, bind_eq_ok] at h
  obtain ⟨node, hnode, departure?, -, h⟩ := h
  cases departure? with
  | none => cases h
  | some departure =>
    simp only [bind_eq_ok, Checked.sub_ok_iff, Checked.abs_ok_iff, pure_eq_ok, Option.some.injEq] at h
    obtain ⟨_, -, _, ⟨-, rfl⟩, _, ⟨hwait, rfl⟩, _, -, _, -, _, -, _, -, _, -, rfl⟩ := h
    exact ⟨node, hnode, hwait⟩

end TransitCalculator

/-! ## The prices of a search -/

namespace Collaborators

variable {terms : Collaborators}

/-- `d` continues `node` by `egress`. -/
structure Joins (terms : Collaborators) (node : Arrival) (egress : Leg) (d : Destination) : Prop where
  leg : d.egress = egress
  departure : terms.calculator.egressDeparture node.time egress terms.slack = .ok (some d.departure)
  arrival : terms.calculator.plusDuration d.departure egress.duration = .ok d.arrival
  cost : ∃ added, terms.addedCost (d.departure - node.time).natAbs egress = .ok added ∧ d.cost = node.cost + added
  paretoRound : d.paretoRound = node.paretoRound + 1
  transfers : d.transfers = (node.paretoRound + 1) / 2 + egress.rides - 1

theorem destination_of_result (h : terms.destination? arena id egress = .ok (some d)) :
    ∃ node, arena.get id = .ok node ∧ d.previous = id ∧ terms.Joins node egress d := by
  obtain ⟨node, added, hnode, hid, hleg, hdeparture, harrival, hadded, hcost, hround, htransfers⟩ :=
    TransitCalculator.destination_of_result h
  exact ⟨node, hnode, hid, hleg, hdeparture, harrival, ⟨added, hadded, hcost⟩, hround, htransfers⟩

theorem fits_of_addedCost {wait added : Int} (h : terms.addedCost wait egress = .ok added) : Checked.Fits added := by
  unfold addedCost at h
  split at h
  · cases h
    decide
  · obtain ⟨_, -, h⟩ := bind_eq_ok.mp h
    obtain ⟨_, -, h⟩ := bind_eq_ok.mp h
    obtain ⟨hfits, rfl⟩ := Checked.add_ok_iff.mp h
    exact hfits

end Collaborators

/-! ## The terms that come with the search -/

namespace Calculator

variable {c : Calculator}

def destination? (c : Calculator) (slack : Int) (price : Int → Leg → Except Fault Int) (arena : Arena) (id : Nat)
    (egress : Leg) : Except Fault (Option Destination) :=
  c.transit.destination? slack price arena id egress

theorem egressDeparture_of_destination {d? : Option Destination}
    (h : c.destination? slack price arena id egress = .ok d?) :
    ∃ node start, arena.get id = .ok node ∧ c.egressDeparture node.time egress slack = .ok start ∧
      d?.map (·.departure) = start :=
  TransitCalculator.egressDeparture_of_destination h

theorem destination_of_result (h : c.destination? slack price arena id egress = .ok (some d)) :
    ∃ node added, arena.get id = .ok node ∧ c.egressDeparture node.time egress slack = .ok (some d.departure) ∧
      c.direction.plus d.departure egress.duration = .ok d.arrival ∧
      price (d.departure - node.time).natAbs egress = .ok added ∧ d.cost = node.cost + added ∧
      d.transfers = (node.paretoRound + 1) / 2 + egress.rides - 1 := by
  obtain ⟨node, added, hnode, -, -, hdeparture, harrival, hadded, hcost, -, htransfers⟩ :=
    TransitCalculator.destination_of_result h
  exact ⟨node, added, hnode, hdeparture, harrival, hadded, hcost, htransfers⟩

end Calculator

namespace Terms

variable {terms : Terms}

theorem destination_eq (terms : Terms) (arena : Arena) (id : Nat) (egress : Leg) :
    terms.destination? arena id egress =
      terms.calculator.destination? terms.slack terms.addedCost arena id egress := rfl

theorem addedCost_some {model : CostModel} (h : terms.costs = some model) (wait : Int) (egress : Leg) :
    terms.addedCost wait egress = model.egressCost egress >>= Checked.add (model.waitCost wait) := by
  rw [addedCost, Collaborators.addedCost, collaborators, h]
  rfl

theorem addedCost_none (h : terms.costs = none) (wait : Int) (egress : Leg) : terms.addedCost wait egress = pure 0 := by
  rw [addedCost, Collaborators.addedCost, collaborators, h]
  rfl

theorem destination_of_result (h : terms.destination? arena id egress = .ok (some d)) :
    ∃ node, arena.get id = .ok node ∧ d.previous = id ∧ terms.collaborators.Joins node egress d :=
  Collaborators.destination_of_result h

end Terms

end TransitSearch
