/-
  TransitSearch.Proofs.Calculator — when an egress leg can start.

  Opening hours only ever move a departure on, and an arrival back, whatever the window
  (`le_of_earliestDeparture`, `le_of_latestArrival`). So an egress leg starts, in search
  order, no sooner than the stop is reached and the slack before a ride has passed
  (`pos_of_egressDeparture`).
-/

import TransitSearch.Calculator
import TransitSearch.Proofs.Direction

namespace TransitSearch

open Checked

namespace Leg

variable {leg : Leg} {requested t : Int}

theorem le_of_earliestDeparture (h : leg.earliestDeparture requested = some t) : requested ≤ t := by
  unfold earliestDeparture at h
  cases hh : leg.hours with
  | none =>
    rw [hh] at h
    cases h
    exact Int.le_refl _
  | some hours =>
    simp only [hh] at h
    split at h
    · cases h
    · cases h
      exact Int.le_max_left _ _

theorem le_of_latestArrival (h : leg.latestArrival requested = .ok (some t)) : t ≤ requested := by
  unfold latestArrival at h
  cases hh : leg.hours with
  | none =>
    rw [hh] at h
    cases h
    exact Int.le_refl _
  | some hours =>
    simp only [hh, bind_eq_ok, sub_ok_iff] at h
    obtain ⟨_, ⟨-, rfl⟩, h⟩ := h
    split at h
    · cases h
    · obtain ⟨_, ht, hsome⟩ := map_eq_ok.mp h
      cases hsome
      obtain ⟨-, rfl⟩ := add_ok_iff.mp ht
      have := Int.min_le_left (requested - leg.duration) hours.closes
      omega

end Leg

namespace Calculator

/-- What has to pass between reaching a stop and starting the leg there. -/
def lead (egress : Leg) (slack : Int) : Int := if egress.hasRides then slack else 0

theorem lead_nonneg {slack : Int} (h : 0 ≤ slack) (egress : Leg) : 0 ≤ lead egress slack := by
  unfold lead
  split
  · exact h
  · exact Int.le_refl 0

variable {c : Calculator} {arrival slack departure : Int} {egress : Leg}

theorem egressDeparture_of_result {start : Option Int} (h : c.egressDeparture arrival egress slack = .ok start) :
    ∃ ready, c.direction.pos ready = c.direction.pos arrival + lead egress slack ∧
      (c.direction = .forward → egress.earliestDeparture ready = start) ∧
      (c.direction = .reverse → egress.latestArrival ready = .ok start) := by
  unfold egressDeparture at h
  unfold lead
  by_cases hrides : egress.hasRides = true
  · simp only [if_pos hrides, bind_eq_ok] at h ⊢
    obtain ⟨ready, hready, h⟩ := h
    refine ⟨ready, (Direction.plus_eq_ok.mp hready).2, fun hdir => ?_, fun hdir => ?_⟩
    · rw [hdir] at h
      exact pure_eq_ok.mp h
    · rw [hdir] at h
      exact h
  · simp only [if_neg hrides] at h ⊢
    refine ⟨arrival, (Int.add_zero _).symm, fun hdir => ?_, fun hdir => ?_⟩
    · rw [hdir] at h
      exact pure_eq_ok.mp h
    · rw [hdir] at h
      exact h

theorem pos_of_egressDeparture (h : c.egressDeparture arrival egress slack = .ok (some departure)) :
    c.direction.pos arrival + lead egress slack ≤ c.direction.pos departure := by
  obtain ⟨ready, hpos, hforward, hreverse⟩ := egressDeparture_of_result h
  rw [← hpos]
  cases hdir : c.direction with
  | forward => exact Leg.le_of_earliestDeparture (hforward hdir)
  | reverse => exact Int.neg_le_neg (Leg.le_of_latestArrival (hreverse hdir))

end Calculator

end TransitSearch
