/-
  TransitSearch.Proofs.Mirror.Arena — the arena of a search turned round.

  Whatever is done in an arena and, mirrored, in the mirrored arena leaves the arenas each
  other's mirror and gives the same handle, wherever both sides stay in range
  (`access_mirror`, `derive_mirror`, `shift_mirror`).

  The two readings of opening hours are not written alike: the earliest departure compares
  a departure with the window, the latest arrival goes back to the departure first and
  forward again. They are mirror images all the same (`earliestDeparture_mirror`,
  `latestArrival_mirror`).
-/

import TransitSearch.Proofs.Mirror
import TransitSearch.Proofs.Results

namespace TransitSearch

open Checked

/-! ## Time -/

namespace Direction

theorem plus_mirror (dir : Direction) (time duration : Int) :
    Matches (fun a b => b = -a) (dir.plus time duration) (dir.mirror.plus (-time) duration) := by
  intro a b ha hb
  cases dir with
  | forward =>
    have ha := (add_ok_iff.mp ha).2
    have hb := (sub_ok_iff.mp hb).2
    omega
  | reverse =>
    have ha := (sub_ok_iff.mp ha).2
    have hb := (add_ok_iff.mp hb).2
    omega

theorem minus_mirror (dir : Direction) (time duration : Int) :
    Matches (fun a b => b = -a) (dir.minus time duration) (dir.mirror.minus (-time) duration) := by
  intro a b ha hb
  cases dir with
  | forward =>
    have ha := (sub_ok_iff.mp ha).2
    have hb := (add_ok_iff.mp hb).2
    omega
  | reverse =>
    have ha := (add_ok_iff.mp ha).2
    have hb := (sub_ok_iff.mp hb).2
    omega

theorem between_mirror (dir : Direction) (earlier later : Int) :
    Matches Eq (dir.between earlier later) (dir.mirror.between (-earlier) (-later)) := by
  intro a b ha hb
  cases dir with
  | forward =>
    have ha := (sub_ok_iff.mp ha).2
    have hb := (sub_ok_iff.mp hb).2
    omega
  | reverse =>
    have ha := (sub_ok_iff.mp ha).2
    have hb := (sub_ok_iff.mp hb).2
    omega

theorem isAfter_mirror (dir : Direction) (subject candidate : Int) :
    dir.mirror.isAfter (-subject) (-candidate) = dir.isAfter subject candidate := by
  cases dir <;> simp [mirror, isAfter]

end Direction

/-! ## Opening hours -/

namespace Leg

@[simp] theorem mirror_mirror (leg : Leg) : leg.mirror.mirror = leg := by
  obtain ⟨stop, duration, cost, rides, onBoard, hours⟩ := leg
  cases hours with
  | none => rfl
  | some hours =>
    simp only [mirror, mirrorHours, Option.map_some, Leg.mk.injEq, true_and, Option.some.injEq]
    obtain ⟨opens, closes⟩ := hours
    simp only [OpeningHours.mk.injEq]
    omega

theorem latestArrival_mirror {leg : Leg} {requested : Int} {r : Option Int}
    (h : leg.latestArrival requested = .ok r) : leg.mirror.earliestDeparture (-requested) = r.map (-·) := by
  unfold latestArrival at h
  unfold earliestDeparture
  cases hh : leg.hours with
  | none =>
    simp only [hh, pure_eq_ok] at h
    simp [hh, ← h]
  | some hours =>
    simp only [hh, bind_eq_ok, sub_ok_iff] at h
    obtain ⟨_, ⟨-, rfl⟩, h⟩ := h
    simp only [mirror_hours, hh, Option.map_some, mirrorHours]
    by_cases hclosed : requested - leg.duration < hours.opens
    · rw [if_pos hclosed, pure_eq_ok] at h
      rw [if_pos (by omega), ← h, Option.map_none]
    · rw [if_neg hclosed, map_eq_ok] at h
      obtain ⟨a, ha, rfl⟩ := h
      have ha := (add_ok_iff.mp ha).2
      rw [if_neg (by omega), Option.map_some, Option.some.injEq]
      omega

theorem earliestDeparture_mirror {leg : Leg} {requested : Int} {r : Option Int}
    (h : leg.mirror.latestArrival (-requested) = .ok r) : r = (leg.earliestDeparture requested).map (-·) := by
  have := latestArrival_mirror h
  rw [mirror_mirror, Int.neg_neg] at this
  rw [this, Option.map_map]
  cases r <;> simp

end Leg

/-! ## Reading and appending -/

namespace Arena

variable (arena : Arena)

theorem get_mirror (id : Nat) : Matches (fun a b => b = a.mirror) (arena.get id) (arena.mirror.get id) := by
  intro a b ha hb
  unfold get mirror at *
  rw [Array.getElem?_map] at hb
  cases hnode : arena.nodes[id]? with
  | none => rw [hnode] at ha; cases ha
  | some node =>
    rw [hnode] at ha hb
    cases ha
    cases hb
    rfl

/-- The same handle, in arenas that are each other's mirror. -/
def Appends (x y : Arena × Nat) : Prop := y = (x.1.mirror, x.2)

theorem push_mirror (node : Arrival) : Appends (arena.push node) (arena.mirror.push node.mirror) := by
  simp [Appends, mirror, push]

theorem access_mirror (departure : Int) (leg : Leg) :
    Matches Appends (arena.access departure leg) (arena.mirror.access (-departure) leg.mirror) := by
  refine .bind (.refl _) fun rounds _ h => ?_
  subst h
  refine .bind (arena.direction.plus_mirror departure leg.duration) fun time _ h => ?_
  subst h
  exact .pure (push_mirror arena _)

theorem derive_mirror (previous increment stop : Nat) (time cost : Int) (kind : ArrivalKind) :
    Matches Appends (arena.derive previous increment stop time cost kind)
      (arena.mirror.derive previous increment stop (-time) cost kind.mirror) := by
  refine .bind (arena.get_mirror previous) fun node _ h => ?_
  subst h
  refine .bind (arena.direction.between_mirror node.time time) fun elapsed _ h => ?_
  subst h
  refine .bind (.refl _) fun travelDuration _ h => ?_
  subst h
  refine .bind (.refl _) fun paretoRound _ h => ?_
  subst h
  exact .pure (push_mirror arena _)

theorem transit_mirror (previous stop : Nat) (time cost : Int) (boarding : Boarding) :
    Matches Appends (arena.transit previous stop time cost boarding)
      (arena.mirror.transit previous stop (-time) cost boarding.mirror) :=
  derive_mirror arena previous transitIncrement stop time cost (.transit boarding)

theorem transfer_mirror (previous stop : Nat) (time cost : Int) :
    Matches Appends (arena.transfer previous stop time cost) (arena.mirror.transfer previous stop (-time) cost) := by
  refine .bind (arena.get_mirror previous) fun node _ h => ?_
  subst h
  refine .bind (arena.direction.between_mirror node.time time) fun duration _ h => ?_
  subst h
  exact derive_mirror arena previous transferIncrement stop time cost (.transfer node.stop duration)

/-! ## Re-timing -/

theorem shiftedTime_mirror (dir : Direction) (leg : Leg) (requested : Int) :
    Matches (fun a b => b = a.map (-·)) (shiftedTime dir leg requested)
      (shiftedTime dir.mirror leg.mirror (-requested)) := by
  intro a b ha hb
  cases dir with
  | forward =>
    rw [← pure_eq_ok.mp hb]
    exact Leg.latestArrival_mirror ha
  | reverse =>
    rw [← pure_eq_ok.mp ha]
    exact Leg.earliestDeparture_mirror hb

/-- The same outcome, with the requested time of a refusal turned round. -/
def Shifts (x y : Except ShiftError Nat × Arena) : Prop := y = (x.1.mapError ShiftError.mirror, x.2.mirror)

theorem shift_mirror (id : Nat) (requested : Int) :
    Matches Shifts (arena.shift id requested).result (arena.mirror.shift id (-requested)).result := by
  intro x y hx hy
  simp only [shift, Run.result_bind_eq_ok, Run.result_lift] at hx hy
  obtain ⟨node, hnode, hx⟩ := hx
  obtain ⟨node', hnode', hy⟩ := hy
  have := arena.get_mirror id _ _ hnode hnode'
  subst this
  rw [Arrival.mirror_kind] at hy
  cases hkind : node.kind with
  | access leg =>
    simp only [hkind, ArrivalKind.mirror, Run.result_bind_eq_ok, Run.result_lift] at hx hy
    obtain ⟨time?, ht, hx⟩ := hx
    obtain ⟨time?', ht', hy⟩ := hy
    have := shiftedTime_mirror arena.direction leg requested _ _ ht ht'
    subst this
    cases time? with
    | none =>
      cases hx
      cases hy
      rfl
    | some time =>
      simp only [Option.map_some, Arrival.mirror_time, Int.neg_inj] at hx hy
      by_cases hsame : time = node.time
      · rw [if_pos hsame] at hx hy
        cases hx
        cases hy
        rfl
      · rw [if_neg hsame] at hx hy
        simp only [Run.result_bind_eq_ok, Run.result_lift, Run.result_write] at hx hy
        obtain ⟨departure, hd, -, -, ⟨next, id'⟩, hp, hx⟩ := hx
        obtain ⟨departure', hd', -, -, ⟨next', id''⟩, hp', hy⟩ := hy
        have := arena.direction.minus_mirror time leg.duration _ _ hd hd'
        subst this
        have := arena.access_mirror departure leg _ _ hp hp'
        cases this
        cases hx
        cases hy
        rfl
  | transit boarding =>
    rw [hkind] at hx hy
    cases hx
    cases hy
    rfl
  | transfer fromStop duration =>
    rw [hkind] at hx hy
    cases hx
    cases hy
    rfl

/-! ## Chains -/

theorem chain_mirror (id : Nat) :
    Matches (fun a b => b = a.map fun (i, node) => (i, node.mirror)) (arena.chain id) (arena.mirror.chain id) := by
  induction id using Nat.strongRecOn with
  | ind id ih =>
    rw [chain, chain]
    refine .bind (arena.get_mirror id) fun node _ h => ?_
    rw [h, Arrival.mirror_previous]
    cases node.previous with
    | none => exact .pure rfl
    | some p =>
      by_cases hp : p < id
      · simp only [if_pos hp]
        refine .bind (ih p hp) fun rest _ h => .pure ?_
        rw [h, List.map_cons]
      · simp only [if_neg hp]
        exact .pure rfl

end Arena

end TransitSearch
