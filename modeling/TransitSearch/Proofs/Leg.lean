/-
  TransitSearch.Proofs.Leg — what opening hours allow.

  Opening hours say when a leg may be set out on, whichever way the search goes (`OpenAt`).
  Asked by a forward search, a leg offers the first departure from a time on
  (`earliestDeparture_iff`); asked by a reverse one, the last arrival up to a time, of those
  whose departure is within the hours (`latestArrival_iff`). Each of the two tests the time
  against one end of the hours and then moves it up to the other end. That is right for a
  leg that is open at some time (`Opens`, `opens_iff`), for then the other end is within the
  hours as well.
-/

import Mathlib.Order.Bounds.Basic
import TransitSearch.Proofs.Calculator

namespace TransitSearch

open Checked

namespace Leg

/-- The leg may be set out on at `time`. -/
def OpenAt (leg : Leg) (time : Int) : Prop := ∀ hours ∈ leg.hours, hours.opens ≤ time ∧ time ≤ hours.closes

instance (leg : Leg) (time : Int) : Decidable (leg.OpenAt time) := inferInstanceAs (Decidable (∀ hours ∈ leg.hours, _))

/-- The hours, if there are any, do not end before they begin. -/
def Opens (leg : Leg) : Prop := ∀ hours ∈ leg.hours, hours.opens ≤ hours.closes

instance (leg : Leg) : Decidable leg.Opens := inferInstanceAs (Decidable (∀ hours ∈ leg.hours, _))

/-- The departures there are from `requested` on. -/
def departuresFrom (leg : Leg) (requested : Int) : Set Int := {time | requested ≤ time ∧ leg.OpenAt time}

/-- The arrivals there are up to `requested`. -/
def arrivalsBy (leg : Leg) (requested : Int) : Set Int := {time | time ≤ requested ∧ leg.OpenAt (time - leg.duration)}

variable {leg : Leg} {requested time : Int} {hours : OpeningHours}

theorem openAt_of_no_hours (h : leg.hours = none) (time : Int) : leg.OpenAt time := by
  intro hours hh
  rw [h] at hh
  cases hh

theorem openAt_of_hours (h : leg.hours = some hours) : leg.OpenAt time ↔ hours.opens ≤ time ∧ time ≤ hours.closes := by
  simp [OpenAt, h]

theorem opens_iff : leg.Opens ↔ ∃ time, leg.OpenAt time := by
  cases hh : leg.hours with
  | none => simp [Opens, OpenAt, hh]
  | some hours =>
    constructor
    · intro h
      exact ⟨hours.opens, (openAt_of_hours hh).mpr ⟨Int.le_refl _, h hours hh⟩⟩
    · rintro ⟨time, h⟩ hours h'
      cases hh.symm.trans h'
      obtain ⟨hopens, hcloses⟩ := (openAt_of_hours hh).mp h
      exact Int.le_trans hopens hcloses

theorem OpenAt.opens (h : leg.OpenAt time) : leg.Opens := opens_iff.mpr ⟨time, h⟩

/-- Where the best time of a set is offered, and none only if there is none, it is so the other way round as well. -/
theorem offers_iff {times : Set Int} {Best : Int → Prop} {offer : Option Int} (mem : ∀ time, Best time → time ∈ times)
    (unique : ∀ {a b}, Best a → Best b → a = b) (found : ∀ time, offer = some time → Best time)
    (missed : offer = none → times = ∅) : (∀ time, offer = some time ↔ Best time) ∧ (offer = none ↔ times = ∅) := by
  cases offer with
  | none =>
    have hempty : times = ∅ := missed rfl
    refine ⟨fun time => ⟨nofun, fun hbest => ?_⟩, fun _ => hempty, fun _ => rfl⟩
    rw [hempty] at mem
    cases mem time hbest
  | some t =>
    have hbest : Best t := found t rfl
    refine ⟨fun time => ⟨found time, fun h => congrArg some (unique hbest h)⟩, nofun, fun hempty => ?_⟩
    rw [hempty] at mem
    cases mem t hbest

/-! ## Departures -/

theorem earliestDeparture_isLeast (hopens : leg.Opens) (h : leg.earliestDeparture requested = some time) :
    IsLeast (leg.departuresFrom requested) time := by
  unfold earliestDeparture at h
  cases hh : leg.hours with
  | none =>
    rw [hh] at h
    cases h
    exact ⟨⟨Int.le_refl _, openAt_of_no_hours hh _⟩, fun _ ht => ht.1⟩
  | some hours =>
    simp only [hh] at h
    split at h
    · cases h
    · cases h
      have hnonempty : hours.opens ≤ hours.closes := hopens hours hh
      refine ⟨⟨Int.le_max_left _ _, (openAt_of_hours hh).mpr ?_⟩, fun t ht => ?_⟩
      · omega
      · obtain ⟨hopen, -⟩ := (openAt_of_hours hh).mp ht.2
        exact Int.max_le.mpr ⟨ht.1, hopen⟩

theorem departuresFrom_empty (h : leg.earliestDeparture requested = none) : leg.departuresFrom requested = ∅ := by
  unfold earliestDeparture at h
  cases hh : leg.hours with
  | none =>
    rw [hh] at h
    cases h
  | some hours =>
    simp only [hh] at h
    split at h
    · refine Set.eq_empty_iff_forall_notMem.mpr fun t ht => ?_
      have hrequested : requested ≤ t := ht.1
      obtain ⟨-, hcloses⟩ := (openAt_of_hours hh).mp ht.2
      omega
    · cases h

theorem earliestDeparture_iff (hopens : leg.Opens) (requested : Int) :
    (∀ time, leg.earliestDeparture requested = some time ↔ IsLeast (leg.departuresFrom requested) time) ∧
      (leg.earliestDeparture requested = none ↔ leg.departuresFrom requested = ∅) :=
  offers_iff (fun _ h => h.1) IsLeast.unique (fun _ h => earliestDeparture_isLeast hopens h) departuresFrom_empty

/-! ## Arrivals -/

theorem latestArrival_isGreatest (hopens : leg.Opens) (h : leg.latestArrival requested = .ok (some time)) :
    IsGreatest (leg.arrivalsBy requested) time := by
  unfold latestArrival at h
  cases hh : leg.hours with
  | none =>
    rw [hh] at h
    cases h
    exact ⟨⟨Int.le_refl _, openAt_of_no_hours hh _⟩, fun _ ht => ht.1⟩
  | some hours =>
    simp only [hh, bind_eq_ok, sub_ok_iff] at h
    obtain ⟨_, ⟨-, rfl⟩, h⟩ := h
    split at h
    · cases h
    · obtain ⟨_, ht, hsome⟩ := map_eq_ok.mp h
      cases hsome
      obtain ⟨-, rfl⟩ := add_ok_iff.mp ht
      have hnonempty : hours.opens ≤ hours.closes := hopens hours hh
      refine ⟨⟨by omega, (openAt_of_hours hh).mpr ?_⟩, fun t ht => ?_⟩
      · omega
      · have hrequested : t ≤ requested := ht.1
        obtain ⟨-, hcloses⟩ := (openAt_of_hours hh).mp ht.2
        omega

theorem arrivalsBy_empty (h : leg.latestArrival requested = .ok none) : leg.arrivalsBy requested = ∅ := by
  unfold latestArrival at h
  cases hh : leg.hours with
  | none =>
    rw [hh] at h
    cases h
  | some hours =>
    simp only [hh, bind_eq_ok, sub_ok_iff] at h
    obtain ⟨_, ⟨-, rfl⟩, h⟩ := h
    split at h
    · refine Set.eq_empty_iff_forall_notMem.mpr fun t ht => ?_
      have hrequested : t ≤ requested := ht.1
      obtain ⟨hopen, -⟩ := (openAt_of_hours hh).mp ht.2
      omega
    · obtain ⟨_, -, hnone⟩ := map_eq_ok.mp h
      cases hnone

theorem latestArrival_iff {last : Option Int} (hopens : leg.Opens) (h : leg.latestArrival requested = .ok last) :
    (∀ time, last = some time ↔ IsGreatest (leg.arrivalsBy requested) time) ∧
      (last = none ↔ leg.arrivalsBy requested = ∅) := by
  refine offers_iff (fun _ hbest => hbest.1) IsGreatest.unique (fun time hfound => ?_) (fun hmissed => ?_)
  · rw [hfound] at h
    exact latestArrival_isGreatest hopens h
  · rw [hmissed] at h
    exact arrivalsBy_empty h

theorem latestArrival_of_openAt (hopen : leg.OpenAt (time - leg.duration)) (hdeparture : Fits (time - leg.duration))
    (htime : Fits time) : leg.latestArrival time = .ok (some time) := by
  unfold latestArrival
  cases hh : leg.hours with
  | none => rfl
  | some hours =>
    obtain ⟨hopens, hcloses⟩ := (openAt_of_hours hh).mp hopen
    have hback : min (time - leg.duration) hours.closes + leg.duration = time := by omega
    refine bind_eq_ok.mpr ⟨_, sub_ok_iff.mpr ⟨hdeparture, rfl⟩, ?_⟩
    rw [if_neg (Int.not_lt.mpr hopens)]
    exact map_eq_ok.mpr ⟨time, add_ok_iff.mpr ⟨hback.symm ▸ htime, hback.symm⟩, rfl⟩

theorem latestArrival_onlyOverflows (leg : Leg) (requested : Int) : OnlyOverflows (leg.latestArrival requested) := by
  unfold latestArrival
  cases leg.hours with
  | none => exact .ok _
  | some hours =>
    refine .bind (Direction.fit_onlyOverflows rfl _) fun departure _ => ?_
    split
    · exact .ok none
    · exact .map (Direction.fit_onlyOverflows rfl _) some

end Leg

end TransitSearch
