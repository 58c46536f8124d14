/-
  TransitSearch.Proofs.OpeningHours — no leg is used outside its opening hours.

  Opening hours are asked about in two places: where an egress leg joins an arrival, and
  where an access arrival is re-timed. Both take what the leg offers, so whatever a leg
  offers within its hours is used within them (`openToReach_of_destination`,
  `openToReach_of_shift`), and the leg is not used at all only where nothing would do
  (`hours_bind_every_use`).

  This is so for a leg that is open at some time. Hours that end before they begin are
  accepted as well, and such a leg is never open. It is used all the same: only one end of
  the hours is looked at before the time is moved to the other
  (`hours_that_end_first_do_not_bind`).
-/

import TransitSearch.Proofs.Arena.Shift
import TransitSearch.Proofs.Destination

namespace TransitSearch

open Arena

namespace Leg

/-- The leg is open when it is set out on to be at its end, in search order, at `time`. -/
def OpenToReach (leg : Leg) (dir : Direction) (time : Int) : Prop :=
  match dir with
  | .forward => leg.OpenAt (time - leg.duration)
  | .reverse => leg.OpenAt time

variable {leg : Leg}

/-! ## The two uses -/

theorem openToReach_of_nearest {dir : Direction} {requested time : Int} (h : Nearest dir leg requested time) :
    leg.OpenToReach dir time := by
  cases dir with
  | forward => exact h.1.2
  | reverse => exact h.1.2

theorem openToReach_of_destination {terms : Terms} {arena : Arena} {id : Nat} {d : Destination} (hopens : leg.Opens)
    (h : terms.destination? arena id leg = .ok (some d)) : leg.OpenToReach terms.calculator.direction d.arrival := by
  obtain ⟨node, -, -, hjoins⟩ := Terms.destination_of_result h
  obtain ⟨ready, -, hforward, hreverse⟩ := Calculator.egressDeparture_of_result hjoins.departure
  have harrival : terms.calculator.direction.plus d.departure leg.duration = .ok d.arrival := hjoins.arrival
  cases hdir : terms.calculator.direction with
  | forward =>
    rw [hdir] at harrival
    obtain ⟨-, harrival⟩ := Checked.add_ok_iff.mp harrival
    have hback : d.arrival - leg.duration = d.departure := by omega
    show leg.OpenAt (d.arrival - leg.duration)
    rw [hback]
    exact (earliestDeparture_isLeast hopens (hforward hdir)).1.2
  | reverse =>
    rw [hdir] at harrival
    obtain ⟨-, harrival⟩ := Checked.sub_ok_iff.mp harrival
    show leg.OpenAt d.arrival
    rw [harrival]
    exact (latestArrival_isGreatest hopens (hreverse hdir)).1.2

theorem openToReach_of_shift {arena arena' : Arena} {id next : Nat} {requested : Int} {node : Arrival}
    (hopens : leg.Opens) (h : (arena.shift id requested).result = .ok (.ok next, arena'))
    (hnext : arena'.get next = .ok node) (hk : node.kind = .access leg) :
    leg.OpenToReach arena.direction node.time := by
  obtain ⟨before, hget, ⟨_, hrefused, -⟩ | ⟨leg', hk', hretimes⟩⟩ := shift_cases h
  · cases hrefused
  cases hretimes with
  | kept hkept =>
    cases hget.symm.trans hnext
    cases hk.symm.trans hk'
    exact openToReach_of_nearest (((shiftedTime_iff hopens hkept).1 _).mp rfl)
  | moved time departure _ _ hmoved _ hdeparture haccess =>
    obtain ⟨root, hroot, rfl, -, hpush⟩ := access_of_minus hdeparture haccess
    cases hpush
    rcases get_push.mp hnext with hold | ⟨-, rfl⟩
    · exact absurd (lt_size_of_get hold) (Nat.lt_irrefl _)
    · cases hk.symm.trans hroot.kind
      exact openToReach_of_nearest (((shiftedTime_iff hopens hmoved).1 _).mp rfl)

/-! ## Every use -/

/-- A leg that is open at some time offers the first departure there is from a time on, and the last arrival there is up to
a time, unless it cannot be told; it offers none only where there is none. For every destination that it joins, and every
arrival that is re-timed with it, it is set out on within its hours. -/
theorem hours_bind_every_use (hopens : leg.Opens) :
    (∀ requested,
      (∀ time, leg.earliestDeparture requested = some time ↔ IsLeast (leg.departuresFrom requested) time) ∧
        (leg.earliestDeparture requested = none ↔ leg.departuresFrom requested = ∅)) ∧
    (∀ requested, OnlyOverflows (leg.latestArrival requested) ∧ ∀ last, leg.latestArrival requested = .ok last →
      (∀ time, last = some time ↔ IsGreatest (leg.arrivalsBy requested) time) ∧
        (last = none ↔ leg.arrivalsBy requested = ∅)) ∧
    (∀ (terms : Terms) (arena : Arena) (id : Nat) (d : Destination),
      terms.destination? arena id leg = .ok (some d) → leg.OpenToReach terms.calculator.direction d.arrival) ∧
    ∀ (arena arena' : Arena) (id next : Nat) (requested : Int) (node : Arrival),
      (arena.shift id requested).result = .ok (.ok next, arena') → arena'.get next = .ok node →
        node.kind = .access leg → leg.OpenToReach arena.direction node.time :=
  ⟨earliestDeparture_iff hopens,
    fun requested => ⟨latestArrival_onlyOverflows leg requested, fun _ h => latestArrival_iff hopens h⟩,
    fun _ _ _ _ h => openToReach_of_destination hopens h,
    fun _ _ _ _ _ _ h hnext hk => openToReach_of_shift hopens h hnext hk⟩

/-- A ride on demand that is open for one second and goes back in time: it can be set out on in that second only, and a
reverse search finds no arrival by it before that. -/
theorem hours_bind_every_use_one_second :
    let leg : Leg := (Leg.flex 1 (-60) 0 1 false).withHours 1000 1000
    leg.Opens ∧ leg.earliestDeparture 400 = some 1000 ∧ IsLeast (leg.departuresFrom 400) 1000 ∧
      leg.departuresFrom 1001 = ∅ ∧ IsGreatest (leg.arrivalsBy 5000) 940 ∧ leg.arrivalsBy 939 = ∅ ∧
      ∃ d, Terms.destination? ⟨⟨.reverse, none⟩, none, 30⟩
          ⟨.reverse, #[⟨none, 0, 1, 2000, 0, 0, .access (.walk 1 0 0)⟩]⟩ 0 leg = .ok (some d) ∧
        d.departure = 940 ∧ leg.OpenToReach .reverse d.arrival := by
  intro leg
  have hopens : leg.Opens := by decide
  obtain ⟨hdepartures, harrivals, hjoined, -⟩ := hours_bind_every_use hopens
  refine ⟨hopens, rfl, ((hdepartures 400).1 1000).mp rfl, (hdepartures 1001).2.mp rfl, ?_, ?_, ?_⟩
  · exact (((harrivals 5000).2 (some 940) rfl).1 940).mp rfl
  · exact ((harrivals 939).2 none rfl).2.mp rfl
  · have hd : Terms.destination? ⟨⟨.reverse, none⟩, none, 30⟩
        ⟨.reverse, #[⟨none, 0, 1, 2000, 0, 0, .access (.walk 1 0 0)⟩]⟩ 0 leg =
        .ok (some ⟨0, leg, 940, 1000, 0, 1, 0⟩) := by decide +kernel
    exact ⟨_, hd, rfl, hjoined _ _ _ _ hd⟩

/-- Hours that end before they begin are no hours at all, and yet the leg is offered at times of both kinds, and joins a
destination. -/
theorem hours_that_end_first_do_not_bind :
    (¬ ∀ (leg : Leg) (requested : Int),
      (∀ time, leg.earliestDeparture requested = some time ↔ IsLeast (leg.departuresFrom requested) time) ∧
        (leg.earliestDeparture requested = none ↔ leg.departuresFrom requested = ∅)) ∧
    (¬ ∀ (leg : Leg) (requested : Int) (last : Option Int), leg.latestArrival requested = .ok last →
      (∀ time, last = some time ↔ IsGreatest (leg.arrivalsBy requested) time) ∧
        (last = none ↔ leg.arrivalsBy requested = ∅)) ∧
    ¬ ∀ (leg : Leg) (terms : Terms) (arena : Arena) (id : Nat) (d : Destination), arena.Built →
      terms.destination? arena id leg = .ok (some d) → leg.OpenToReach terms.calculator.direction d.arrival := by
  let leg : Leg := (Leg.walk 1 60 0).withHours 2000 1000
  have hnever : ∀ time, ¬ leg.OpenAt time := by
    intro time hopen
    obtain ⟨hbegun, hended⟩ := (openAt_of_hours rfl).mp hopen
    exact absurd (Int.le_trans hbegun hended) (by decide)
  refine ⟨fun h => ?_, fun h => ?_, fun h => ?_⟩
  · exact hnever 2000 (((h leg 500).1 2000).mp rfl).1.2
  · exact hnever _ ((((h leg 3000 (some 1060) rfl).1 1060).mp rfl).1.2)
  · have built : Built ⟨.forward, #[⟨none, 0, 1, 500, 0, 0, .access (.walk 1 0 0)⟩]⟩ :=
      .step (.access 500 (.walk 1 0 0)) (.empty .forward) rfl rfl
    exact hnever _ (h leg ⟨⟨.forward, none⟩, none, 0⟩ _ 0 ⟨0, leg, 2000, 2060, 0, 1, 0⟩ built (by decide +kernel))

end Leg

end TransitSearch
