/-
  TransitSearch.Proofs.Sooner — reaching a stop no later is never worse at the destination.

  Dropping an arrival for one that is as good is sound only if nothing is lost by it at the
  destination. So two arrivals are compared here from which the same egress leg is taken.

  Opening hours close to the later one first and never put the sooner one behind it
  (`earliestDeparture_mono`, `latestArrival_mono`), so the leg starts no later from the
  sooner one (`egressDeparture_mono`). The rest follows along the way to the destination:
  the arrival, the limit and the count of transfers all keep the order. Of the costs this
  holds without opening hours only. The wait is then the slack before a ride, the same for
  both, and whatever the price of waiting and of the leg is, both pay the same
  (`sooner_is_never_worse`).
-/

import Mathlib.Order.Basic
import TransitSearch.Proofs.Calculator
import TransitSearch.Proofs.Destination

namespace TransitSearch

/-! ## The start of the leg -/

namespace Leg

variable {leg : Leg}

theorem earliestDeparture_mono {requested requested' t' : Int} (h : requested ≤ requested')
    (ht : leg.earliestDeparture requested' = some t') : ∃ t, leg.earliestDeparture requested = some t ∧ t ≤ t' := by
  unfold earliestDeparture at ht ⊢
  cases hh : leg.hours with
  | none =>
    rw [hh] at ht
    cases ht
    exact ⟨requested, rfl, h⟩
  | some hours =>
    simp only [hh] at ht ⊢
    split at ht
    · cases ht
    · rename_i hopen
      cases ht
      have hclosed : ¬ requested > hours.closes := by omega
      refine ⟨max requested hours.opens, if_neg hclosed, ?_⟩
      omega

theorem latestArrival_mono {requested requested' t' : Int} {last : Option Int} (h : requested' ≤ requested)
    (hlast : leg.latestArrival requested = .ok last) (ht : leg.latestArrival requested' = .ok (some t')) :
    ∃ t, last = some t ∧ t' ≤ t := by
  unfold latestArrival at hlast ht
  cases hh : leg.hours with
  | none =>
    rw [hh] at hlast ht
    cases hlast
    cases ht
    exact ⟨requested, rfl, h⟩
  | some hours =>
    simp only [hh, bind_eq_ok, Checked.sub_ok_iff] at hlast ht
    obtain ⟨_, ⟨-, rfl⟩, hlast⟩ := hlast
    obtain ⟨_, ⟨-, rfl⟩, ht⟩ := ht
    split at ht
    · cases ht
    · rename_i hopen
      have hopen' : ¬ requested - leg.duration < hours.opens := by omega
      rw [if_neg hopen'] at hlast
      obtain ⟨_, hfits', hsome'⟩ := map_eq_ok.mp ht
      cases hsome'
      obtain ⟨t, hfits, rfl⟩ := map_eq_ok.mp hlast
      obtain ⟨-, rfl⟩ := Checked.add_ok_iff.mp hfits'
      obtain ⟨-, rfl⟩ := Checked.add_ok_iff.mp hfits
      refine ⟨_, rfl, ?_⟩
      omega

theorem earliestDeparture_of_no_hours (h : leg.hours = none) (requested : Int) :
    leg.earliestDeparture requested = some requested := by
  simp [earliestDeparture, h]

theorem latestArrival_of_no_hours (h : leg.hours = none) (requested : Int) :
    leg.latestArrival requested = .ok (some requested) := by
  simp only [latestArrival, h]
  rfl

end Leg

namespace Calculator

variable {c : Calculator} {sooner later slack departure departure' : Int} {egress : Leg}

theorem egressDeparture_mono {start : Option Int} (h : c.direction.NoLater sooner later)
    (hs : c.egressDeparture sooner egress slack = .ok start)
    (hl : c.egressDeparture later egress slack = .ok (some departure')) :
    ∃ departure, start = some departure ∧ c.direction.NoLater departure departure' := by
  obtain ⟨ready, hready, hforward, hreverse⟩ := egressDeparture_of_result hs
  obtain ⟨ready', hready', hforward', hreverse'⟩ := egressDeparture_of_result hl
  have hpos := Direction.noLater_iff.mp h
  cases hdir : c.direction with
  | forward =>
    rw [hdir, Direction.pos_forward, Direction.pos_forward] at hready hready'
    rw [hdir, Direction.pos_forward, Direction.pos_forward] at hpos
    have hle : ready ≤ ready' := by omega
    obtain ⟨t, ht, hle⟩ := Leg.earliestDeparture_mono hle (hforward' hdir)
    exact ⟨t, (hforward hdir).symm.trans ht, Direction.noLater_forward.mpr hle⟩
  | reverse =>
    rw [hdir, Direction.pos_reverse, Direction.pos_reverse] at hready hready'
    rw [hdir, Direction.pos_reverse, Direction.pos_reverse] at hpos
    have hle : ready' ≤ ready := by omega
    obtain ⟨t, ht, hle⟩ := Leg.latestArrival_mono hle (hreverse hdir) (hreverse' hdir)
    exact ⟨t, ht, Direction.noLater_reverse.mpr hle⟩

theorem pos_of_egressDeparture_of_no_hours (hhours : egress.hours = none)
    (h : c.egressDeparture sooner egress slack = .ok (some departure)) :
    c.direction.pos departure = c.direction.pos sooner + lead egress slack := by
  obtain ⟨ready, hready, hforward, hreverse⟩ := egressDeparture_of_result h
  cases hdir : c.direction with
  | forward =>
    have hstart := hforward hdir
    rw [Leg.earliestDeparture_of_no_hours hhours] at hstart
    cases hstart
    rw [← hdir]
    exact hready
  | reverse =>
    have hstart := hreverse hdir
    rw [Leg.latestArrival_of_no_hours hhours] at hstart
    cases hstart
    rw [← hdir]
    exact hready

theorem exceedsLimit_mono (h : c.direction.NoLater sooner later) (hl : c.exceedsLimit later = false) :
    c.exceedsLimit sooner = false := by
  unfold exceedsLimit at hl ⊢
  cases hlimit : c.limit with
  | none => rfl
  | some limit =>
    simp only [hlimit] at hl ⊢
    have hwithin : c.direction.NoLater later limit := hl
    rw [Direction.noLater_iff] at h hwithin
    exact Direction.noLater_iff.mpr (Int.le_trans h hwithin)

end Calculator

theorem Direction.natAbs_sub (dir : Direction) (a b : Int) : (a - b).natAbs = (dir.pos a - dir.pos b).natAbs := by
  cases dir with
  | forward => rfl
  | reverse =>
    have hturned : -a - -b = -(a - b) := by omega
    rw [pos_reverse, pos_reverse, hturned, Int.natAbs_neg]

/-! ## The destination -/

namespace Calculator

variable {c : Calculator} {slack : Int} {price : Int → Leg → Except Fault Int} {egress : Leg} {first second : Arena}
  {a b : Nat} {sooner later : Arrival} {da db : Destination}

theorem transfers_mono (ha : first.get a = .ok sooner) (hb : second.get b = .ok later)
    (hround : sooner.paretoRound ≤ later.paretoRound) (hda : c.destination? slack price first a egress = .ok (some da))
    (hdb : c.destination? slack price second b egress = .ok (some db)) : da.transfers ≤ db.transfers := by
  obtain ⟨_, _, hnode, -, -, -, -, hda⟩ := destination_of_result hda
  obtain ⟨_, _, hnode', -, -, -, -, hdb⟩ := destination_of_result hdb
  cases ha.symm.trans hnode
  cases hb.symm.trans hnode'
  omega

theorem cost_sub_of_no_hours (hhours : egress.hours = none) (ha : first.get a = .ok sooner)
    (hb : second.get b = .ok later) (hda : c.destination? slack price first a egress = .ok (some da))
    (hdb : c.destination? slack price second b egress = .ok (some db)) :
    da.cost - db.cost = sooner.cost - later.cost := by
  obtain ⟨_, added, hnode, hstart, -, hadded, hda, -⟩ := destination_of_result hda
  obtain ⟨_, added', hnode', hstart', -, hadded', hdb, -⟩ := destination_of_result hdb
  cases ha.symm.trans hnode
  cases hb.symm.trans hnode'
  have hlead := pos_of_egressDeparture_of_no_hours hhours hstart
  have hlead' := pos_of_egressDeparture_of_no_hours hhours hstart'
  -- both wait for the slack and no longer
  have hwait : (da.departure - sooner.time).natAbs = (db.departure - later.time).natAbs := by
    rw [c.direction.natAbs_sub da.departure, c.direction.natAbs_sub db.departure, hlead, hlead']
    omega
  rw [hwait, hadded'] at hadded
  cases hadded
  omega

/-- The destination of a search is that of its calculator, its slack and its prices. Whatever these are, and whatever
the egress leg, take any two arrivals, the one reached no later than the other in search order and in no later pareto
round. Where neither computation faults and there is a destination from the later one, there is one from the sooner
one: the leg starts no later, the destination is reached no later and with no more transfers, and within the limit if
the other is. If the leg is always open, the costs of the two destinations differ by as much as those of the arrivals,
so that the cheaper arrival leads to the cheaper destination. -/
theorem sooner_is_never_worse :
    (∀ (terms : Terms) (arena : Arena) (id : Nat) (egress : Leg), terms.destination? arena id egress =
      terms.calculator.destination? terms.slack terms.addedCost arena id egress) ∧
    ∀ (c : Calculator) (slack : Int) (price : Int → Leg → Except Fault Int) (egress : Leg) {first second : Arena}
      {a b : Nat} {sooner later : Arrival} {da? : Option Destination} {db : Destination},
      first.get a = .ok sooner → second.get b = .ok later →
      c.direction.NoLater sooner.time later.time → sooner.paretoRound ≤ later.paretoRound →
      c.destination? slack price first a egress = .ok da? →
      c.destination? slack price second b egress = .ok (some db) →
      ∃ da, da? = some da ∧ c.direction.NoLater da.departure db.departure ∧
        c.direction.NoLater da.arrival db.arrival ∧ da.transfers ≤ db.transfers ∧
        (c.exceedsLimit db.arrival = false → c.exceedsLimit da.arrival = false) ∧
        (egress.hours = none → da.cost - db.cost = sooner.cost - later.cost ∧
          (da.cost ≤ db.cost ↔ sooner.cost ≤ later.cost)) := by
  refine ⟨Terms.destination_eq, ?_⟩
  intro c slack price egress first second a b sooner later da? db ha hb htime hround hda hdb
  obtain ⟨_, start, hnode, hstart, hsome⟩ := egressDeparture_of_destination hda
  cases ha.symm.trans hnode
  obtain ⟨_, _, hnode', hstart', harrival', -⟩ := destination_of_result hdb
  cases hb.symm.trans hnode'
  obtain ⟨departure, hdeparts, hdeparture⟩ := egressDeparture_mono htime hstart hstart'
  obtain ⟨da, rfl, rfl⟩ := Option.map_eq_some_iff.mp (hsome.trans hdeparts)
  obtain ⟨_, _, -, -, harrival, -⟩ := destination_of_result hda
  have hno : c.direction.NoLater da.arrival db.arrival := by
    have hpos := (Direction.plus_eq_ok.mp harrival).2
    have hpos' := (Direction.plus_eq_ok.mp harrival').2
    rw [Direction.noLater_iff] at hdeparture ⊢
    omega
  refine ⟨da, rfl, hdeparture, hno, transfers_mono ha hb hround hda hdb, exceedsLimit_mono hno, fun hhours => ?_⟩
  have hcost := cost_sub_of_no_hours hhours ha hb hda hdb
  exact ⟨hcost, by omega⟩

/-- Two rides to one stop in an arrive-by search, from where a ride on demand goes on after a slack of 60. Within its
hours the one reached first waits and is the earlier one still; with the ride always open the costs differ by 50, as
before. -/
theorem sooner_is_never_worse_arrive_by :
    let c : Calculator := ⟨.reverse, some 500⟩
    let price (wait : Int) (leg : Leg) : Except Fault Int := Checked.add (5 * wait) leg.cost
    let arena : Arena := ⟨.reverse, #[⟨none, 0, 1, 940, 60, 0, .access (.walk 1 60 0)⟩,
      ⟨some 0, 1, 2, 900, 100, 70, .transit ⟨1, 930, 7⟩⟩, ⟨some 0, 1, 2, 800, 200, 20, .transit ⟨1, 930, 8⟩⟩]⟩
    let ride : Leg := .flex 2 100 4000 1 false
    (∃ da db, c.destination? 60 price arena 1 (ride.withHours 600 700) = .ok (some da) ∧
      c.destination? 60 price arena 2 (ride.withHours 600 700) = .ok (some db) ∧ da.departure = 800 ∧
      db.departure = 740 ∧ c.direction.NoLater da.arrival db.arrival ∧ da.transfers ≤ db.transfers ∧
      c.exceedsLimit da.arrival = false) ∧
    ∃ da db, c.destination? 60 price arena 1 ride = .ok (some da) ∧
      c.destination? 60 price arena 2 ride = .ok (some db) ∧ da.cost - db.cost = 70 - 20 := by
  intro c price arena ride
  have hwaits : c.destination? 60 price arena 1 (ride.withHours 600 700) =
      .ok (some ⟨1, ride.withHours 600 700, 800, 700, 4570, 2, 1⟩) := by decide +kernel
  have hlater : c.destination? 60 price arena 2 (ride.withHours 600 700) =
      .ok (some ⟨2, ride.withHours 600 700, 740, 640, 4320, 2, 1⟩) := by decide +kernel
  have hopen : c.destination? 60 price arena 1 ride = .ok (some ⟨1, ride, 840, 740, 4370, 2, 1⟩) := by decide +kernel
  have hopen' : c.destination? 60 price arena 2 ride = .ok (some ⟨2, ride, 740, 640, 4320, 2, 1⟩) := by decide +kernel
  have htime : c.direction.NoLater 900 800 := by decide
  constructor
  · obtain ⟨da, hda, -, harrival, htransfers, hlimit, -⟩ :=
      sooner_is_never_worse.2 c 60 price (ride.withHours 600 700) rfl rfl htime (Nat.le_refl 1) hwaits hlater
    cases hda
    exact ⟨_, _, hwaits, hlater, rfl, rfl, harrival, htransfers, hlimit (by decide)⟩
  · obtain ⟨da, hda, -, -, -, -, hcost⟩ :=
      sooner_is_never_worse.2 c 60 price ride rfl rfl htime (Nat.le_refl 1) hopen hopen'
    cases hda
    exact ⟨_, _, hopen, hopen', (hcost rfl).1⟩

end Calculator

end TransitSearch
