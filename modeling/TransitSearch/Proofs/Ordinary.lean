/-
  TransitSearch.Proofs.Ordinary — searches on ordinary data.

  Ordinary times lie within two service days, an ordinary leg takes a day at most, and an
  ordinary cost is a million at most. An arena made from such data by accesses, rides and
  walks holds arrivals of two kinds (`Arrival.Ordinary`): a root left at an ordinary time,
  and a hop that arrives at one. So an arrival stands at most two days after its chain was
  left (`leaves_of_reach`).

  From there only the configuration can carry a journey far. The wait for an egress leg is
  the slack, or else ends within the opening hours (`wait_of_egressDeparture`), and what the
  arrival, the wait and the leg take together is what the journey takes
  (`span_of_ofChain`).
-/

import TransitSearch.Proofs.Arena.Elapsed
import TransitSearch.Proofs.Collector.Limit
import TransitSearch.Proofs.Journey.Duration
import TransitSearch.Proofs.Journey.Hops

namespace TransitSearch

/-! ## Data -/

/-- Within two service days. -/
def OrdinaryTime (t : Int) : Prop := 0 ≤ t ∧ t ≤ 172800

/-- A day at most. -/
def OrdinaryDuration (d : Int) : Prop := 0 ≤ d ∧ d ≤ 86400

/-- A million at most, in hundredths. -/
def OrdinaryCost (c : Int) : Prop := 0 ≤ c ∧ c ≤ 100000000

instance (t : Int) : Decidable (OrdinaryTime t) := inferInstanceAs (Decidable (_ ∧ _))

instance (d : Int) : Decidable (OrdinaryDuration d) := inferInstanceAs (Decidable (_ ∧ _))

instance (c : Int) : Decidable (OrdinaryCost c) := inferInstanceAs (Decidable (_ ∧ _))

theorem OrdinaryTime.fits {t : Int} (h : OrdinaryTime t) : Checked.Fits t := by
  obtain ⟨hfirst, hlast⟩ := h
  unfold Checked.Fits
  omega

/-- An egress leg on ordinary data. The hours may be any, even such that never open. -/
structure Leg.Ordinary (egress : Leg) : Prop where
  duration : OrdinaryDuration egress.duration
  cost : OrdinaryCost egress.cost
  rides : egress.rides ≤ 4
  hours : ∀ hours ∈ egress.hours, OrdinaryTime hours.opens ∧ OrdinaryTime hours.closes

namespace Arena

/-- An access, a ride or a walk on ordinary data. -/
def Op.isOrdinary : Op → Bool
  | .access departure leg => OrdinaryTime departure ∧ OrdinaryDuration leg.duration ∧ OrdinaryCost leg.cost
  | .transit _ _ time cost boarding => OrdinaryTime time ∧ OrdinaryTime boarding.time ∧ OrdinaryCost cost
  | .transfer _ _ time cost => OrdinaryTime time ∧ OrdinaryCost cost
  | .derive .. | .shift .. | .clear => false

/-- An arena made for searching in this direction, from ordinary data. -/
structure Ordinary (dir : Direction) (arena : Arena) : Prop where
  direction : arena.direction = dir
  reach : Reach Op.isOrdinary arena

end Arena

open Arena

/-! ## Arrivals -/

/-- An arrival made from ordinary data. -/
inductive Arrival.Ordinary (dir : Direction) (node : Arrival) : Prop
  | root (departure : Int) (leg : Leg) : OrdinaryTime departure → OrdinaryDuration leg.duration →
      OrdinaryCost leg.cost → dir.plus departure leg.duration = .ok node.time → IsRoot dir leg node → Ordinary dir node
  | hop (p : Nat) : node.previous = some p → OrdinaryTime node.time → OrdinaryCost node.cost → Ordinary dir node

namespace Arrival.Ordinary

variable {dir : Direction} {node : Arrival}

theorem cost (h : node.Ordinary dir) : OrdinaryCost node.cost := by
  cases h with
  | root departure leg _ _ hcost _ hroot => rwa [hroot.cost]
  | hop p _ _ hcost => exact hcost

theorem time (h : node.Ordinary dir) :
    (dir = .forward → 0 ≤ node.time ∧ node.time ≤ 259200) ∧ (dir = .reverse → -86400 ≤ node.time ∧ node.time ≤ 172800) := by
  cases h with
  | root departure leg hdeparture hduration _ htime _ =>
    obtain ⟨hfirst, hlast⟩ := hdeparture
    obtain ⟨hnonneg, hday⟩ := hduration
    obtain ⟨-, hpos⟩ := Direction.plus_eq_ok.mp htime
    constructor
    · rintro rfl
      simp only [Direction.pos_forward] at hpos
      omega
    · rintro rfl
      simp only [Direction.pos_reverse] at hpos
      omega
  | hop p _ htime _ =>
    obtain ⟨hfirst, hlast⟩ := htime
    omega

end Arrival.Ordinary

namespace Arena

variable {arena arena' : Arena} {id : Nat} {node : Arrival}

theorem Op.inBounds_of_isOrdinary (op : Op) (h : op.isOrdinary = true) : op.inBounds = true := by
  cases op with
  | access departure leg =>
    obtain ⟨hdeparture, ⟨hnonneg, hday⟩, -⟩ := of_decide_eq_true h
    have hduration : Checked.Fits leg.duration := by
      unfold Checked.Fits
      omega
    simp [inBounds, isBare, inRange, hdeparture.fits, hduration]
  | transit previous stop time cost boarding =>
    obtain ⟨htime, -, -⟩ := of_decide_eq_true h
    simp [inBounds, isBare, inRange, htime.fits]
  | transfer previous stop time cost =>
    obtain ⟨htime, -⟩ := of_decide_eq_true h
    simp [inBounds, isBare, inRange, htime.fits]
  | derive | shift | clear => cases h

theorem apply_ordinary {op : Op} (hop : op.isOrdinary = true) (h : arena.apply op = .ok arena') :
    ∃ node, arena' = (arena.push node).1 ∧ node.Ordinary arena.direction := by
  cases op with
  | access departure leg =>
    obtain ⟨⟨_, _⟩, hx, rfl⟩ := map_eq_ok.mp h
    obtain ⟨node, ht, hroot, hpush⟩ := access_of_result hx
    cases hpush
    obtain ⟨hdeparture, hduration, hcost⟩ := of_decide_eq_true hop
    exact ⟨node, rfl, .root departure leg hdeparture hduration hcost ht hroot⟩
  | transit previous stop time cost boarding =>
    obtain ⟨⟨_, _⟩, hx, rfl⟩ := map_eq_ok.mp h
    obtain ⟨_, node, -, -, hp, -, rfl, rfl, -, hpush⟩ := derive_of_result hx
    cases hpush
    obtain ⟨htime, -, hcost⟩ := of_decide_eq_true hop
    exact ⟨node, rfl, .hop previous hp htime hcost⟩
  | transfer previous stop time cost =>
    obtain ⟨⟨_, _⟩, hx, rfl⟩ := map_eq_ok.mp h
    obtain ⟨_, _, -, -, hx⟩ := transfer_of_result hx
    obtain ⟨_, node, -, -, hp, -, rfl, rfl, -, hpush⟩ := derive_of_result hx
    cases hpush
    obtain ⟨htime, hcost⟩ := of_decide_eq_true hop
    exact ⟨node, rfl, .hop previous hp htime hcost⟩
  | derive | shift | clear => cases hop

theorem reach_ordinary (reach : Reach Op.isOrdinary arena) :
    ∀ id node, arena.get id = .ok node → node.Ordinary arena.direction := by
  induction reach with
  | empty dir =>
    intro id node hget
    simp [get_eq_ok, Arena.empty] at hget
  | step op _ hop ha ih =>
    intro id node hget
    obtain ⟨next, rfl, hnext⟩ := apply_ordinary hop ha
    rcases get_push.mp hget with hget | ⟨rfl, rfl⟩
    · exact ih id node hget
    · exact hnext

/-- The chain of an arrival was left at an ordinary time, at most two days before or after it. -/
theorem leaves_of_reach (reach : Reach Op.isOrdinary arena) (hget : arena.get id = .ok node) :
    ∃ steps root departure leg, arena.chain id = .ok steps ∧ arena.Walk steps ∧ steps.getLast? = some root ∧
      IsRoot arena.direction leg root.2 ∧ arena.direction.plus departure leg.duration = .ok root.2.time ∧
      OrdinaryTime departure ∧ -172800 ≤ arena.direction.pos node.time - arena.direction.pos departure ∧
      arena.direction.pos node.time - arena.direction.pos departure ≤ 172800 := by
  obtain ⟨rest, hchain, walk⟩ := walk_of_ordered (reach_ordered reach) hget
  obtain ⟨root, hlast, hnone⟩ := walk.ends
  cases reach_ordinary reach root.1 root.2 (walk.get root (List.mem_of_getLast? hlast)) with
  | hop p hp => cases hnone.symm.trans hp
  | root departure leg hdeparture hduration _ hleft hroot =>
    refine ⟨_, root, departure, leg, hchain, walk, hlast, hroot, hleft, hdeparture, ?_⟩
    cases reach_ordinary reach id node hget with
    | root _ _ _ _ _ _ hown =>
      -- an arrival without a predecessor is the root of its own chain
      have hsame : root = (id, node) := by
        cases walk with
        | last => exact (Option.some.inj hlast).symm
        | hop _ hp => cases hown.previous.symm.trans hp
      obtain ⟨-, hpos⟩ := Direction.plus_eq_ok.mp hleft
      rw [hsame] at hpos
      have hpos : arena.direction.pos node.time = arena.direction.pos departure + leg.duration := hpos
      obtain ⟨hnonneg, hday⟩ := hduration
      omega
    | hop p _ htime _ =>
      obtain ⟨hfirst, hlast⟩ := hdeparture
      obtain ⟨hfirst', hlast'⟩ := htime
      cases arena.direction with
      | forward =>
        simp only [Direction.pos_forward]
        omega
      | reverse =>
        simp only [Direction.pos_reverse]
        omega

end Arena

/-! ## The wait for a leg -/

namespace Leg

variable {leg : Leg} {requested t : Int}

theorem earliestDeparture_le_max (h : leg.Ordinary) (ht : leg.earliestDeparture requested = some t) :
    t ≤ max requested 172800 := by
  unfold earliestDeparture at ht
  cases hh : leg.hours with
  | none =>
    rw [hh] at ht
    cases ht
    exact Int.le_max_left _ _
  | some hours =>
    obtain ⟨⟨-, hopens⟩, -⟩ := h.hours hours hh
    simp only [hh] at ht
    split at ht
    · cases ht
    · cases ht
      omega

theorem min_le_latestArrival (h : leg.Ordinary) (ht : leg.latestArrival requested = .ok (some t)) :
    min requested 0 ≤ t := by
  unfold latestArrival at ht
  cases hh : leg.hours with
  | none =>
    rw [hh] at ht
    cases ht
    exact Int.min_le_left _ _
  | some hours =>
    obtain ⟨-, hcloses, -⟩ := h.hours hours hh
    obtain ⟨hnonneg, -⟩ := h.duration
    simp only [hh, bind_eq_ok, Checked.sub_ok_iff] at ht
    obtain ⟨_, ⟨-, rfl⟩, ht⟩ := ht
    split at ht
    · cases ht
    · obtain ⟨_, hback, hsome⟩ := map_eq_ok.mp ht
      cases hsome
      obtain ⟨-, rfl⟩ := Checked.add_ok_iff.mp hback
      omega

/-- No leg is asked too early: the departure for an arrival can be told, and the arrival for that departure. -/
theorem latestArrival_answers (h : leg.Ordinary) (hlow : -2147483648 ≤ requested - leg.duration)
    (hhigh : requested ≤ 172800) : ∃ t?, leg.latestArrival requested = .ok t? := by
  unfold latestArrival
  cases hh : leg.hours with
  | none => exact ⟨_, rfl⟩
  | some hours =>
    obtain ⟨-, hfirst, hlast⟩ := h.hours hours hh
    obtain ⟨hnonneg, hday⟩ := h.duration
    have hdeparture : Checked.sub requested leg.duration = .ok (requested - leg.duration) :=
      Checked.sub_ok_iff.mpr ⟨by unfold Checked.Fits; omega, rfl⟩
    by_cases hopen : requested - leg.duration < hours.opens
    · exact ⟨none, bind_eq_ok.mpr ⟨_, hdeparture, if_pos hopen⟩⟩
    · have harrival : Checked.add (min (requested - leg.duration) hours.closes) leg.duration =
          .ok (min (requested - leg.duration) hours.closes + leg.duration) :=
        Checked.add_ok_iff.mpr ⟨by unfold Checked.Fits; omega, rfl⟩
      refine ⟨some (min (requested - leg.duration) hours.closes + leg.duration),
        bind_eq_ok.mpr ⟨_, hdeparture, ?_⟩⟩
      rw [if_neg hopen]
      exact map_eq_ok.mpr ⟨_, harrival, rfl⟩

end Leg

theorem Calculator.lead_le {slack : Int} (h : 0 ≤ slack) (egress : Leg) : lead egress slack ≤ slack := by
  unfold lead
  split
  · exact Int.le_refl slack
  · exact h

theorem Direction.natAbs_of_pos {dir : Direction} {a b wait : Int} (h : dir.pos b = dir.pos a + wait)
    (hwait : 0 ≤ wait) : ((b - a).natAbs : Int) = wait := by
  cases dir with
  | forward =>
    simp only [pos_forward] at h
    omega
  | reverse =>
    simp only [pos_reverse] at h
    omega

theorem Calculator.wait_of_egressDeparture {c : Calculator} {node : Arrival} {egress : Leg} {slack departure : Int}
    (hnode : node.Ordinary c.direction) (hegress : egress.Ordinary)
    (h : c.egressDeparture node.time egress slack = .ok (some departure)) :
    ∃ wait, c.direction.pos departure = c.direction.pos node.time + wait ∧ lead egress slack ≤ wait ∧
      wait ≤ max (lead egress slack) 172800 := by
  refine ⟨c.direction.pos departure - c.direction.pos node.time, by omega, ?_, ?_⟩
  · have := pos_of_egressDeparture h
    omega
  · obtain ⟨ready, hpos, hforward, hreverse⟩ := egressDeparture_of_result h
    obtain ⟨hforward', hreverse'⟩ := hnode.time
    cases hdir : c.direction with
    | forward =>
      have := Leg.earliestDeparture_le_max hegress (hforward hdir)
      have := hforward' hdir
      simp only [hdir, Direction.pos_forward] at hpos ⊢
      omega
    | reverse =>
      have := Leg.min_le_latestArrival hegress (hreverse hdir)
      have := hreverse' hdir
      simp only [hdir, Direction.pos_reverse] at hpos ⊢
      omega

theorem Calculator.start_of_no_hours {c : Calculator} {time slack : Int} {egress : Leg} {start : Option Int}
    (h : c.egressDeparture time egress slack = .ok start) (hhours : egress.hours = none) :
    ∃ departure, start = some departure ∧ c.direction.pos departure = c.direction.pos time + lead egress slack := by
  obtain ⟨ready, hpos, hforward, hreverse⟩ := egressDeparture_of_result h
  refine ⟨ready, ?_, hpos⟩
  cases hdir : c.direction with
  | forward =>
    rw [← hforward hdir, Leg.earliestDeparture, hhours]
  | reverse =>
    have := hreverse hdir
    rw [Leg.latestArrival, hhours] at this
    exact (pure_eq_ok.mp this).symm

theorem Calculator.start_of_moment {c : Calculator} {time slack moment : Int} {egress : Leg} {start : Option Int}
    (h : c.egressDeparture time egress slack = .ok start) (hduration : egress.duration = 0)
    (hhours : egress.hours = some ⟨moment, moment⟩)
    (hready : c.direction.pos time + lead egress slack ≤ c.direction.pos moment) : start = some moment := by
  obtain ⟨ready, hpos, hforward, hreverse⟩ := egressDeparture_of_result h
  cases hdir : c.direction with
  | forward =>
    simp only [hdir, Direction.pos_forward] at hpos hready
    rw [← hforward hdir, Leg.earliestDeparture, hhours]
    simp only [show ¬ moment < ready by omega, if_false]
    rw [Int.max_eq_right (by omega)]
  | reverse =>
    simp only [hdir, Direction.pos_reverse] at hpos hready
    have := hreverse hdir
    simp only [Leg.latestArrival, hhours, hduration, bind_eq_ok, Checked.sub_ok_iff, Int.sub_zero] at this
    obtain ⟨_, ⟨-, rfl⟩, this⟩ := this
    rw [if_neg (by omega), Int.min_eq_right (by omega)] at this
    obtain ⟨_, hadd, rfl⟩ := map_eq_ok.mp this
    obtain ⟨-, rfl⟩ := Checked.add_ok_iff.mp hadd
    rw [Int.add_zero]

/-! ## Overflow -/

theorem Direction.plus_answers {dir : Direction} {time duration : Int}
    (hforward : dir = .forward → Checked.Fits (time + duration))
    (hreverse : dir = .reverse → Checked.Fits (time - duration)) : ∃ r, dir.plus time duration = .ok r := by
  cases dir with
  | forward => exact ⟨_, Checked.add_ok_iff.mpr ⟨hforward rfl, rfl⟩⟩
  | reverse => exact ⟨_, Checked.sub_ok_iff.mpr ⟨hreverse rfl, rfl⟩⟩

theorem CostModel.waitCost_fits (model : CostModel) (wait : Int) : Checked.Fits (model.waitCost wait) := by
  unfold waitCost Binary64.toInt32 Checked.Fits
  split
  · decide
  · split <;> decide
  · split <;> omega

theorem Terms.destination_answers {terms : Terms} {arena : Arena} {id : Nat} {node : Arrival} {egress : Leg}
    {departure arrival added : Int} (hget : arena.get id = .ok node)
    (hstart : terms.calculator.egressDeparture node.time egress terms.slack = .ok (some departure))
    (harrival : terms.calculator.direction.plus departure egress.duration = .ok arrival)
    (hwait : Checked.Fits (departure - node.time)) (habs : Checked.Fits (departure - node.time).natAbs)
    (hadded : terms.addedCost (departure - node.time).natAbs egress = .ok added)
    (hcost : Checked.Fits (node.cost + added)) (hround : Checked.FitsCount (node.paretoRound + 1))
    (hrides : Checked.FitsCount ((node.paretoRound + 1) / 2 + egress.rides)) :
    terms.destination? arena id egress = .ok (some
      { previous := id, egress, departure, arrival, cost := node.cost + added,
        paretoRound := node.paretoRound + 1, transfers := (node.paretoRound + 1) / 2 + egress.rides - 1 }) := by
  have hrounds : node.round = .ok ((node.paretoRound + 1) / 2) :=
    map_eq_ok.mpr ⟨_, Checked.addCount_ok_iff.mpr ⟨hround, rfl⟩, rfl⟩
  refine bind_eq_ok.mpr ⟨node, hget, bind_eq_ok.mpr ⟨some departure, hstart, ?_⟩⟩
  refine bind_eq_ok.mpr ⟨arrival, harrival, bind_eq_ok.mpr ⟨_, Checked.sub_ok_iff.mpr ⟨hwait, rfl⟩, ?_⟩⟩
  refine bind_eq_ok.mpr ⟨_, Checked.abs_ok_iff.mpr ⟨habs, rfl⟩, bind_eq_ok.mpr ⟨added, hadded, ?_⟩⟩
  refine bind_eq_ok.mpr ⟨_, hrounds, bind_eq_ok.mpr ⟨_, Checked.addCount_ok_iff.mpr ⟨hrides, rfl⟩, ?_⟩⟩
  refine bind_eq_ok.mpr ⟨_, Checked.add_ok_iff.mpr ⟨hcost, rfl⟩, ?_⟩
  exact bind_eq_ok.mpr ⟨_, Checked.addCount_ok_iff.mpr ⟨hround, rfl⟩, rfl⟩

theorem Terms.fits_of_destination {terms : Terms} {arena : Arena} {id : Nat} {node : Arrival} {egress : Leg}
    {d? : Option Destination} {departure : Int} (h : terms.destination? arena id egress = .ok d?)
    (hget : arena.get id = .ok node)
    (hstart : terms.calculator.egressDeparture node.time egress terms.slack = .ok (some departure)) :
    ∃ d added, d? = some d ∧ terms.calculator.direction.plus departure egress.duration = .ok d.arrival ∧
      terms.addedCost (departure - node.time).natAbs egress = .ok added ∧ Checked.Fits (node.cost + added) := by
  obtain ⟨_, hget', h⟩ := bind_eq_ok.mp h
  cases hget.symm.trans hget'
  obtain ⟨_, hstart', h⟩ := bind_eq_ok.mp h
  cases hstart.symm.trans hstart'
  simp only [bind_eq_ok, Checked.sub_ok_iff, Checked.abs_ok_iff, Checked.add_ok_iff, pure_eq_ok] at h
  obtain ⟨_, harrival, _, ⟨-, rfl⟩, _, ⟨-, rfl⟩, added, hadded, _, -, _, -, _, ⟨hcost, rfl⟩, _, -, rfl⟩ := h
  exact ⟨_, added, rfl, harrival, hadded, hcost⟩

/-- A journey compared with itself is no better on time, so its duration is worked out. -/
theorem Journey.Order.fits_of_advantage_self {order : Journey.Order} {j : Journey} {b : Bool}
    (h : order.advantage j j = .ok b) : Checked.Fits j.span := by
  have hslow : ¬ ((order.betterTime j j || decide (j.transfers < j.transfers)) = true) := by
    unfold betterTime
    cases order.direction <;> simp
  rw [advantage, if_neg hslow] at h
  obtain ⟨_, hduration, -⟩ := bind_eq_ok.mp h
  exact (duration_eq_ok.mp hduration).1

/-! ## What is mapped -/

namespace Journey

variable {dir : Direction} {arena : Arena} {node : Arrival} {terms : Terms} {egress : Leg} {d : Destination}
  {iteration : Option Int} {j : Journey}

theorem ofChain_answers_of_reach (reach : Reach Op.isOrdinary arena) (hnode : arena.get d.previous = .ok node)
    (hjoins : terms.collaborators.Joins node egress d) : ∃ j, Map.ofChain arena.direction arena d iteration = .ok j := by
  obtain ⟨steps, _, _, _, hsteps, walk, -⟩ := leaves_of_reach reach hnode
  have bounded : Reach Op.inBounds arena := reach.mono Op.inBounds_of_isOrdinary
  have hcosts : (Hop.costs steps).IsChain fun cost before => Checked.Fits (cost - before) := by
    have hordinary : ∀ cost ∈ Hop.costs steps, OrdinaryCost cost := by
      intro cost hcost
      rcases List.mem_append.mp hcost with hcost | hcost
      · obtain ⟨step, hstep, rfl⟩ := List.mem_map.mp hcost
        exact (reach_ordinary reach step.1 step.2 (walk.get step hstep)).cost
      · rw [List.mem_singleton.mp hcost]
        decide
    have hpairs : (Hop.costs steps).Pairwise fun cost before => Checked.Fits (cost - before) := by
      refine List.pairwise_of_forall_mem_list fun a ha b hb => ?_
      obtain ⟨ha0, ha1⟩ := hordinary a ha
      obtain ⟨hb0, hb1⟩ := hordinary b hb
      unfold Checked.Fits
      omega
    exact hpairs.isChain
  have horigins : ∀ step ∈ steps, ∃ o, Hop.origin arena.direction step.2 = .ok o := by
    intro step hstep
    have hget := walk.get step hstep
    exact Hop.origin_answers bounded.inRange hget (built_stands bounded.built step.1 step.2 hget)
  obtain ⟨hops, hhops⟩ := (Hop.hops_answer_iff walk horigins).mpr hcosts
  obtain ⟨hop, hhop⟩ := Hop.ofDestination_answers hjoins hnode
  obtain ⟨all, hall⟩ := (Hop.all_answers_iff hhop hsteps).mpr ⟨hops, hhops⟩
  exact ofChain_answers hall iteration

/-- A journey takes the time of its chain, the wait and the leg. Its end that is not the destination is an ordinary time. -/
theorem span_of_ofChain (reach : Reach Op.isOrdinary arena) (hnode : arena.get d.previous = .ok node)
    (hj : Map.ofChain arena.direction arena d iteration = .ok j) :
    ∃ departure elapsed, OrdinaryTime departure ∧ -172800 ≤ elapsed ∧ elapsed ≤ 172800 ∧
      (arena.direction = .reverse → j.startTime = d.arrival ∧ j.endTime = departure) ∧
      j.span = elapsed + (arena.direction.pos d.arrival - arena.direction.pos node.time) := by
  obtain ⟨steps, root, departure, leg, hsteps, -, hlast, hroot, hleft, hdeparture, hlow, hhigh⟩ :=
    leaves_of_reach reach hnode
  obtain ⟨hop, hhop, hstarts, hends⟩ := ofChain_leaves hsteps hlast hj
  rw [start_of_root hroot hleft hhop] at hstarts hends
  obtain ⟨hends', hstarts'⟩ := ofChain_reaches hj
  refine ⟨departure, _, hdeparture, hlow, hhigh, fun hdir => ⟨hstarts' hdir, hends hdir⟩, ?_⟩
  unfold span
  cases hdir : arena.direction with
  | forward =>
    rw [hstarts hdir, hends' hdir]
    simp only [Direction.pos_forward]
    omega
  | reverse =>
    rw [hstarts' hdir, hends hdir]
    simp only [Direction.pos_reverse]
    omega

end Journey

end TransitSearch
