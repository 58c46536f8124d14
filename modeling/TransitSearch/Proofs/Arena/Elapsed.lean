/-
  TransitSearch.Proofs.Arena.Elapsed — the time a chain has taken.

  An arrival tells how long ago the origin was left and how many pareto rounds have been
  counted since, and a walk tells where it came from. All of it is made up from the arrival
  before, and a chain may begin with a root that was re-timed. Along a trail the travel
  duration grows as the time does, by what the hops take one after the other
  (`Trail.sum_hopTimes`). So it is the time since the origin was left, and also what the
  access leg and the hops take together (`chains_account_for_time`).

  That the time since the origin was left is a number of 32 bits does not follow from the
  trail: it was checked at every step (`reach_fits`).
-/

import Mathlib.Algebra.Ring.Int.Defs
import TransitSearch.Proofs.Arena.Shift
import TransitSearch.Proofs.Transfers

namespace TransitSearch

open Checked

namespace Arena

/-- The time that each hop takes, along a chain from its last arrival back to its root. -/
def hopTimes (dir : Direction) (steps : List Arrival) : Except Fault (List Int) :=
  (steps.zip steps.tail).mapM fun (node, prev) => dir.between prev.time node.time

variable {arena arena' : Arena} {id : Nat} {node : Arrival} {dir : Direction}

/-! ## Along a trail -/

theorem Follows.elapsed {prev : Arrival} (h : Follows dir prev node) :
    dir.between prev.time node.time = .ok (node.travelDuration - prev.travelDuration) := by
  cases h with
  | transit _ hc _ => exact hc.elapsed
  | transfer _ hc _ _ => exact hc.elapsed

/-- Each hop takes a time, and together they take the arrival on from its root, on the clock as in what it has
travelled. -/
theorem Trail.sum_hopTimes {steps : List Arrival} (h : Trail dir steps) :
    ∃ times, hopTimes dir steps = .ok times ∧ times.length + 1 = steps.length ∧
      ∀ node ∈ steps.head?, ∀ root ∈ steps.getLast?,
        node.travelDuration = root.travelDuration + times.sum ∧ dir.pos node.time = dir.pos root.time + times.sum := by
  induction h with
  | root leg hroot =>
    refine ⟨[], rfl, rfl, fun node hnode root hroot => ?_⟩
    cases hnode
    cases hroot
    simp
  | @hop node prev rest hf _ ih =>
    obtain ⟨times, htimes, hlength, hsums⟩ := ih
    have helapsed := hf.elapsed
    refine ⟨_ :: times, mapM_cons_eq_ok.mpr ⟨_, times, helapsed, htimes, rfl⟩, by simpa using hlength,
      fun n hn root hroot => ?_⟩
    cases hn
    rw [List.getLast?_cons_cons] at hroot
    obtain ⟨hduration, hpos⟩ := hsums prev rfl root hroot
    obtain ⟨-, hback⟩ := Direction.between_eq_ok.mp helapsed
    rw [List.sum_cons]
    omega

/-! ## Range -/

/-- It is no bare `derive`, and the times it is told, and the time its leg takes, are numbers of 32 bits. -/
def Op.inBounds (op : Op) : Bool :=
  !op.isBare && op.inRange &&
    match op with
    | .access _ leg => Fits leg.duration
    | _ => true

theorem Reach.mono {allowed allowed' : Op → Bool} (h : ∀ op, allowed op = true → allowed' op = true)
    (reach : Reach allowed arena) : Reach allowed' arena := by
  induction reach with
  | empty dir => exact .empty dir
  | step op _ hop ha ih => exact .step op ih (h op hop) ha

theorem Reach.built (reach : Reach Op.inBounds arena) : Built arena := by
  refine reach.mono fun op hop => ?_
  simp only [Op.inBounds, Bool.and_eq_true] at hop
  exact hop.1.1

theorem Reach.inRange (reach : Reach Op.inBounds arena) : Reach Op.inRange arena := by
  refine reach.mono fun op hop => ?_
  simp only [Op.inBounds, Bool.and_eq_true] at hop
  exact hop.1.2

theorem fits_of_derive {previous increment stop : Nat} {time cost : Int} {kind : ArrivalKind}
    (h : arena.derive previous increment stop time cost kind = .ok (arena', id)) :
    ∃ node, Fits node.travelDuration ∧ (arena', id) = arena.push node := by
  simp only [derive, bind_eq_ok, add_ok_iff, pure_eq_ok] at h
  obtain ⟨prev, -, elapsed, -, _, ⟨hfits, rfl⟩, _, -, h⟩ := h
  exact ⟨_, hfits, h.symm⟩

theorem Stands.travelDuration {leg : Leg} (h : Stands arena id node) (hk : node.kind = .access leg) :
    node.travelDuration = leg.duration := by
  cases h with
  | root leg' hroot =>
    cases hk.symm.trans hroot.kind
    exact hroot.travelDuration
  | hop p prev _ _ _ hf =>
    cases hf with
    | transit _ _ hk' => cases hk.symm.trans hk'
    | transfer _ _ _ hk' => cases hk.symm.trans hk'

theorem apply_fits {op : Op} (built : Built arena) (hop : op.inBounds = true)
    (before : ∀ id node, arena.get id = .ok node → Fits node.travelDuration) (h : arena.apply op = .ok arena') :
    arena' = arena.clear ∨ arena' = arena ∨ ∃ node, Fits node.travelDuration ∧ arena' = (arena.push node).1 := by
  cases op with
  | access departure leg =>
    obtain ⟨⟨_, _⟩, hx, rfl⟩ := map_eq_ok.mp h
    obtain ⟨node, -, hroot, hpush⟩ := access_of_result hx
    cases hpush
    simp only [Op.inBounds, Bool.and_eq_true, decide_eq_true_eq] at hop
    exact Or.inr (Or.inr ⟨node, hroot.travelDuration ▸ hop.2, rfl⟩)
  | transit previous stop time cost boarding =>
    obtain ⟨⟨_, _⟩, hx, rfl⟩ := map_eq_ok.mp h
    obtain ⟨node, hfits, hpush⟩ := fits_of_derive hx
    cases hpush
    exact Or.inr (Or.inr ⟨node, hfits, rfl⟩)
  | transfer previous stop time cost =>
    obtain ⟨⟨_, _⟩, hx, rfl⟩ := map_eq_ok.mp h
    obtain ⟨_, _, -, -, hx⟩ := transfer_of_result hx
    obtain ⟨node, hfits, hpush⟩ := fits_of_derive hx
    cases hpush
    exact Or.inr (Or.inr ⟨node, hfits, rfl⟩)
  | derive => simp [Op.inBounds, Op.isBare] at hop
  | shift id requested =>
    obtain ⟨⟨outcome, _⟩, hx, rfl⟩ := map_eq_ok.mp h
    obtain ⟨node, hget, ⟨_, -, rfl⟩ | ⟨leg, hk, hretimes⟩⟩ := shift_cases hx
    · exact Or.inr (Or.inl rfl)
    · cases hretimes with
      | refused _ => exact Or.inr (Or.inl rfl)
      | kept _ => exact Or.inr (Or.inl rfl)
      | moved _ _ _ _ _ _ _ haccess =>
        obtain ⟨root, -, hroot, hpush⟩ := access_of_result haccess
        cases hpush
        -- the leg that is moved was one of 32 bits when it first came in, as the root that has it tells
        have hsame : root.travelDuration = node.travelDuration :=
          hroot.travelDuration.trans ((built_stands built id node hget).travelDuration hk).symm
        exact Or.inr (Or.inr ⟨root, hsame ▸ before id node hget, rfl⟩)
  | clear =>
    cases h
    exact Or.inl rfl

theorem reach_fits (reach : Reach Op.inBounds arena) : ∀ id node, arena.get id = .ok node → Fits node.travelDuration := by
  induction reach with
  | empty dir =>
    intro id node hget
    simp [get_eq_ok, empty] at hget
  | step op reach hop ha ih =>
    intro id node hget
    rcases apply_fits reach.built hop ih ha with rfl | rfl | ⟨next, hfits, rfl⟩
    · simp [get_eq_ok, clear] at hget
    · exact ih id node hget
    · rcases get_push.mp hget with hget | ⟨-, rfl⟩
      · exact ih id node hget
      · exact hfits

/-! ## Any arrival -/

/-- Of every arrival that accesses, rides, walks and re-timing lead to: the rounds are two for each ride of the access leg
and one for each hop from there. The travel duration is the time since the origin was left, which was as long before the
root as the access leg takes; and it is what the leg and the hops take together. A walk tells the stop it came from and the
time since then. -/
theorem chains_account_for_time (reach : Reach Op.inBounds arena) (hget : arena.get id = .ok node) :
    ∃ steps hops root leg departure times, arena.chain id = .ok steps ∧ steps.map (·.2) = hops ++ [root] ∧
      root.previous = none ∧ root.kind = .access leg ∧
      node.paretoRound = 2 * leg.rides + hops.length ∧
      arena.direction.minus root.time leg.duration = .ok departure ∧
      arena.direction.between departure node.time = .ok node.travelDuration ∧
      hopTimes arena.direction (hops ++ [root]) = .ok times ∧ times.length = hops.length ∧
      node.travelDuration = leg.duration + times.sum ∧
      ∀ fromStop duration, node.kind = .transfer fromStop duration →
        ∃ p prev, node.previous = some p ∧ arena.get p = .ok prev ∧ fromStop = prev.stop ∧
          arena.direction.between prev.time node.time = .ok duration := by
  obtain ⟨rest, hchain, trail⟩ := built_chain reach.built hget
  obtain ⟨rest', hchain', walk⟩ := walk_of_ordered (reach_ordered reach) hget
  cases hchain.symm.trans hchain'
  obtain ⟨hops, root, leg, hsteps, hroot, -, hround⟩ := trail.counts
  obtain ⟨times, htimes, hlength, hsums⟩ := trail.sum_hopTimes
  have hlast : (node :: rest.map (·.2)).getLast? = some root := by rw [hsteps, List.getLast?_concat]
  obtain ⟨hduration, hpos⟩ := hsums node rfl root hlast
  rw [hroot.travelDuration] at hduration
  -- the root is an arrival of the arena, so the time at which the origin was left can be told
  have hmem : root ∈ ((id, node) :: rest).map (·.2) := List.mem_of_getLast? hlast
  obtain ⟨step, hstep, rfl⟩ := List.mem_map.mp hmem
  obtain ⟨_, departure, hk, hdeparture⟩ :=
    (reach_inRange reach.inRange _ _ (walk.get step hstep)).departure hroot.previous
  cases hroot.kind.symm.trans hk
  obtain ⟨-, hback⟩ := Direction.minus_eq_ok.mp hdeparture
  refine ⟨_, hops, step.2, leg, departure, times, hchain, hsteps, hroot.previous, hroot.kind, hround node rfl, hdeparture,
    Direction.between_eq_ok.mpr ⟨reach_fits reach id node hget, by omega⟩, hsteps ▸ htimes, ?_, hduration,
    fun fromStop duration htransfer => ?_⟩
  · rw [hsteps, List.length_append] at hlength
    exact Nat.succ.inj hlength
  · cases built_stands reach.built id node hget with
    | root _ hroot => cases htransfer.symm.trans hroot.kind
    | hop p prev hp _ hprev hf =>
      cases hf with
      | transit _ _ hk => cases htransfer.symm.trans hk
      | transfer _ _ hd hk =>
        cases htransfer.symm.trans hk
        exact ⟨p, prev, hp, hprev, rfl, hd⟩

/-- An arrive-by chain on a root that was re-timed: a ride on demand to the stop, set out on a minute later than at
first, then a ride and a walk. -/
theorem chains_account_for_time_moved :
    let leg : Leg := .flex 1 60 0 1 true
    let first : Arrival := ⟨none, 2, 1, 940, 60, 0, .access leg⟩
    let moved : Arrival := { first with time := 1000 }
    let ride : Arrival := ⟨some 1, 3, 2, 700, 360, 0, .transit ⟨1, 990, 7⟩⟩
    let walk : Arrival := ⟨some 2, 4, 3, 640, 420, 0, .transfer 2 60⟩
    let arena : Arena := ⟨.reverse, #[first, moved, ride, walk]⟩
    Reach Op.inBounds arena ∧ arena.get 3 = .ok walk ∧ walk.paretoRound = 2 * leg.rides + 2 ∧
      arena.direction.minus moved.time leg.duration = .ok 1060 ∧
      arena.direction.between 1060 walk.time = .ok walk.travelDuration ∧
      hopTimes arena.direction [walk, ride, moved] = .ok [60, 300] ∧ walk.travelDuration = leg.duration + 360 := by
  intro leg first moved ride walk arena
  have reach : Reach Op.inBounds arena :=
    .step (.transfer 2 3 640 0) (.step (.transit 1 2 700 0 ⟨1, 990, 7⟩) (.step (.shift 0 1000)
      (.step (.access 1000 leg) (.empty .reverse) rfl rfl) rfl rfl) rfl rfl) rfl rfl
  have hwalked : arena.chain 3 = .ok [(3, walk), (2, ride), (1, moved)] := by decide +kernel
  obtain ⟨steps, hops, root, leg', departure, times, hchain, hsteps, -, hleg, hround, hdeparture, helapsed, htimes, -,
    hsum, -⟩ := chains_account_for_time reach (show arena.get 3 = .ok walk from rfl)
  cases hwalked.symm.trans hchain
  obtain ⟨rfl, hroot⟩ := List.append_inj' (show [walk, ride] ++ [moved] = hops ++ [root] from hsteps) rfl
  cases hroot
  cases hleg
  cases (show arena.direction.minus moved.time leg.duration = .ok 1060 from rfl).symm.trans hdeparture
  cases (show hopTimes arena.direction [walk, ride, moved] = .ok [60, 300] from rfl).symm.trans htimes
  exact ⟨reach, rfl, hround, hdeparture, helapsed, htimes, hsum⟩

end Arena

end TransitSearch
