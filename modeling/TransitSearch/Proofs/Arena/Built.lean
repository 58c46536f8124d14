/-
  TransitSearch.Proofs.Arena.Built — the arenas that a search can build.

  An arena is reached from an empty one by any of its operations (`Reach`); one is built
  when none of them was a bare `derive`, which appends whatever it is told. In a built
  arena every arrival is an access arrival, or one ride or one walk on from an arrival
  before it (`Stands`, `built_stands`).

  `access_of_result`, `derive_of_result`, `transfer_of_result` and `shift_of_result` say
  all that an answered operation can have done, and `apply_of_result` what any of them can.
  So an invariant of arrivals has to be shown of what is appended only (`reach_holds`).
-/

import TransitSearch.Arena
import TransitSearch.Proofs.Direction

namespace TransitSearch

namespace Arena

inductive Op where
  | access (departure : Int) (leg : Leg)
  | transit (previous stop : Nat) (time cost : Int) (boarding : Boarding)
  | transfer (previous stop : Nat) (time cost : Int)
  | derive (previous increment stop : Nat) (time cost : Int) (kind : ArrivalKind)
  | shift (id : Nat) (requested : Int)
  | clear

def apply (arena : Arena) : Op → Except Fault Arena
  | .access departure leg => (·.1) <$> arena.access departure leg
  | .transit previous stop time cost boarding => (·.1) <$> arena.transit previous stop time cost boarding
  | .transfer previous stop time cost => (·.1) <$> arena.transfer previous stop time cost
  | .derive previous increment stop time cost kind => (·.1) <$> arena.derive previous increment stop time cost kind
  | .shift id requested => (·.2) <$> (arena.shift id requested).result
  | .clear => pure arena.clear

def Op.isBare : Op → Bool
  | .derive .. => true
  | _ => false

/-- The times it is told are numbers of 32 bits. -/
def Op.inRange : Op → Bool
  | .access departure _ => Checked.Fits departure
  | .transit _ _ time _ _ | .transfer _ _ time _ | .derive _ _ _ time _ _ => Checked.Fits time
  | .shift .. | .clear => true

inductive Reach (allowed : Op → Bool) : Arena → Prop
  | empty (dir : Direction) : Reach allowed (.empty dir)
  | step {arena arena' : Arena} (op : Op) : Reach allowed arena → allowed op = true → arena.apply op = .ok arena' →
      Reach allowed arena'

def Built (arena : Arena) : Prop := Reach (!·.isBare) arena

/-- The root of a chain, with its leg. -/
structure IsRoot (dir : Direction) (leg : Leg) (node : Arrival) : Prop where
  kind : node.kind = .access leg
  previous : node.previous = none
  departure : ∃ departure, dir.plus departure leg.duration = .ok node.time
  paretoRound : node.paretoRound = leg.rides * (transitIncrement + transferIncrement)
  stop : node.stop = leg.stop
  travelDuration : node.travelDuration = leg.duration
  cost : node.cost = leg.cost

/-- The time since `prev` is travel, and `increment` pareto rounds are counted. -/
structure Continues (dir : Direction) (prev : Arrival) (increment : Nat) (node : Arrival) : Prop where
  elapsed : dir.between prev.time node.time = .ok (node.travelDuration - prev.travelDuration)
  paretoRound : node.paretoRound = prev.paretoRound + increment

/-- One ride or one walk on from `prev`. -/
inductive Follows (dir : Direction) (prev node : Arrival) : Prop
  | transit (boarding : Boarding) : Continues dir prev transitIncrement node → node.kind = .transit boarding →
      Follows dir prev node
  | transfer (duration : Int) : Continues dir prev transferIncrement node →
      dir.between prev.time node.time = .ok duration → node.kind = .transfer prev.stop duration →
      Follows dir prev node

/-- How an arrival came to stand at `id`. -/
inductive Stands (arena : Arena) (id : Nat) (node : Arrival) : Prop
  | root (leg : Leg) : IsRoot arena.direction leg node → Stands arena id node
  | hop (p : Nat) (prev : Arrival) : node.previous = some p → p < id → arena.get p = .ok prev →
      Follows arena.direction prev node → Stands arena id node

/-! ## Reading -/

variable {arena arena' : Arena} {id : Nat} {node : Arrival}

theorem get_eq_ok : arena.get id = .ok node ↔ arena.nodes[id]? = some node := by
  unfold get
  cases arena.nodes[id]? <;> simp

theorem get_push {next : Arrival} : (arena.push next).1.get id = .ok node ↔
    arena.get id = .ok node ∨ id = arena.size ∧ node = next := by
  simp only [get_eq_ok, push, Array.getElem?_push, size]
  split
  · rename_i h
    simp [h, eq_comm]
  · rename_i h
    simp [h]

theorem lt_size_of_get (h : arena.get id = .ok node) : id < arena.size := by
  obtain ⟨h, -⟩ := Array.getElem?_eq_some_iff.mp (get_eq_ok.mp h)
  exact h

/-! ## One operation -/

theorem access_of_result {departure : Int} {leg : Leg} (h : arena.access departure leg = .ok (arena', id)) :
    ∃ node, arena.direction.plus departure leg.duration = .ok node.time ∧ IsRoot arena.direction leg node ∧
      (arena', id) = arena.push node := by
  simp only [access, bind_eq_ok, Checked.mulCount_ok_iff, pure_eq_ok] at h
  obtain ⟨_, ⟨-, rfl⟩, time, ht, h⟩ := h
  exact ⟨_, ht, ⟨rfl, rfl, ⟨departure, ht⟩, rfl, rfl, rfl, rfl⟩, h.symm⟩

theorem derive_of_result {previous increment stop : Nat} {time cost : Int} {kind : ArrivalKind}
    (h : arena.derive previous increment stop time cost kind = .ok (arena', id)) :
    ∃ prev next, arena.get previous = .ok prev ∧ Continues arena.direction prev increment next ∧
      next.previous = some previous ∧ next.stop = stop ∧ next.time = time ∧ next.cost = cost ∧ next.kind = kind ∧
      (arena', id) = arena.push next := by
  simp only [derive, bind_eq_ok, Checked.add_ok_iff, Checked.addCount_ok_iff, pure_eq_ok] at h
  obtain ⟨prev, hprev, elapsed, he, _, ⟨-, rfl⟩, _, ⟨-, rfl⟩, h⟩ := h
  refine ⟨prev, _, hprev, ⟨he.trans (congrArg _ ?_), rfl⟩, rfl, rfl, rfl, rfl, rfl, h.symm⟩
  show elapsed = prev.travelDuration + elapsed - prev.travelDuration
  omega

theorem transfer_of_result {previous stop : Nat} {time cost : Int}
    (h : arena.transfer previous stop time cost = .ok (arena', id)) :
    ∃ prev duration, arena.get previous = .ok prev ∧ arena.direction.between prev.time time = .ok duration ∧
      arena.derive previous transferIncrement stop time cost (.transfer prev.stop duration) = .ok (arena', id) := by
  simp only [transfer, bind_eq_ok] at h
  obtain ⟨prev, hprev, duration, hd, h⟩ := h
  exact ⟨prev, duration, hprev, hd, h⟩

theorem shift_of_result {requested : Int} {outcome : Except ShiftError Nat}
    (h : (arena.shift id requested).result = .ok (outcome, arena')) :
    (∃ why, outcome = .error why ∧ arena' = arena) ∨ (outcome = .ok id ∧ arena' = arena) ∨
      ∃ departure leg next, outcome = .ok next ∧ Checked.Fits departure ∧
        arena.access departure leg = .ok (arena', next) := by
  simp only [shift, Run.result_bind_eq_ok, Run.result_lift] at h
  obtain ⟨node, -, h⟩ := h
  cases hkind : node.kind with
  | access leg =>
    simp only [hkind, Run.result_bind_eq_ok, Run.result_lift] at h
    obtain ⟨time?, -, h⟩ := h
    cases time? with
    | none =>
      cases h
      exact Or.inl ⟨_, rfl, rfl⟩
    | some time =>
      by_cases hsame : time = node.time
      · simp only [if_pos hsame] at h
        cases h
        exact Or.inr (Or.inl ⟨rfl, rfl⟩)
      · simp only [if_neg hsame, Run.result_bind_eq_ok, Run.result_lift] at h
        obtain ⟨departure, hd, -, -, ⟨next, id'⟩, hp, h⟩ := h
        cases h
        exact Or.inr (Or.inr ⟨departure, leg, id', rfl, (Direction.minus_eq_ok.mp hd).1, hp⟩)
  | transit boarding =>
    rw [hkind] at h
    cases h
    exact Or.inl ⟨_, rfl, rfl⟩
  | transfer fromStop duration =>
    rw [hkind] at h
    cases h
    exact Or.inl ⟨_, rfl, rfl⟩

/-- What an operation appends: the root of a chain, or an arrival that continues one that is there. -/
inductive Grows (arena : Arena) (op : Op) (node : Arrival) : Prop
  | root (departure : Int) (leg : Leg) : (op.inRange = true → Checked.Fits departure) →
      arena.direction.plus departure leg.duration = .ok node.time → IsRoot arena.direction leg node →
      Grows arena op node
  | hop (p increment : Nat) (prev : Arrival) : arena.get p = .ok prev → node.previous = some p →
      (op.inRange = true → Checked.Fits node.time) → Continues arena.direction prev increment node →
      (op.isBare = false → Follows arena.direction prev node) → Grows arena op node

/-- All that an operation can do: append one arrival, or nothing, or clear the arena. -/
theorem apply_of_result {op : Op} (h : arena.apply op = .ok arena') :
    (op = .clear ∧ arena' = arena.clear) ∨ arena' = arena ∨
      ∃ node, arena.Grows op node ∧ arena' = (arena.push node).1 := by
  cases op with
  | access departure leg =>
    obtain ⟨⟨_, _⟩, hx, rfl⟩ := map_eq_ok.mp h
    obtain ⟨node, ht, hroot, hpush⟩ := access_of_result hx
    cases hpush
    exact Or.inr (Or.inr ⟨node, .root departure leg (by simp [Op.inRange]) ht hroot, rfl⟩)
  | transit previous stop time cost boarding =>
    obtain ⟨⟨_, _⟩, hx, rfl⟩ := map_eq_ok.mp h
    obtain ⟨prev, node, hprev, hc, hp, -, htime, -, hk, hpush⟩ := derive_of_result hx
    cases hpush
    refine Or.inr (Or.inr ⟨node, .hop previous _ prev hprev hp (fun hr => ?_) hc (fun _ => ?_), rfl⟩)
    · simpa [Op.inRange, htime] using hr
    · exact .transit boarding hc hk
  | transfer previous stop time cost =>
    obtain ⟨⟨_, _⟩, hx, rfl⟩ := map_eq_ok.mp h
    obtain ⟨prev, duration, hprev, hd, hx⟩ := transfer_of_result hx
    obtain ⟨prev', node, hprev', hc, hp, -, htime, -, hk, hpush⟩ := derive_of_result hx
    cases hprev.symm.trans hprev'
    cases hpush
    refine Or.inr (Or.inr ⟨node, .hop previous _ prev hprev hp (fun hr => ?_) hc (fun _ => ?_), rfl⟩)
    · simpa [Op.inRange, htime] using hr
    · rw [← htime] at hd
      exact .transfer duration hc hd hk
  | derive previous increment stop time cost kind =>
    obtain ⟨⟨_, _⟩, hx, rfl⟩ := map_eq_ok.mp h
    obtain ⟨prev, node, hprev, hc, hp, -, htime, -, -, hpush⟩ := derive_of_result hx
    cases hpush
    refine Or.inr (Or.inr ⟨node, .hop previous _ prev hprev hp (fun hr => ?_) hc nofun, rfl⟩)
    simpa [Op.inRange, htime] using hr
  | shift id requested =>
    obtain ⟨⟨outcome, _⟩, hx, rfl⟩ := map_eq_ok.mp h
    rcases shift_of_result hx with ⟨_, -, rfl⟩ | ⟨-, rfl⟩ | ⟨departure, leg, _, -, hfits, hx⟩
    · exact Or.inr (Or.inl rfl)
    · exact Or.inr (Or.inl rfl)
    · obtain ⟨node, ht, hroot, hpush⟩ := access_of_result hx
      cases hpush
      exact Or.inr (Or.inr ⟨node, .root departure leg (fun _ => hfits) ht hroot, rfl⟩)
  | clear =>
    cases h
    exact Or.inl ⟨rfl, rfl⟩

theorem reach_holds {allowed : Op → Bool} {P : Arena → Nat → Arrival → Prop}
    (appended : ∀ {arena op node}, allowed op = true → Grows arena op node → P arena arena.size node)
    (stays : ∀ {arena id node} next, P arena id node → P (arena.push next).1 id node) (h : Reach allowed arena) :
    ∀ id node, arena.get id = .ok node → P arena id node := by
  induction h with
  | empty dir =>
    intro id node hget
    simp [get_eq_ok, empty] at hget
  | step op _ hop ha ih =>
    intro id node hget
    rcases apply_of_result ha with ⟨-, rfl⟩ | rfl | ⟨next, hgrows, rfl⟩
    · simp [get_eq_ok, clear] at hget
    · exact ih id node hget
    · rcases get_push.mp hget with hget | ⟨rfl, rfl⟩
      · exact stays next (ih id node hget)
      · exact stays node (appended hop hgrows)

theorem root_of_reach {allowed : Op → Bool} (reach : Reach allowed arena) (hget : arena.get id = .ok node)
    (hp : node.previous = none) : ∃ leg, IsRoot arena.direction leg node := by
  refine reach_holds (P := fun arena _ node => node.previous = none → ∃ leg, IsRoot arena.direction leg node) ?_
    (fun _ h => h) reach id node hget hp
  intro arena op node _ hgrows hp
  cases hgrows with
  | root _ leg _ _ hroot => exact ⟨leg, hroot⟩
  | hop p _ _ _ hp' =>
    rw [hp] at hp'
    cases hp'

/-! ## Built arenas -/

theorem Follows.paretoRound {dir : Direction} {prev : Arrival} (h : Follows dir prev node) :
    node.paretoRound = prev.paretoRound + 1 := by
  cases h with
  | transit boarding hc _ => exact hc.paretoRound
  | transfer duration hc _ _ => exact hc.paretoRound

theorem Stands.root_of_none (h : Stands arena id node) (hp : node.previous = none) :
    ∃ leg, IsRoot arena.direction leg node := by
  cases h with
  | root leg hroot => exact ⟨leg, hroot⟩
  | hop p prev hp' =>
    rw [hp] at hp'
    cases hp'

theorem Stands.follows {p : Nat} {prev : Arrival} (h : Stands arena id node) (hp : node.previous = some p)
    (hprev : arena.get p = .ok prev) : Follows arena.direction prev node := by
  cases h with
  | root leg hroot =>
    rw [hroot.previous] at hp
    cases hp
  | hop p' prev' hp' _ hprev' hf =>
    cases hp.symm.trans hp'
    cases hprev.symm.trans hprev'
    exact hf

theorem Stands.push (h : Stands arena id node) (next : Arrival) : Stands (arena.push next).1 id node := by
  cases h with
  | root leg hroot => exact .root leg hroot
  | hop p prev hp hlt hprev hf => exact .hop p prev hp hlt (get_push.mpr (Or.inl hprev)) hf

/-- What is appended stands where it is put, unless a bare `derive` put it there. -/
theorem Grows.stands {op : Op} (h : arena.Grows op node) (hop : op.isBare = false) :
    Stands arena arena.size node := by
  cases h with
  | root _ leg _ _ hroot => exact .root leg hroot
  | hop p _ prev hprev hp _ _ hf => exact .hop p prev hp (lt_size_of_get hprev) hprev (hf hop)

theorem built_stands (h : Built arena) : ∀ id node, arena.get id = .ok node → Stands arena id node := by
  refine reach_holds (fun hop hgrows => hgrows.stands ?_) (fun next hstands => hstands.push next) h
  simpa using hop

end Arena

end TransitSearch
