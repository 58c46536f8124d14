/-
  TransitSearch.Proofs.Arena.Ordered — predecessors come first.

  An arrival that is appended continues one that is there already. So in every arena that
  can be reached, a bare `derive` being no exception, each arrival comes after the one it
  continues (`reach_ordered`), and the chain of an arrival is the walk from one predecessor
  to the next, to the end (`walk_of_ordered`). In a built arena that is a trail from the
  arrival back to its access arrival (`built_chain`).
-/

import TransitSearch.Proofs.Arena.Built

namespace TransitSearch

namespace Arena

variable {allowed : Op → Bool} {arena : Arena} {id : Nat} {node : Arrival}

/-- Every arrival comes after the one it continues. -/
def Ordered (arena : Arena) : Prop :=
  ∀ id node p, arena.get id = .ok node → node.previous = some p → p < id

theorem reach_ordered (h : Reach allowed arena) : arena.Ordered := by
  intro id node p hget hp
  refine reach_holds (P := fun _ id node => ∀ p, node.previous = some p → p < id) ?_ (fun _ h => h) h id node hget p hp
  intro arena op node _ hgrows p hp
  cases hgrows with
  | root _ leg _ _ hroot =>
    rw [hroot.previous] at hp
    cases hp
  | hop p' _ prev hprev hp' =>
    rw [hp'] at hp
    cases hp
    exact lt_size_of_get hprev

/-! ## Chains -/

/-- From an arrival through its predecessors to one that has none, each with its handle. -/
inductive Walk (arena : Arena) : List (Nat × Arrival) → Prop
  | last {id : Nat} {node : Arrival} : arena.get id = .ok node → node.previous = none → Walk arena [(id, node)]
  | hop {id p : Nat} {node prev : Arrival} {rest : List (Nat × Arrival)} : arena.get id = .ok node →
      node.previous = some p → Walk arena ((p, prev) :: rest) → Walk arena ((id, node) :: (p, prev) :: rest)

theorem Walk.get {steps : List (Nat × Arrival)} (h : arena.Walk steps) :
    ∀ step ∈ steps, arena.get step.1 = .ok step.2 := by
  induction h with
  | last hget _ => exact List.forall_mem_singleton.mpr hget
  | hop hget _ _ ih => exact List.forall_mem_cons.mpr ⟨hget, ih⟩

theorem Walk.get_head {rest : List (Nat × Arrival)} (h : Walk arena ((id, node) :: rest)) :
    arena.get id = .ok node := h.get (id, node) List.mem_cons_self

theorem get_of_lt {p : Nat} (hget : arena.get id = .ok node) (hp : p < id) : ∃ prev, arena.get p = .ok prev := by
  have hsize : p < arena.nodes.size := Nat.lt_trans hp (lt_size_of_get hget)
  exact ⟨arena.nodes[p], get_eq_ok.mpr (Array.getElem?_eq_getElem hsize)⟩

theorem walk_of_ordered (ordered : arena.Ordered) : ∀ {node : Arrival}, arena.get id = .ok node →
    ∃ rest, arena.chain id = .ok ((id, node) :: rest) ∧ Walk arena ((id, node) :: rest) := by
  induction id using Nat.strongRecOn with
  | ind id ih =>
    intro node hget
    rw [chain, hget]
    cases hp : node.previous with
    | none => exact ⟨[], bind_eq_ok.mpr ⟨node, rfl, by rw [hp]; rfl⟩, .last hget hp⟩
    | some p =>
      have hlt : p < id := ordered id node p hget hp
      obtain ⟨prev, hprev⟩ := get_of_lt hget hlt
      obtain ⟨rest, hchain, hwalk⟩ := ih p hlt hprev
      refine ⟨(p, prev) :: rest, bind_eq_ok.mpr ⟨node, rfl, ?_⟩, .hop hget hp hwalk⟩
      simp only [hp, if_pos hlt, hchain]
      rfl

theorem walk_of_chain (ordered : arena.Ordered) {steps : List (Nat × Arrival)} (h : arena.chain id = .ok steps) :
    ∃ node rest, arena.get id = .ok node ∧ steps = (id, node) :: rest ∧ Walk arena steps := by
  have hlive : ∃ node, arena.get id = .ok node := by
    rw [chain] at h
    obtain ⟨node, hget, -⟩ := bind_eq_ok.mp h
    exact ⟨node, hget⟩
  obtain ⟨node, hget⟩ := hlive
  obtain ⟨rest, hchain, hwalk⟩ := walk_of_ordered ordered hget
  cases hchain.symm.trans h
  exact ⟨node, rest, hget, rfl, hwalk⟩

/-! ## Trails -/

/-- From an arrival back to its root, each one hop on from the next. -/
inductive Trail (dir : Direction) : List Arrival → Prop
  | root {node : Arrival} (leg : Leg) : IsRoot dir leg node → Trail dir [node]
  | hop {node prev : Arrival} {rest : List Arrival} : Follows dir prev node → Trail dir (prev :: rest) →
      Trail dir (node :: prev :: rest)

theorem trail_of_walk {steps : List (Nat × Arrival)} (walk : arena.Walk steps) :
    (∀ step ∈ steps, arena.Stands step.1 step.2) → Trail arena.direction (steps.map (·.2)) := by
  induction walk with
  | last _ hp =>
    intro stands
    obtain ⟨leg, hroot⟩ := (stands _ List.mem_cons_self).root_of_none hp
    exact .root leg hroot
  | hop _ hp hwalk ih =>
    intro stands
    obtain ⟨hstands, stands⟩ := List.forall_mem_cons.mp stands
    exact .hop (hstands.follows hp hwalk.get_head) (ih stands)

theorem built_chain (h : Built arena) {node : Arrival} (hget : arena.get id = .ok node) :
    ∃ rest, arena.chain id = .ok ((id, node) :: rest) ∧ Trail arena.direction (node :: rest.map (·.2)) := by
  obtain ⟨rest, hchain, hwalk⟩ := walk_of_ordered (reach_ordered h) hget
  exact ⟨rest, hchain, trail_of_walk hwalk fun step hstep => built_stands h step.1 step.2 (hwalk.get step hstep)⟩

end Arena

end TransitSearch
