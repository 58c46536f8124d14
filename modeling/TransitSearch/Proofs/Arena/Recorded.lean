/-
  TransitSearch.Proofs.Arena.Recorded — which operation made an arrival.

  An arrival does not tell at what time the origin was left, nor by which operation it came
  to be. So the operations that appended to an arena are kept beside it, in the order of
  the handles (`Recorded`), which can be done along any run (`recorded_of_reach`). Behind
  each handle there is then one operation, and if that was an access, a ride or a walk, the
  arrival is what such an operation makes (`Recorded.made`). A chain of such arrivals has
  the departure of its root on record.
-/

import TransitSearch.Proofs.Arena.Ordered

namespace TransitSearch

namespace Arena

/-- An access, a ride or a walk. -/
def Op.isStep : Op → Bool
  | .access .. | .transit .. | .transfer .. => true
  | .derive .. | .shift .. | .clear => false

/-- A reached arena and the operations behind its arrivals, in the order of their handles. Another operation joins them if
there is one more arrival after it, and after a clear none is left. -/
inductive Recorded : List Op → Arena → Prop
  | empty (dir : Direction) : Recorded [] (.empty dir)
  | step {makers : List Op} {arena arena' : Arena} (op : Op) : Recorded makers arena → arena.apply op = .ok arena' →
      Recorded ((makers ++ [op]).take arena'.size) arena'

/-- What an access, a ride or a walk makes of the arrival at `id`. -/
inductive Made (arena : Arena) (id : Nat) (node : Arrival) : Op → Prop
  | access (departure : Int) (leg : Leg) : arena.direction.plus departure leg.duration = .ok node.time →
      IsRoot arena.direction leg node → Made arena id node (.access departure leg)
  | hop (op : Op) (p : Nat) (prev : Arrival) : node.previous = some p → p < id → arena.get p = .ok prev →
      Follows arena.direction prev node → Made arena id node op

variable {makers : List Op} {arena arena' : Arena} {id : Nat} {node : Arrival} {op : Op}

/-! ## One operation -/

theorem Made.stands (h : Made arena id node op) : Stands arena id node := by
  cases h with
  | access departure leg _ hroot => exact .root leg hroot
  | hop _ p prev hp hlt hprev hf => exact .hop p prev hp hlt hprev hf

theorem Made.push (h : Made arena id node op) (next : Arrival) : Made (arena.push next).1 id node op := by
  cases h with
  | access departure leg ht hroot => exact .access departure leg ht hroot
  | hop _ p prev hp hlt hprev hf => exact .hop op p prev hp hlt (get_push.mpr (Or.inl hprev)) hf

theorem apply_made (hop : op.isStep = true) (h : arena.apply op = .ok arena') :
    ∃ node, arena' = (arena.push node).1 ∧ Made arena arena.size node op := by
  cases op with
  | access departure leg =>
    obtain ⟨⟨_, _⟩, hx, rfl⟩ := map_eq_ok.mp h
    obtain ⟨node, ht, hroot, hpush⟩ := access_of_result hx
    cases hpush
    exact ⟨node, rfl, .access departure leg ht hroot⟩
  | transit previous stop time cost boarding =>
    obtain ⟨⟨_, _⟩, hx, rfl⟩ := map_eq_ok.mp h
    obtain ⟨prev, node, hprev, hc, hp, -, -, -, hk, hpush⟩ := derive_of_result hx
    cases hpush
    exact ⟨node, rfl, .hop _ previous prev hp (lt_size_of_get hprev) hprev (.transit boarding hc hk)⟩
  | transfer previous stop time cost =>
    obtain ⟨⟨_, _⟩, hx, rfl⟩ := map_eq_ok.mp h
    obtain ⟨prev, duration, hprev, hd, hx⟩ := transfer_of_result hx
    obtain ⟨prev', node, hprev', hc, hp, -, htime, -, hk, hpush⟩ := derive_of_result hx
    cases hprev.symm.trans hprev'
    cases hpush
    rw [← htime] at hd
    exact ⟨node, rfl, .hop _ previous prev hp (lt_size_of_get hprev) hprev (.transfer duration hc hd hk)⟩
  | derive => cases hop
  | shift => cases hop
  | clear => cases hop

/-! ## Any run -/

theorem Recorded.reach (h : Recorded makers arena) : Reach (fun _ => true) arena := by
  induction h with
  | empty dir => exact .empty dir
  | step op _ ha ih => exact .step op ih rfl ha

theorem recorded_of_reach {allowed : Op → Bool} (reach : Reach allowed arena) : ∃ makers, Recorded makers arena := by
  induction reach with
  | empty dir => exact ⟨[], .empty dir⟩
  | step op _ _ ha ih =>
    obtain ⟨makers, h⟩ := ih
    exact ⟨_, .step op h ha⟩

theorem Recorded.length (h : Recorded makers arena) : makers.length = arena.size := by
  induction h with
  | empty dir => rfl
  | @step makers arena arena' op _ ha ih =>
    have hsize : arena'.size ≤ arena.size + 1 := by
      rcases apply_of_result ha with ⟨-, rfl⟩ | rfl | ⟨node, -, rfl⟩
      · exact Nat.zero_le _
      · exact Nat.le_succ _
      · exact Nat.le_of_eq (Array.size_push _)
    rw [List.length_take, List.length_append, List.length_singleton, ih]
    exact Nat.min_eq_left hsize

theorem Recorded.made (h : Recorded makers arena) : ∀ {id node op}, arena.get id = .ok node → makers[id]? = some op →
    op.isStep = true → Made arena id node op := by
  induction h with
  | empty dir =>
    intro id node op hget
    simp [get_eq_ok, Arena.empty] at hget
  | @step makers arena arena' last before ha ih =>
    intro id node op hget hmaker hop
    rw [List.getElem?_take_of_lt (lt_size_of_get hget)] at hmaker
    rcases apply_of_result ha with ⟨-, rfl⟩ | rfl | ⟨next, -, hnext⟩
    · simp [get_eq_ok, Arena.clear] at hget
    · rw [List.getElem?_append_left (before.length ▸ lt_size_of_get hget)] at hmaker
      exact ih hget hmaker hop
    · subst hnext
      rcases get_push.mp hget with hold | ⟨rfl, rfl⟩
      · rw [List.getElem?_append_left (before.length ▸ lt_size_of_get hold)] at hmaker
        exact (ih hold hmaker hop).push next
      · rw [← before.length, List.getElem?_concat_length] at hmaker
        cases hmaker
        obtain ⟨made, hpush, hmade⟩ := apply_made hop ha
        have hsame : (arena.push node).1.get arena.size = .ok made := hpush ▸ get_push.mpr (Or.inr ⟨rfl, rfl⟩)
        cases hget.symm.trans hsame
        exact hmade.push node

end Arena

end TransitSearch
