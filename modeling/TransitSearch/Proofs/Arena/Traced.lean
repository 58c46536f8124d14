/-
  TransitSearch.Proofs.Arena.Traced — arenas that remember how their arrivals were made.

  An arena can be reached with the help of a bare `derive`, which appends whatever it is
  told. Its handles are traced here, so that a chain may be spoken of that has none of
  them, next to others that have: each arrival of such a chain is an access arrival, or one
  ride or one walk on from the one before it (`Traced.stands`).

  The times are told in 32 bits. So every arrival has a time of 32 bits, and the origin of a
  chain was left at one (`reach_inRange`).
-/

import TransitSearch.Proofs.Arena.Ordered

namespace TransitSearch

namespace Arena

/-- The handles from a bare `derive`, `bare` being those before the operation. -/
def Op.bareAfter (arena : Arena) (bare : List Nat) : Op → List Nat
  | .derive .. => arena.size :: bare
  | .clear => []
  | _ => bare

/-- A reached arena and those of its handles that come from a bare `derive`. -/
inductive Traced : List Nat → Arena → Prop
  | empty (dir : Direction) : Traced [] (.empty dir)
  | step {bare : List Nat} {arena arena' : Arena} (op : Op) : Traced bare arena → op.inRange = true →
      arena.apply op = .ok arena' → Traced (op.bareAfter arena bare) arena'

namespace Traced

variable {bare : List Nat} {arena : Arena}

theorem reach (h : Traced bare arena) : Reach Op.inRange arena := by
  induction h with
  | empty dir => exact .empty dir
  | step op _ hrange ha ih => exact .step op ih hrange ha

theorem stands (h : Traced bare arena) :
    ∀ id node, arena.get id = .ok node → id ∉ bare → Stands arena id node := by
  induction h with
  | empty dir =>
    intro id node hget
    simp [get_eq_ok, Arena.empty] at hget
  | @step bare arena arena' op _ _ ha ih =>
    intro id node hget hid
    by_cases hclear : op = .clear
    · subst hclear
      cases ha
      simp [get_eq_ok, Arena.clear] at hget
    · have hbefore : id ∉ bare := by
        intro hmem
        cases op with
        | clear => exact hclear rfl
        | derive => exact hid (List.mem_cons_of_mem _ hmem)
        | access | transit | transfer | shift => exact hid hmem
      rcases apply_of_result ha with ⟨h, -⟩ | rfl | ⟨next, hgrows, rfl⟩
      · exact absurd h hclear
      · exact ih id node hget hbefore
      · rcases get_push.mp hget with hget | ⟨rfl, rfl⟩
        · exact (ih id node hget hbefore).push next
        · have hmade : op.isBare = false := by
            cases op with
            | derive => exact absurd List.mem_cons_self hid
            | access | transit | transfer | shift | clear => rfl
          exact (hgrows.stands hmade).push node

end Traced

/-- The arrival has a time of 32 bits and, if it is a root, was left for at one. -/
structure InRange (dir : Direction) (node : Arrival) : Prop where
  time : Checked.Fits node.time
  departure : node.previous = none → ∃ leg departure, node.kind = .access leg ∧
    dir.minus node.time leg.duration = .ok departure

theorem reach_inRange {arena : Arena} (h : Reach Op.inRange arena) :
    ∀ id node, arena.get id = .ok node → InRange arena.direction node := by
  refine reach_holds (P := fun arena _ node => InRange arena.direction node) ?_ (fun _ h => h) h
  intro arena op node hrange hgrows
  cases hgrows with
  | root departure leg hfits ht hroot =>
    obtain ⟨htime, hpos⟩ := Direction.plus_eq_ok.mp ht
    refine ⟨htime, fun _ => ⟨leg, departure, hroot.kind, ?_⟩⟩
    exact Direction.minus_eq_ok.mpr ⟨hfits hrange, by omega⟩
  | hop p _ prev _ hp htime =>
    refine ⟨htime hrange, fun hnone => ?_⟩
    rw [hp] at hnone
    cases hnone

end Arena

end TransitSearch
