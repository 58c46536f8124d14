/-
  TransitSearch.Proofs.Arena.Stable — handles stay good until the arena is cleared.

  Operations are run one after the other, up to the first fault, and the handles they give
  out since the last clear are kept (`applyAll`). Those are the handles that point into the
  arena (`applyAll_issues`).

  `follow` goes from predecessor to predecessor with no guard of its own: it would leave the
  arena, or never end, if a handle led there. From an arrival of a reached arena it comes to
  an end within as many steps as the handle allows, and has then met the chain of the
  arrival (`follow_of_walk`, `Walk.length_le`).

  Whatever is there stays under its handle while nothing is cleared (`Extends`,
  `extends_of_apply`), and so does its chain (`Extends.chain`): what was copied out of the
  arena stays true of it.
-/

import Mathlib.Data.List.Chain
import TransitSearch.Proofs.Arena.Ordered

namespace TransitSearch

namespace Arena

variable {arena arena' : Arena} {id : Nat} {node : Arrival}

/-! ## Running operations -/

/-- The handle that an operation gives out, if it gives out one. -/
def Op.handle? (arena : Arena) : Op → Option Nat
  | .access departure leg => (·.2) <$> (arena.access departure leg).toOption
  | .transit previous stop time cost boarding => (·.2) <$> (arena.transit previous stop time cost boarding).toOption
  | .transfer previous stop time cost => (·.2) <$> (arena.transfer previous stop time cost).toOption
  | .derive previous increment stop time cost kind =>
    (·.2) <$> (arena.derive previous increment stop time cost kind).toOption
  | .shift id requested =>
    match (arena.shift id requested).result with
    | .ok (.ok id, _) => some id
    | _ => none
  | .clear => none

/-- The handles given out since the last clear, `issued` being those before the operation. -/
def Op.issuedAfter (arena : Arena) (issued : List Nat) : Op → List Nat
  | .clear => []
  | op => issued ++ (op.handle? arena).toList

def applyAll (arena : Arena) (issued : List Nat) : List Op → Except Fault (Arena × List Nat)
  | [] => pure (arena, issued)
  | op :: rest => do
    let arena' ← arena.apply op
    arena'.applyAll (op.issuedAfter arena issued) rest

theorem reach_applyAll (ops : List Op) : ∀ {arena arena' : Arena} {issued issued' : List Nat},
    Reach (fun _ => true) arena → arena.applyAll issued ops = .ok (arena', issued') → Reach (fun _ => true) arena' := by
  induction ops with
  | nil =>
    intro arena arena' issued issued' hr h
    cases h
    exact hr
  | cons op rest ih =>
    intro arena arena' issued issued' hr h
    obtain ⟨next, hnext, h⟩ := bind_eq_ok.mp h
    exact ih (.step op hr rfl hnext) h

/-! ## Handles given out -/

theorem size_of_push (h : (arena', id) = arena.push node) : id = arena.size ∧ arena'.size = arena.size + 1 := by
  cases h
  exact ⟨rfl, Array.size_push _⟩

theorem get_of_shift {requested : Int} {answer : Except ShiftError Nat × Arena}
    (h : (arena.shift id requested).result = .ok answer) : ∃ node, arena.get id = .ok node := by
  obtain ⟨node, hget, -⟩ := Run.result_bind_eq_ok.mp h
  exact ⟨node, hget⟩

/-- An operation gives out the handle of what it appends. One that appends nothing gives out none, or one that points
into the arena already. -/
theorem handle_of_apply {op : Op} (h : arena.apply op = .ok arena') (hop : op ≠ .clear) :
    (op.handle? arena = some arena.size ∧ arena'.size = arena.size + 1) ∨
      ((∀ id, op.handle? arena = some id → id < arena.size) ∧ arena'.size = arena.size) := by
  cases op with
  | access departure leg =>
    obtain ⟨⟨_, id⟩, hx, rfl⟩ := map_eq_ok.mp h
    obtain ⟨node, -, -, hpush⟩ := access_of_result hx
    obtain ⟨rfl, hsize⟩ := size_of_push hpush
    exact Or.inl ⟨by simp [Op.handle?, hx, Except.toOption], hsize⟩
  | transit previous stop time cost boarding =>
    obtain ⟨⟨_, id⟩, hx, rfl⟩ := map_eq_ok.mp h
    obtain ⟨_, node, -, -, -, -, -, -, -, hpush⟩ := derive_of_result hx
    obtain ⟨rfl, hsize⟩ := size_of_push hpush
    exact Or.inl ⟨by simp [Op.handle?, hx, Except.toOption], hsize⟩
  | transfer previous stop time cost =>
    obtain ⟨⟨_, id⟩, hx, rfl⟩ := map_eq_ok.mp h
    obtain ⟨_, _, -, -, hd⟩ := transfer_of_result hx
    obtain ⟨_, node, -, -, -, -, -, -, -, hpush⟩ := derive_of_result hd
    obtain ⟨rfl, hsize⟩ := size_of_push hpush
    exact Or.inl ⟨by simp [Op.handle?, hx, Except.toOption], hsize⟩
  | derive previous increment stop time cost kind =>
    obtain ⟨⟨_, id⟩, hx, rfl⟩ := map_eq_ok.mp h
    obtain ⟨_, node, -, -, -, -, -, -, -, hpush⟩ := derive_of_result hx
    obtain ⟨rfl, hsize⟩ := size_of_push hpush
    exact Or.inl ⟨by simp [Op.handle?, hx, Except.toOption], hsize⟩
  | shift id requested =>
    obtain ⟨⟨outcome, _⟩, hx, rfl⟩ := map_eq_ok.mp h
    rcases shift_of_result hx with ⟨why, rfl, rfl⟩ | ⟨rfl, rfl⟩ | ⟨departure, leg, next, rfl, -, hp⟩
    · exact Or.inr ⟨by simp [Op.handle?, hx], rfl⟩
    · obtain ⟨node, hget⟩ := get_of_shift hx
      refine Or.inr ⟨fun i hi => ?_, rfl⟩
      simp only [Op.handle?, hx, Option.some.injEq] at hi
      exact hi ▸ lt_size_of_get hget
    · obtain ⟨node, -, -, hpush⟩ := access_of_result hp
      obtain ⟨rfl, hsize⟩ := size_of_push hpush
      exact Or.inl ⟨by simp [Op.handle?, hx], hsize⟩
  | clear => exact absurd rfl hop

/-- What is given out are the handles that point into the arena. -/
def Issues (arena : Arena) (issued : List Nat) : Prop := ∀ id, id ∈ issued ↔ id < arena.size

theorem Issues.apply {issued : List Nat} (hi : arena.Issues issued) {op : Op} (h : arena.apply op = .ok arena') :
    arena'.Issues (op.issuedAfter arena issued) := by
  by_cases hop : op = .clear
  · subst hop
    cases h
    intro id
    simp [Op.issuedAfter, clear, size]
  · have hafter : op.issuedAfter arena issued = issued ++ (op.handle? arena).toList := by
      cases op <;> first | rfl | exact absurd rfl hop
    intro id
    rw [hafter, List.mem_append, Option.mem_toList, hi id]
    rcases handle_of_apply h hop with ⟨hgiven, hsize⟩ | ⟨hgiven, hsize⟩
    · rw [hgiven, hsize, Option.some.injEq]
      omega
    · rw [hsize]
      exact ⟨fun hid => hid.elim (·) (hgiven id ·), Or.inl⟩

theorem applyAll_issues (ops : List Op) : ∀ {arena arena' : Arena} {issued issued' : List Nat},
    arena.Issues issued → arena.applyAll issued ops = .ok (arena', issued') → arena'.Issues issued' := by
  induction ops with
  | nil =>
    intro arena arena' issued issued' hi h
    cases h
    exact hi
  | cons op rest ih =>
    intro arena arena' issued issued' hi h
    obtain ⟨next, hnext, h⟩ := bind_eq_ok.mp h
    exact ih (hi.apply hnext) h

/-! ## Following predecessors -/

/-- At most `n` steps from predecessor to predecessor: the arrivals met, and the handle that the walk has come to. -/
def follow (arena : Arena) : Nat → Option Nat → Except Fault (List (Nat × Arrival) × Option Nat)
  | 0, stand => pure ([], stand)
  | _ + 1, none => pure ([], none)
  | n + 1, some id => do
    let node ← arena.get id
    let (rest, stand) ← arena.follow n node.previous
    pure ((id, node) :: rest, stand)

theorem follow_none (n : Nat) : arena.follow n none = .ok ([], none) := by
  cases n <;> rfl

theorem follow_of_walk {steps : List (Nat × Arrival)} (walk : arena.Walk steps) : ∀ {n : Nat}, steps.length ≤ n →
    ∀ {id node rest}, steps = (id, node) :: rest → arena.follow n (some id) = .ok (steps, none) := by
  induction walk with
  | last hget hp =>
    intro n hn id node rest hsteps
    cases hsteps
    cases n with
    | zero => simp at hn
    | succ n =>
      refine bind_eq_ok.mpr ⟨_, hget, bind_eq_ok.mpr ⟨([], none), ?_, rfl⟩⟩
      rw [hp, follow_none]
  | hop hget hp _ ih =>
    intro n hn id node rest hsteps
    cases hsteps
    cases n with
    | zero => simp at hn
    | succ n =>
      refine bind_eq_ok.mpr ⟨_, hget, bind_eq_ok.mpr ⟨(_, none), ?_, rfl⟩⟩
      rw [hp]
      exact ih (Nat.le_of_succ_le_succ hn) rfl

/-- Handles go down along a walk, so it has no more arrivals than its first handle allows. -/
theorem Walk.descends (ordered : arena.Ordered) {steps : List (Nat × Arrival)} (walk : arena.Walk steps) :
    (steps.map (·.1)).IsChain (· > ·) := by
  induction walk with
  | last _ _ => exact List.isChain_singleton _
  | hop hget hp _ ih => exact List.isChain_cons_cons.mpr ⟨ordered _ _ _ hget hp, ih⟩

theorem Walk.length_le (ordered : arena.Ordered) {steps : List (Nat × Arrival)} (walk : arena.Walk steps) :
    ∀ {id node rest}, steps = (id, node) :: rest → steps.length ≤ id + 1 := by
  induction walk with
  | last _ _ =>
    intro id node rest hsteps
    cases hsteps
    simp
  | hop hget hp _ ih =>
    intro id node rest hsteps
    cases hsteps
    have hlater := ih rfl
    have hlt := ordered _ _ _ hget hp
    simp only [List.length_cons] at hlater ⊢
    omega

theorem Walk.ends {steps : List (Nat × Arrival)} (walk : arena.Walk steps) :
    ∃ root, steps.getLast? = some root ∧ root.2.previous = none := by
  induction walk with
  | last _ hp => exact ⟨_, rfl, hp⟩
  | hop _ _ _ ih =>
    obtain ⟨root, hlast, hroot⟩ := ih
    exact ⟨root, by rw [List.getLast?_cons_cons]; exact hlast, hroot⟩

/-! ## What stays -/

/-- Whatever is in `before` is in `after` under the same handle. -/
def Extends (before after : Arena) : Prop := ∀ id node, before.get id = .ok node → after.get id = .ok node

theorem Extends.trans {a b c : Arena} (hab : Extends a b) (hbc : Extends b c) : Extends a c :=
  fun id node hget => hbc id node (hab id node hget)

theorem extends_of_apply {op : Op} (h : arena.apply op = .ok arena') (hop : op ≠ .clear) : Extends arena arena' := by
  rcases apply_of_result h with ⟨rfl, -⟩ | rfl | ⟨next, -, rfl⟩
  · exact absurd rfl hop
  · exact fun _ _ hget => hget
  · exact fun _ _ hget => get_push.mpr (Or.inl hget)

theorem extends_of_applyAll (ops : List Op) : ∀ {arena arena' : Arena} {issued issued' : List Nat},
    arena.applyAll issued ops = .ok (arena', issued') → .clear ∉ ops → Extends arena arena' := by
  induction ops with
  | nil =>
    intro arena arena' issued issued' h _
    cases h
    exact fun _ _ hget => hget
  | cons op rest ih =>
    intro arena arena' issued issued' h hclear
    obtain ⟨next, hnext, h⟩ := bind_eq_ok.mp h
    simp only [List.mem_cons, not_or] at hclear
    exact (extends_of_apply hnext (Ne.symm hclear.1)).trans (ih h hclear.2)

theorem Extends.chain (h : Extends arena arena') {id : Nat} : ∀ {steps},
    arena.chain id = .ok steps → arena'.chain id = .ok steps := by
  induction id using Nat.strongRecOn with
  | ind id ih =>
    intro steps hsteps
    rw [Arena.chain] at hsteps ⊢
    obtain ⟨node, hget, hsteps⟩ := bind_eq_ok.mp hsteps
    refine bind_eq_ok.mpr ⟨node, h id node hget, ?_⟩
    cases hp : node.previous with
    | none => simpa only [hp] using hsteps
    | some p =>
      simp only [hp] at hsteps ⊢
      by_cases hlt : p < id
      · simp only [if_pos hlt] at hsteps ⊢
        obtain ⟨rest, hrest, hsteps⟩ := bind_eq_ok.mp hsteps
        exact bind_eq_ok.mpr ⟨rest, ih p hlt hrest, hsteps⟩
      · simpa only [if_neg hlt] using hsteps

theorem Extends.reads (h : Extends arena arena') {steps : List (Nat × Arrival)} (hget : arena.get id = .ok node)
    (hchain : arena.chain id = .ok steps) :
    arena'.get id = arena.get id ∧ arena'.snapshot id = arena.snapshot id ∧
      arena'.previous id = arena.previous id ∧ arena'.chain id = arena.chain id := by
  have hsame : arena'.get id = arena.get id := (h id node hget).trans hget.symm
  refine ⟨hsame, ?_, ?_, (h.chain hchain).trans hchain.symm⟩
  · unfold snapshot
    rw [hsame]
  · unfold previous
    rw [hsame]

/-! ## Any operations -/

/-- After any operations, with any handles and up to no fault: each arrival comes after the one it continues, and the
handles given out since the last clear are those of the arrivals there. From each of them, following predecessors ends
after at most one step more than the handle counts, without leaving the arena; it has then met the chain of the handle,
from there down to an arrival without a predecessor. And what is read under the handle, its chain included, is read under
it after any further operations but a clear. -/
theorem chains_end_and_stay (dir : Direction) (ops : List Op) {issued : List Nat}
    (h : (empty dir).applyAll [] ops = .ok (arena, issued)) :
    (∀ id node p, arena.get id = .ok node → node.previous = some p → p < id) ∧
    (∀ id, id ∈ issued ↔ id < arena.size) ∧
    ∀ id ∈ issued,
      (∃ steps root, arena.chain id = .ok steps ∧ (∀ n, id + 1 ≤ n → arena.follow n (some id) = .ok (steps, none)) ∧
        steps.length ≤ id + 1 ∧ (steps.map (·.1)).head? = some id ∧ (steps.map (·.1)).Pairwise (· > ·) ∧
        (∀ step ∈ steps, step.1 < arena.size ∧ arena.get step.1 = .ok step.2) ∧
        steps.getLast? = some root ∧ root.2.previous = none) ∧
      ∀ more {arena' issued'}, arena.applyAll issued more = .ok (arena', issued') → .clear ∉ more →
        arena'.get id = arena.get id ∧ arena'.snapshot id = arena.snapshot id ∧
          arena'.previous id = arena.previous id ∧ arena'.chain id = arena.chain id := by
  have ordered : arena.Ordered := reach_ordered (reach_applyAll ops (.empty dir) h)
  have issues : arena.Issues issued := applyAll_issues ops (fun id => by simp [empty, size]) h
  refine ⟨ordered, issues, fun id hid => ?_⟩
  obtain ⟨node, hget⟩ : ∃ node, arena.get id = .ok node :=
    ⟨_, get_eq_ok.mpr (Array.getElem?_eq_getElem ((issues id).mp hid))⟩
  obtain ⟨rest, hchain, walk⟩ := walk_of_ordered ordered hget
  obtain ⟨root, hlast, hroot⟩ := walk.ends
  have hlength : ((id, node) :: rest).length ≤ id + 1 := walk.length_le ordered rfl
  refine ⟨⟨_, root, hchain, fun n hn => follow_of_walk walk (Nat.le_trans hlength hn) rfl, hlength, rfl,
    List.isChain_iff_pairwise.mp (walk.descends ordered), fun step hstep => ?_, hlast, hroot⟩, ?_⟩
  · have hstep := walk.get step hstep
    exact ⟨lt_size_of_get hstep, hstep⟩
  · intro more arena' issued' hmore hclear
    exact (extends_of_applyAll more hmore hclear).reads hget hchain

/-- An arena that was cleared is filled again, under handles used before. A ride cannot be re-timed, a walk can: it is
appended, and the chain of three arrivals stays what it was. -/
theorem chains_end_and_stay_refilled :
    let ops : List Op := [.access 100 (.walk 1 50 0), .transit 0 2 300 0 ⟨1, 160, 7⟩, .clear,
      .access 200 (.walk 4 60 0), .transit 0 5 500 0 ⟨4, 300, 8⟩, .derive 1 3 6 560 0 (.transfer 5 60)]
    let more : List Op := [.shift 1 400, .shift 0 250, .transfer 2 7 600 0]
    ∃ arena issued steps arena' issued', (empty .forward).applyAll [] ops = .ok (arena, issued) ∧ issued = [0, 1, 2] ∧
      arena.chain 2 = .ok steps ∧ steps.map (·.1) = [2, 1, 0] ∧ arena.follow 3 (some 2) = .ok (steps, none) ∧
      arena.applyAll issued more = .ok (arena', issued') ∧ issued' = [0, 1, 2, 3, 4] ∧
      arena'.chain 2 = arena.chain 2 := by
  intro ops more
  let both := do
    let (arena, issued) ← (empty .forward).applyAll [] ops
    let (arena', issued') ← arena.applyAll issued more
    pure ((arena, issued), arena', issued')
  have hvalues : (both.map fun r => (r.1.2, (r.1.1.chain 2).map (·.map (·.1)), r.2.2)) =
      .ok ([0, 1, 2], .ok [2, 1, 0], [0, 1, 2, 3, 4]) := by decide +kernel
  obtain ⟨⟨⟨arena, issued⟩, arena', issued'⟩, hboth⟩ := ok_of_isOk (x := both) (by decide +kernel)
  rw [hboth] at hvalues
  obtain ⟨⟨_, _⟩, hops, hboth⟩ := bind_eq_ok.mp hboth
  obtain ⟨⟨_, _⟩, hmore, hpair⟩ := bind_eq_ok.mp hboth
  cases hpair
  obtain ⟨hissued, hvalues⟩ := Prod.mk.inj (Except.ok.inj hvalues)
  obtain ⟨hhandles, hissued'⟩ : (arena.chain 2).map (·.map (·.1)) = .ok [2, 1, 0] ∧ issued' = [0, 1, 2, 3, 4] :=
    Prod.mk.inj hvalues
  have hid : 2 ∈ issued := by
    rw [show issued = [0, 1, 2] from hissued]
    decide
  obtain ⟨⟨steps, root, hchain, hfollow, -⟩, hstays⟩ := (chains_end_and_stay .forward ops hops).2.2 2 hid
  obtain ⟨-, -, -, hsame⟩ := hstays more hmore (by simp [more])
  rw [hchain] at hhandles
  exact ⟨arena, issued, steps, arena', issued', hops, hissued, hchain, Except.ok.inj hhandles,
    hfollow 3 (Nat.le_refl _), hmore, hissued', hsame⟩

end Arena

end TransitSearch
