/-
  TransitSearch.Proofs.ParetoSet.Indexed — a pareto set as one list and an index.

  The members can also be kept in one list, and the mark as the number of those that were
  there when it was set (`Indexed`). Everything then goes by places in the list:
  - The scan stops at the first member in a one-sided relation with the candidate, and the
    first equivalent one is remembered by its place (`verdictFrom`).
  - The members are gone through once more to take out the dominated ones, from the place
    where the scan stopped. Those taken out before the mark are counted, and the mark moves
    back by that number (`retainFrom`, `moveMark`).
  - What came in since the mark is read from the mark on (`since`).
  A place outside the list, or a mark that moves back too far, is a fault.

  Nothing of this ever happens. For any comparison, also one that faults, and any listener,
  an offer to the one list does what it does to the set in its two parts: the same answer or
  the same fault, with the same entries in the same order, and the mark stands between the
  two parts again (`add_indexed`). The members before the place where the scan stopped
  are trade-offs or equivalent, so not looking at them again changes nothing.
-/

import TransitSearch.ParetoSet
import TransitSearch.Proofs.Results

namespace TransitSearch

namespace ParetoSet

structure Indexed (α ω : Type) where
  advantage : Advantage α
  listener : Listener α ω
  elements : List α
  /-- How many of the elements were there at the last mark. -/
  mark : Nat

/-- The outcome of a scan, by the place of the member that decides it. -/
inductive Verdict where
  | accept
  | acceptFrom (first : Nat)
  | rejectBy (index : Nat)

namespace Indexed

variable {α ω : Type}

/-- The scan of these members, the first of them at place `i`. `equal` is the place of the first equivalent one
before. -/
def verdictFrom (adv : Advantage α) (c : α) (equal : Option Nat) (i : Nat) : List α → Except Fault Verdict
  | [] => pure (match equal with
    | some k => .rejectBy k
    | none => .accept)
  | m :: rest => do
    let candidateBetter ← adv c m
    let memberBetter ← adv m c
    match candidateBetter, memberBetter with
    | true, true => verdictFrom adv c equal (i + 1) rest
    | true, false => pure (.acceptFrom i)
    | false, true => pure (.rejectBy i)
    | false, false => verdictFrom adv c (equal.or (some i)) (i + 1) rest

/-- Goes through these members, the first of them at place `i`, and leaves those before `first` alone. Gives the members
that stay, and how many were taken out before `mark`. -/
def retainFrom (adv : Advantage α) (tell : Listener α ω) (c : α) (first mark i : Nat) : List α → Run ω (List α × Nat)
  | [] => pure ([], 0)
  | m :: rest => do
    if i < first then
      let (kept, removed) ← retainFrom adv tell c first mark (i + 1) rest
      pure (m :: kept, removed)
    else if ← dominates adv c m then
      tell (.dropped m c)
      let (kept, removed) ← retainFrom adv tell c first mark (i + 1) rest
      pure (kept, if i < mark then removed + 1 else removed)
    else
      let (kept, removed) ← retainFrom adv tell c first mark (i + 1) rest
      pure (m :: kept, removed)

def moveMark (mark removed : Nat) : Except Fault Nat :=
  if removed ≤ mark then .ok (mark - removed) else .error .subOverflow

def at? (s : Indexed α ω) (i : Nat) : Except Fault α :=
  match s.elements[i]? with
  | some m => .ok m
  | none => .error (.outOfBounds s.elements.length i)

def accept (s : Indexed α ω) (c : α) : Run ω (Bool × Indexed α ω) := do
  s.listener (.accepted c)
  pure (true, { s with elements := s.elements ++ [c] })

def verdict (s : Indexed α ω) (c : α) : Except Fault Verdict := verdictFrom s.advantage c none 0 s.elements

def add (s : Indexed α ω) (c : α) : Run ω (Bool × Indexed α ω) := do
  match ← s.verdict c with
  | .accept => s.accept c
  | .acceptFrom first =>
    let (elements, removed) ← retainFrom s.advantage s.listener c first s.mark 0 s.elements
    let mark ← moveMark s.mark removed
    accept { s with elements, mark } c
  | .rejectBy index =>
    let m ← s.at? index
    s.listener (.rejected c m)
    pure (false, s)

def qualify (s : Indexed α ω) (c : α) : Except Fault Bool := do
  match ← s.verdict c with
  | .rejectBy _ => pure false
  | .accept | .acceptFrom _ => pure true

/-- The elements from the mark on. -/
def since (s : Indexed α ω) : Except Fault (List α) :=
  if s.mark ≤ s.elements.length then .ok (s.elements.drop s.mark)
  else .error (.outOfBounds s.elements.length s.mark)

def markEnd (s : Indexed α ω) : Indexed α ω := { s with mark := s.elements.length }

def clear (s : Indexed α ω) : Indexed α ω := { s with elements := [], mark := 0 }

def setListener (s : Indexed α ω) (listener : Listener α ω) : Indexed α ω := { s with listener }

end Indexed

open Indexed

variable {α ω : Type} {adv : Advantage α} {tell : Listener α ω} {c : α}

/-- The same set with its two parts in one list. -/
def indexed (s : ParetoSet α ω) : Indexed α ω := ⟨s.advantage, s.listener, s.members, s.mark⟩

/-! ## The scan -/

/-- The member that a verdict rejects the candidate for. -/
def Verdict.blocker (ms : List α) : Verdict → Option α
  | .accept | .acceptFrom _ => none
  | .rejectBy k => ms[k]?

/-- The scan of the places finds what the scan of the members finds, and what it finds is in its place. -/
theorem blockerFrom_eq_verdictFrom (rest : List α) : ∀ (before : List α) (equal : Option Nat),
    (∀ k ∈ equal, k < before.length) →
    blockerFrom adv c (equal.bind (before[·]?)) rest =
      Verdict.blocker (before ++ rest) <$> verdictFrom adv c equal before.length rest := by
  induction rest with
  | nil =>
    intro before equal _
    cases equal with
    | none => rfl
    | some k => simp [blockerFrom, verdictFrom, Verdict.blocker]
  | cons m rest ih =>
    intro before equal hequal
    -- the scan goes on behind `m`
    have later : ∀ equal' : Option Nat, (∀ k ∈ equal', k < before.length + 1) →
        blockerFrom adv c (equal'.bind ((before ++ [m])[·]?)) rest =
          Verdict.blocker (before ++ m :: rest) <$> verdictFrom adv c equal' (before.length + 1) rest := by
      intro equal' h
      have := ih (before ++ [m]) equal' (by simpa using h)
      simpa using this
    have hsame : equal.bind ((before ++ [m])[·]?) = equal.bind (before[·]?) := by
      cases equal with
      | none => rfl
      | some k => exact List.getElem?_append_left (hequal k rfl)
    have hequal' : ∀ k ∈ equal, k < before.length + 1 := fun k hk => Nat.lt_succ_of_lt (hequal k hk)
    simp only [blockerFrom, verdictFrom]
    cases adv c m with
    | error e => rfl
    | ok candidateBetter =>
      cases adv m c with
      | error e => rfl
      | ok memberBetter =>
        cases candidateBetter <;> cases memberBetter
        · have hfirst : (equal.or (some before.length)).bind ((before ++ [m])[·]?) =
              (equal.bind (before[·]?)).or (some m) := by
            cases equal with
            | none => simp
            | some k =>
              have hk := hequal k rfl
              simp [List.getElem?_append_left hk, List.getElem?_eq_getElem hk]
          have := later (equal.or (some before.length)) fun k hk => by
            cases equal with
            | none =>
              cases hk
              exact Nat.lt_succ_self _
            | some _ => exact hequal' k hk
          rw [hfirst] at this
          exact this
        · exact congrArg Except.ok (by simp [Verdict.blocker])
        · rfl
        · have := later equal hequal'
          rw [hsame] at this
          exact this

theorem lt_of_verdictFrom {k : Nat} (ms : List α) : ∀ {equal : Option Nat} {i : Nat}, (∀ j ∈ equal, j < i + ms.length) →
    verdictFrom adv c equal i ms = .ok (.rejectBy k) → k < i + ms.length := by
  induction ms with
  | nil =>
    intro equal i hequal h
    cases equal with
    | none => cases h
    | some j =>
      cases h
      exact hequal k rfl
  | cons m rest ih =>
    intro equal i hequal h
    have hlen : i + (m :: rest).length = i + 1 + rest.length := by
      rw [List.length_cons]
      omega
    rw [hlen] at hequal ⊢
    simp only [verdictFrom, bind_eq_ok] at h
    obtain ⟨candidateBetter, -, memberBetter, -, h⟩ := h
    cases candidateBetter <;> cases memberBetter
    · refine ih (fun j hj => ?_) h
      cases equal with
      | none =>
        cases hj
        omega
      | some _ => exact hequal j hj
    · cases pure_eq_ok.mp h
      omega
    · cases pure_eq_ok.mp h
    · exact ih hequal h

/-- Up to where a scan comes that lets the candidate in, `n` members having been there to scan. -/
def Verdict.stop (n : Nat) : Verdict → Nat
  | .accept => n
  | .acceptFrom first => first
  | .rejectBy _ => 0

/-- Of these members, the first of them at place `i`, those before `first` are not dominated: each is a trade-off, or
equivalent. -/
def PassedBy (adv : Advantage α) (c : α) (first i : Nat) : List α → Prop
  | [] => True
  | m :: rest => (i < first → dominates adv c m = .ok false) ∧ PassedBy adv c first (i + 1) rest

theorem PassedBy.all {first : Nat} {ms : List α} : ∀ {i : Nat}, PassedBy adv c first i ms → i + ms.length ≤ first →
    ∀ m ∈ ms, dominates adv c m = .ok false := by
  induction ms with
  | nil =>
    intro i _ _ m hm
    cases hm
  | cons n rest ih =>
    intro i h hlen
    rw [List.length_cons] at hlen
    exact List.forall_mem_cons.mpr ⟨h.1 (by omega), ih h.2 (by omega)⟩

theorem passedBy_of_le {first : Nat} {ms : List α} : ∀ {i : Nat}, first ≤ i → PassedBy adv c first i ms := by
  induction ms with
  | nil =>
    intro i _
    trivial
  | cons m rest ih =>
    intro i h
    exact ⟨fun hlt => absurd hlt (Nat.not_lt.mpr h), ih (Nat.le_succ_of_le h)⟩

theorem passedBy_of_verdictFrom {v : Verdict} (ms : List α) : ∀ {equal : Option Nat} {i : Nat},
    verdictFrom adv c equal i ms = .ok v → PassedBy adv c (v.stop (i + ms.length)) i ms := by
  induction ms with
  | nil =>
    intro equal i _
    trivial
  | cons m rest ih =>
    intro equal i h
    have hlen : i + (m :: rest).length = i + 1 + rest.length := by
      rw [List.length_cons]
      omega
    rw [hlen]
    simp only [verdictFrom, bind_eq_ok] at h
    obtain ⟨candidateBetter, hc, memberBetter, hb, h⟩ := h
    cases candidateBetter <;> cases memberBetter
    · exact ⟨fun _ => bind_eq_ok.mpr ⟨false, hc, rfl⟩, ih h⟩
    · cases pure_eq_ok.mp h
      exact passedBy_of_le (Nat.zero_le i)
    · cases pure_eq_ok.mp h
      exact passedBy_of_le (Nat.le_refl i)
    · exact ⟨fun _ => bind_eq_ok.mpr ⟨true, hc, map_eq_ok.mpr ⟨true, hb, rfl⟩⟩, ih h⟩

/-! ## The removal -/

theorem sweep_cons (m : α) (rest : List α) : sweep adv tell c (m :: rest) =
    (dominates adv c m : Run ω Bool) >>= fun dominated =>
      if dominated then tell (.dropped m c) >>= fun _ => sweep adv tell c rest
      else (m :: ·) <$> sweep adv tell c rest := by
  rw [sweep]
  refine bind_congr fun dominated => ?_
  rw [map_eq_pure_bind]

theorem retainFrom_cons {first mark i : Nat} {m : α} {rest : List α}
    (h : i < first → dominates adv c m = .ok false) : retainFrom adv tell c first mark i (m :: rest) =
      (dominates adv c m : Run ω Bool) >>= fun dominated =>
        if dominated then tell (.dropped m c) >>= fun _ => (fun (kept, removed) =>
          (kept, if i < mark then removed + 1 else removed)) <$> retainFrom adv tell c first mark (i + 1) rest
        else (fun (kept, removed) => (m :: kept, removed)) <$> retainFrom adv tell c first mark (i + 1) rest := by
  rw [retainFrom]
  by_cases hi : i < first
  · rw [if_pos hi, h hi, Run.lift_ok, pure_bind, if_neg Bool.false_ne_true, map_eq_pure_bind]
  · rw [if_neg hi]
    refine bind_congr fun dominated => ?_
    simp only [map_eq_pure_bind]

theorem sweep_of_undominated {ms : List α} (h : ∀ m ∈ ms, dominates adv c m = .ok false) :
    sweep adv tell c ms = pure ms := by
  induction ms with
  | nil => rfl
  | cons m rest ih =>
    obtain ⟨hm, hrest⟩ := List.forall_mem_cons.mp h
    rw [sweep_cons, hm, Run.lift_ok, pure_bind, if_neg Bool.false_ne_true, ih hrest, map_pure]

theorem length_of_sweep {ms : List α} : ∀ {kept : List α}, (sweep adv tell c ms).result = .ok kept →
    kept.length ≤ ms.length := by
  induction ms with
  | nil =>
    intro kept h
    cases h
    exact Nat.le_refl _
  | cons m rest ih =>
    intro kept h
    rw [sweep_cons] at h
    obtain ⟨dominated, -, h⟩ := Run.result_bind_eq_ok.mp h
    by_cases hdom : dominated = true
    · rw [if_pos hdom] at h
      obtain ⟨_, -, h⟩ := Run.result_bind_eq_ok.mp h
      exact Nat.le_succ_of_le (ih h)
    · rw [if_neg hdom, Run.result_map] at h
      obtain ⟨kept', hkept, rfl⟩ := map_eq_ok.mp h
      exact Nat.succ_le_succ (ih hkept)

theorem retainFrom_behind {first mark : Nat} (ms : List α) : ∀ {i : Nat}, mark ≤ i → PassedBy adv c first i ms →
    retainFrom adv tell c first mark i ms = (·, 0) <$> sweep adv tell c ms := by
  induction ms with
  | nil =>
    intro i _ _
    rfl
  | cons m rest ih =>
    intro i hi hpassed
    rw [retainFrom_cons hpassed.1, sweep_cons, map_bind, ih (Nat.le_succ_of_le hi) hpassed.2]
    refine bind_congr fun dominated => ?_
    by_cases hdom : dominated = true
    · rw [if_pos hdom, if_pos hdom, map_bind]
      refine bind_congr fun _ => ?_
      simp only [Functor.map_map, if_neg (Nat.not_lt.mpr hi)]
    · rw [if_neg hdom, if_neg hdom, Functor.map_map, Functor.map_map]

/-- Going through all the places takes out what is dominated before the mark and what is dominated after it, and counts
the former. -/
theorem retainFrom_eq {first mark : Nat} (ys xs : List α) : ∀ {i : Nat}, i + xs.length = mark →
    PassedBy adv c first i (xs ++ ys) →
    retainFrom adv tell c first mark i (xs ++ ys) = sweep adv tell c xs >>= fun kept =>
      (fun kept' => (kept ++ kept', xs.length - kept.length)) <$> sweep adv tell c ys := by
  induction xs with
  | nil =>
    intro i hi hpassed
    exact retainFrom_behind ys (Nat.le_of_eq hi.symm) hpassed
  | cons m rest ih =>
    intro i hi hpassed
    rw [List.length_cons] at hi
    rw [List.cons_append, retainFrom_cons hpassed.1, sweep_cons, bind_assoc, ih (by omega) hpassed.2]
    refine bind_congr fun dominated => ?_
    by_cases hdom : dominated = true
    · rw [if_pos hdom, if_pos hdom, bind_assoc]
      refine bind_congr fun _ => ?_
      rw [map_bind]
      refine Run.bind_congr_of_result fun kept hkept => ?_
      have hlen := length_of_sweep hkept
      have hcount : rest.length - kept.length + 1 = (m :: rest).length - kept.length := by
        rw [List.length_cons]
        omega
      simp only [Functor.map_map, if_pos (show i < mark by omega), hcount]
    · rw [if_neg hdom, if_neg hdom, map_bind, bind_map_left]
      refine bind_congr fun kept => ?_
      rw [Functor.map_map]
      simp

/-! ## The offer -/

theorem moveMark_sub {mark kept : Nat} (h : kept ≤ mark) : moveMark mark (mark - kept) = .ok kept := by
  rw [moveMark, if_pos (Nat.sub_le mark kept), Nat.sub_sub_self h]

theorem blocker_eq_verdict (s : ParetoSet α ω) (c : α) :
    s.blocker c = Verdict.blocker s.members <$> s.indexed.verdict c :=
  blockerFrom_eq_verdictFrom s.members [] none nofun

theorem lt_of_verdict {s : ParetoSet α ω} {k : Nat} (h : s.indexed.verdict c = .ok (.rejectBy k)) :
    k < s.members.length := by
  have := lt_of_verdictFrom s.members (by simp) h
  rwa [Nat.zero_add] at this

theorem indexed_append (s : ParetoSet α ω) (settled fresh : List α) :
    ({ s with settled, fresh := fresh ++ [c] } : ParetoSet α ω).indexed =
      { s.indexed with elements := settled ++ fresh ++ [c], mark := settled.length } := by
  simp [indexed, members, ParetoSet.mark]

/-- Any offer to the one list is an offer to the two parts: answer, fault, entries and what it leaves are the same. -/
theorem add_indexed (s : ParetoSet α ω) (c : α) :
    s.indexed.add c = (fun (b, t) => (b, t.indexed)) <$> s.add c := by
  rw [add, Indexed.add, blocker_eq_verdict]
  cases hv : s.indexed.verdict c with
  | error e => rfl
  | ok v =>
    have hpassed : PassedBy s.advantage c (v.stop s.members.length) 0 s.members := by
      have := passedBy_of_verdictFrom s.members hv
      rwa [Nat.zero_add] at this
    have hblocker : (Verdict.blocker s.members <$> (Except.ok v : Except Fault Verdict)) =
      .ok (v.blocker s.members) := rfl
    rw [hblocker, Run.lift_ok, Run.lift_ok, pure_bind, pure_bind]
    cases v with
    | accept =>
      -- all members were scanned, so none of them goes
      have hall := hpassed.all (Nat.le_of_eq (Nat.zero_add _))
      obtain ⟨hsettled, hfresh⟩ := List.forall_mem_append.mp hall
      simp only [Verdict.blocker, sweep_of_undominated hsettled, sweep_of_undominated hfresh, pure_bind, map_bind,
        map_pure, indexed_append]
      rfl
    | acceptFrom first =>
      have hretain : retainFrom s.indexed.advantage s.indexed.listener c first s.indexed.mark 0 s.indexed.elements =
          sweep s.advantage s.listener c s.settled >>= fun kept => (fun kept' =>
            (kept ++ kept', s.settled.length - kept.length)) <$> sweep s.advantage s.listener c s.fresh :=
        retainFrom_eq s.fresh s.settled (Nat.zero_add _) hpassed
      simp only [Verdict.blocker, hretain, bind_assoc, bind_map_left, map_bind, map_pure, indexed_append]
      refine Run.bind_congr_of_result fun settled hsettled => bind_congr fun fresh => ?_
      have hmark : moveMark s.indexed.mark (s.settled.length - settled.length) = .ok settled.length :=
        moveMark_sub (length_of_sweep hsettled)
      rw [hmark]
      rfl
    | rejectBy k =>
      have hk := lt_of_verdict hv
      have hat : s.indexed.at? k = .ok s.members[k] := by
        rw [at?, indexed, List.getElem?_eq_getElem hk]
      simp only [Verdict.blocker, List.getElem?_eq_getElem hk, hat, Run.lift_ok, pure_bind, map_bind, map_pure]
      rfl

theorem qualify_indexed (s : ParetoSet α ω) (c : α) : s.indexed.qualify c = s.qualify c := by
  rw [qualify, Indexed.qualify, blocker_eq_verdict]
  cases hv : s.indexed.verdict c with
  | error e => rfl
  | ok v =>
    cases v with
    | accept => rfl
    | acceptFrom first => rfl
    | rejectBy k =>
      have hk := lt_of_verdict hv
      exact congrArg Except.ok (by simp [Verdict.blocker, List.getElem?_eq_getElem hk])

/-! ## The other operations -/

theorem since_indexed (s : ParetoSet α ω) : s.indexed.since = .ok s.addedSinceMark := by
  have hmark : s.indexed.mark ≤ s.indexed.elements.length := by
    simp [indexed, members, mark]
  have hdrop : s.indexed.elements.drop s.indexed.mark = s.addedSinceMark := List.drop_left
  rw [since, if_pos hmark, hdrop]

@[simp] theorem markEnd_indexed (s : ParetoSet α ω) : s.indexed.markEnd = s.markEnd.indexed := by
  simp [Indexed.markEnd, indexed, ParetoSet.markEnd, mark, members]

@[simp] theorem clear_indexed (s : ParetoSet α ω) : s.indexed.clear = s.clear.indexed := rfl

@[simp] theorem setListener_indexed (s : ParetoSet α ω) (l : Listener α ω) :
    s.indexed.setListener l = (s.setListener l).indexed := rfl

end ParetoSet

end TransitSearch
