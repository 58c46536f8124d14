/-
  TransitSearch.Proofs.ParetoSet.Operations — a pareto set as it is used, one operation after the other.

  A set is used by operations (`Op`), and each has an outcome that its caller sees. The
  outcomes of a run stand in the order of its operations, and a beginning of a run is a run
  (`performAll_take`). An operation keeps the comparison, and the listener unless it is the
  operation that sets it (`frame_of_perform`). It is answered while the comparisons are and
  the listener is not stopped (`performAll_answers`).

  The set that is kept as one list with an index goes through any operations in lockstep
  with the one in two parts, its faults included (`performAll_indexed`).
-/

import TransitSearch.Proofs.ParetoSet.Front
import TransitSearch.Proofs.ParetoSet.Indexed

namespace TransitSearch

namespace ParetoSet

inductive Op (α ω : Type) where
  | add (c : α)
  | qualify (c : α)
  | clear
  | setListener (listener : Listener α ω)
  | markEnd
  /-- Reads what came in since the mark. -/
  | read

inductive Outcome (α : Type) where
  | letIn (c : α)
  | keptOut (c : α)
  | asked (b : Bool)
  | cleared
  | listenerSet
  | marked
  | read (xs : List α)
  deriving DecidableEq, Repr

variable {α ω : Type}

def perform (s : ParetoSet α ω) : Op α ω → Run ω (Outcome α × ParetoSet α ω)
  | .add c => do
    let (b, s) ← s.add c
    pure (if b then .letIn c else .keptOut c, s)
  | .qualify c => do
    let b ← s.qualify c
    pure (.asked b, s)
  | .clear => pure (.cleared, s.clear)
  | .setListener listener => pure (.listenerSet, s.setListener listener)
  | .markEnd => pure (.marked, s.markEnd)
  | .read => pure (.read s.addedSinceMark, s)

/-- Carries out the operations. Gives their outcomes too. -/
def performAll (s : ParetoSet α ω) : List (Op α ω) → Run ω (List (Outcome α) × ParetoSet α ω)
  | [] => pure ([], s)
  | op :: rest => do
    let (o, s) ← s.perform op
    let (os, s) ← s.performAll rest
    pure (o :: os, s)

def Indexed.perform (s : Indexed α ω) : Op α ω → Run ω (Outcome α × Indexed α ω)
  | .add c => do
    let (b, s) ← s.add c
    pure (if b then .letIn c else .keptOut c, s)
  | .qualify c => do
    let b ← s.qualify c
    pure (.asked b, s)
  | .clear => pure (.cleared, s.clear)
  | .setListener listener => pure (.listenerSet, s.setListener listener)
  | .markEnd => pure (.marked, s.markEnd)
  | .read => do
    let xs ← s.since
    pure (.read xs, s)

def Indexed.performAll (s : Indexed α ω) : List (Op α ω) → Run ω (List (Outcome α) × Indexed α ω)
  | [] => pure ([], s)
  | op :: rest => do
    let (o, s) ← s.perform op
    let (os, s) ← s.performAll rest
    pure (o :: os, s)

variable {better : α → α → Bool} {s s' : ParetoSet α ω}

/-! ## One operation -/

theorem perform_add_eq_ok {c : α} {o : Outcome α} :
    (s.perform (.add c)).result = .ok (o, s') ↔
      ∃ b, (s.add c).result = .ok (b, s') ∧ o = if b then .letIn c else .keptOut c := by
  constructor
  · intro ho
    obtain ⟨⟨b, t⟩, ha, ho⟩ := Run.result_bind_eq_ok.mp ho
    cases ho
    exact ⟨b, ha, rfl⟩
  · rintro ⟨b, ha, rfl⟩
    exact Run.result_bind_eq_ok.mpr ⟨(b, s'), ha, rfl⟩

theorem perform_qualify_eq_ok {c : α} {o : Outcome α} :
    (s.perform (.qualify c)).result = .ok (o, s') ↔ ∃ b, s.qualify c = .ok b ∧ o = .asked b ∧ s' = s := by
  constructor
  · intro ho
    obtain ⟨b, hb, ho⟩ := Run.result_bind_eq_ok.mp ho
    cases ho
    exact ⟨b, hb, rfl, rfl⟩
  · rintro ⟨b, hb, rfl, rfl⟩
    exact Run.result_bind_eq_ok.mpr ⟨b, hb, rfl⟩

def Op.listenerAfter (listener : Listener α ω) : Op α ω → Listener α ω
  | .setListener listener' => listener'
  | .add _ | .qualify _ | .clear | .markEnd | .read => listener

theorem frame_of_perform (h : Computes s.advantage better) {op : Op α ω} {o : Outcome α}
    (ho : (s.perform op).result = .ok (o, s')) :
    s'.advantage = s.advantage ∧ s'.listener = op.listenerAfter s.listener := by
  cases op with
  | add c =>
    obtain ⟨b, ha, -⟩ := perform_add_eq_ok.mp ho
    exact advantage_of_add h ha
  | qualify c =>
    obtain ⟨b, -, -, rfl⟩ := perform_qualify_eq_ok.mp ho
    exact ⟨rfl, rfl⟩
  | clear | setListener | markEnd | read =>
    cases ho
    exact ⟨rfl, rfl⟩

theorem perform_answers (hans : ∀ a b, ∃ v, s.advantage a b = .ok v) (hl : ∀ e, (s.listener e).result = .ok ())
    (op : Op α ω) : ∃ r, (s.perform op).result = .ok r := by
  cases op with
  | add c =>
    obtain ⟨⟨b, t⟩, hb⟩ := add_answers (c := c) (fun e _ => hl e) fun m _ => ⟨hans c m, hans m c⟩
    exact ⟨_, perform_add_eq_ok.mpr ⟨b, hb, rfl⟩⟩
  | qualify c =>
    obtain ⟨r, hr⟩ := blockerFrom_answers (fun m (_ : m ∈ s.members) => ⟨hans c m, hans m c⟩) none
    exact ⟨_, perform_qualify_eq_ok.mpr ⟨r.isNone, map_eq_ok.mpr ⟨r, hr, rfl⟩, rfl, rfl⟩⟩
  | clear | setListener | markEnd | read => exact ⟨_, rfl⟩

/-! ## Runs -/

theorem performAll_cons_eq_ok {op : Op α ω} {rest : List (Op α ω)} {os : List (Outcome α)} :
    (s.performAll (op :: rest)).result = .ok (os, s') ↔ ∃ o t os', (s.perform op).result = .ok (o, t) ∧
      (t.performAll rest).result = .ok (os', s') ∧ os = o :: os' := by
  constructor
  · intro ha
    obtain ⟨⟨o, t⟩, ho, ha⟩ := Run.result_bind_eq_ok.mp ha
    obtain ⟨⟨os', u⟩, hrest, ha⟩ := Run.result_bind_eq_ok.mp ha
    cases ha
    exact ⟨o, t, os', ho, hrest, rfl⟩
  · rintro ⟨o, t, os', ho, hrest, rfl⟩
    exact Run.result_bind_eq_ok.mpr ⟨(o, t), ho, Run.result_bind_eq_ok.mpr ⟨(os', s'), hrest, rfl⟩⟩

theorem written_of_cons {t : ParetoSet α ω} {op : Op α ω} {rest : List (Op α ω)} {o : Outcome α}
    (ho : (s.perform op).result = .ok (o, t)) :
    (s.performAll (op :: rest)).written = (s.perform op).written ++ (t.performAll rest).written := by
  rw [performAll, Run.written_bind_of_result ho]
  exact congrArg _ (Run.written_bind_pure (t.performAll rest) fun (os, u) => (o :: os, u))

theorem performAll_take (n : Nat) : ∀ {ops : List (Op α ω)} {s : ParetoSet α ω} {os : List (Outcome α)},
    (s.performAll ops).result = .ok (os, s') → ∃ t, (s.performAll (ops.take n)).result = .ok (os.take n, t) ∧
      (t.performAll (ops.drop n)).result = .ok (os.drop n, s') := by
  induction n with
  | zero =>
    intro ops s os ha
    exact ⟨s, rfl, ha⟩
  | succ n ih =>
    intro ops s os ha
    cases ops with
    | nil =>
      cases ha
      exact ⟨s', rfl, rfl⟩
    | cons op rest =>
      obtain ⟨o, t, os', ho, hrest, rfl⟩ := performAll_cons_eq_ok.mp ha
      obtain ⟨u, hfirst, hlast⟩ := ih hrest
      exact ⟨u, performAll_cons_eq_ok.mpr ⟨o, t, _, ho, hfirst, rfl⟩, hlast⟩

/-- Each outcome of a run that is answered is that of one operation, on the set that the operations before it leave. -/
theorem performAll_step (n : Nat) : ∀ {ops : List (Op α ω)} {s : ParetoSet α ω} {os : List (Outcome α)} {o : Outcome α},
    (s.performAll ops).result = .ok (os, s') → os[n]? = some o → ∃ op t u, ops[n]? = some op ∧
      (s.performAll (ops.take n)).result = .ok (os.take n, t) ∧ (t.perform op).result = .ok (o, u) ∧
      (s.performAll (ops.take (n + 1))).result = .ok (os.take (n + 1), u) := by
  induction n with
  | zero =>
    intro ops s os o ha ho
    cases ops with
    | nil =>
      cases ha
      cases ho
    | cons op rest =>
      obtain ⟨o, t, os', hop, -, rfl⟩ := performAll_cons_eq_ok.mp ha
      cases ho
      exact ⟨op, s, t, rfl, rfl, hop, performAll_cons_eq_ok.mpr ⟨o, t, [], hop, rfl, rfl⟩⟩
  | succ n ih =>
    intro ops s os o ha ho
    cases ops with
    | nil =>
      cases ha
      cases ho
    | cons op rest =>
      obtain ⟨o', t, os', hop, hrest, rfl⟩ := performAll_cons_eq_ok.mp ha
      -- the step is one of the rest, to which the first operation is put back
      obtain ⟨op', u, v, hget, hbefore, hstep, hafter⟩ := ih hrest ho
      exact ⟨op', u, v, hget, performAll_cons_eq_ok.mpr ⟨o', t, _, hop, hbefore, rfl⟩, hstep,
        performAll_cons_eq_ok.mpr ⟨o', t, _, hop, hafter, rfl⟩⟩

theorem length_of_performAll (ops : List (Op α ω)) : ∀ {s : ParetoSet α ω} {os : List (Outcome α)},
    (s.performAll ops).result = .ok (os, s') → os.length = ops.length := by
  induction ops with
  | nil =>
    intro s os ha
    cases ha
    rfl
  | cons op rest ih =>
    intro s os ha
    obtain ⟨o, t, os', -, hrest, rfl⟩ := performAll_cons_eq_ok.mp ha
    rw [List.length_cons, List.length_cons, ih hrest]

theorem advantage_of_performAll (ops : List (Op α ω)) : ∀ {s : ParetoSet α ω} {os : List (Outcome α)},
    Computes s.advantage better → (s.performAll ops).result = .ok (os, s') → s'.advantage = s.advantage := by
  induction ops with
  | nil =>
    intro s os _ ha
    cases ha
    rfl
  | cons op rest ih =>
    intro s os h ha
    obtain ⟨o, t, os', ho, hrest, rfl⟩ := performAll_cons_eq_ok.mp ha
    have hadv := (frame_of_perform h ho).1
    rw [ih (by rwa [hadv]) hrest, hadv]

theorem written_of_append {ops ops' : List (Op α ω)} : ∀ {s t : ParetoSet α ω} {os : List (Outcome α)},
    (s.performAll ops).result = .ok (os, t) →
    (s.performAll (ops ++ ops')).written = (s.performAll ops).written ++ (t.performAll ops').written := by
  induction ops with
  | nil =>
    intro s t os ha
    cases ha
    rfl
  | cons op rest ih =>
    intro s t os ha
    obtain ⟨o, u, os', ho, hrest, rfl⟩ := performAll_cons_eq_ok.mp ha
    rw [List.cons_append, written_of_cons ho, written_of_cons ho, ih hrest, List.append_assoc]

theorem performAll_answers (ops : List (Op α ω)) : ∀ {s : ParetoSet α ω}, Computes s.advantage better →
    (∀ a b, ∃ v, s.advantage a b = .ok v) → (∀ e, (s.listener e).result = .ok ()) →
    (∀ listener, .setListener listener ∈ ops → ∀ e, (listener e).result = .ok ()) →
    ∃ r, (s.performAll ops).result = .ok r := by
  induction ops with
  | nil =>
    intro s _ _ _ _
    exact ⟨_, rfl⟩
  | cons op rest ih =>
    intro s h hans hl hset
    obtain ⟨⟨o, t⟩, ho⟩ := perform_answers hans hl op
    obtain ⟨hadv, hlis⟩ := frame_of_perform h ho
    -- whoever listens from here on was there before or has just been set
    have hl' : ∀ e, (t.listener e).result = .ok () := by
      rw [hlis]
      cases op with
      | setListener listener => exact hset listener List.mem_cons_self
      | add | qualify | clear | markEnd | read => exact hl
    obtain ⟨⟨os, u⟩, hrest⟩ := ih (s := t) (by rwa [hadv]) (by rwa [hadv]) hl' fun listener hmem =>
      hset listener (List.mem_cons_of_mem _ hmem)
    exact ⟨_, performAll_cons_eq_ok.mpr ⟨o, t, os, ho, hrest, rfl⟩⟩

/-! ## In one list -/

theorem perform_indexed (s : ParetoSet α ω) (op : Op α ω) :
    s.indexed.perform op = (fun (o, t) => (o, t.indexed)) <$> s.perform op := by
  cases op with
  | add c =>
    simp only [perform, Indexed.perform, add_indexed, bind_map_left, map_bind, map_pure]
  | qualify c =>
    simp only [perform, Indexed.perform, qualify_indexed, map_bind, map_pure]
  | read =>
    simp only [perform, Indexed.perform, since_indexed, Run.lift_ok, pure_bind, map_pure]
  | clear | setListener | markEnd =>
    simp only [perform, Indexed.perform, clear_indexed, setListener_indexed, markEnd_indexed, map_pure]

/-- Kept in one list the set answers and faults as it does in its two parts, and tells its listener the same. -/
theorem performAll_indexed (ops : List (Op α ω)) : ∀ s : ParetoSet α ω,
    s.indexed.performAll ops = (fun (os, t) => (os, t.indexed)) <$> s.performAll ops := by
  induction ops with
  | nil =>
    intro s
    rfl
  | cons op rest ih =>
    intro s
    simp only [performAll, Indexed.performAll, perform_indexed, ih, bind_map_left, map_bind, map_pure]

end ParetoSet

end TransitSearch
