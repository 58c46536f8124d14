/-
  TransitSearch.Proofs.ParetoSet.Journal — what a pareto set tells of an offer.

  `events` are the decisions that an offer leads to, worked out from the members and the
  comparison alone. A candidate that is kept out gives one, which names what keeps it out.
  One that is let in gives a drop for each member that it dominates, in the order of the
  members, and its own acceptance at the end.

  An offer that is answered tells its listener these and nothing else, whoever listens
  (`add_written`), and with nobody listening it is answered alike (`add_silent`).
-/

import TransitSearch.Proofs.ParetoSet.Front

namespace TransitSearch

open Pareto

namespace ParetoSet

variable {α ω : Type} {adv : Advantage α} {better : α → α → Bool}

/-- All that a listener writes when it is told of these decisions one after the other. -/
def told (tell : Listener α ω) (es : List (SetEvent α)) : List ω := es.flatMap fun e => (tell e).written

/-- The members that are dropped when `c` comes in. -/
def drops (better : α → α → Bool) (c : α) (ms : List α) : List (SetEvent α) :=
  (ms.filter (Pareto.dominates better c)).map (.dropped · c)

/-- The decisions on `c`, offered to these members. -/
def events (better : α → α → Bool) (c : α) (ms : List α) : List (SetEvent α) :=
  match Pareto.blocker better c ms with
  | some m => [.rejected c m]
  | none => drops better c ms ++ [.accepted c]

theorem told_append (tell : Listener α ω) (es es' : List (SetEvent α)) :
    told tell (es ++ es') = told tell es ++ told tell es' := List.flatMap_append

theorem told_singleton (tell : Listener α ω) (e : SetEvent α) : told tell [e] = (tell e).written :=
  List.flatMap_singleton _ _

theorem blocker_covers {c m : α} {ms : List α} (h : Pareto.blocker better c ms = some m) :
    m ∈ ms ∧ Covers better m c := by
  unfold Pareto.blocker at h
  split at h
  · rename_i decider hdecider
    by_cases hbeats : better c decider = true
    · rw [if_pos hbeats] at h
      cases h
    · rw [if_neg hbeats] at h
      cases h
      exact ⟨List.mem_of_find?_eq_some hdecider, Bool.eq_false_iff.mpr hbeats⟩
  · have hequivalent : equivalent better c m = true := List.find?_some (p := equivalent better c) h
    exact ⟨List.mem_of_find?_eq_some h, (equivalent_iff.mp hequivalent).1⟩

/-! ## What is told -/

theorem sweep_written (h : Computes adv better) {tell : Listener α ω} {c : α} {ms : List α} :
    ∀ {kept}, (sweep adv tell c ms).result = .ok kept →
      (sweep adv tell c ms).written = told tell (drops better c ms) := by
  induction ms with
  | nil =>
    intro kept _
    rfl
  | cons m rest ih =>
    intro kept hk
    simp only [sweep, Run.result_bind_eq_ok, Run.result_lift] at hk
    obtain ⟨b, hb, hk⟩ := hk
    have hb' := dominates_of_result h hb
    simp only [sweep, hb, Run.lift_ok, pure_bind]
    by_cases hdom : b = true
    · -- the member is told as dropped before the rest is swept
      simp only [hdom, if_true, Run.result_bind_eq_ok] at hk ⊢
      obtain ⟨_, htell, hk⟩ := hk
      have hfilter : drops better c (m :: rest) = .dropped m c :: drops better c rest := by
        rw [drops, List.filter_cons_of_pos (hb'.symm.trans hdom)]
        rfl
      rw [Run.written_bind_of_result htell, ih hk, hfilter]
      rfl
    · simp only [hdom, Bool.false_eq_true, if_false, Run.result_bind_eq_ok] at hk ⊢
      obtain ⟨kept', hk', -⟩ := hk
      have hfilter : drops better c (m :: rest) = drops better c rest := by
        rw [drops, List.filter_cons_of_neg (hb' ▸ hdom)]
        rfl
      rw [Run.written_bind_of_result hk', ih hk', hfilter]
      exact List.append_nil _

/-- An offer that is answered tells its listener of the decisions on it and of nothing else. -/
theorem add_written {s s' : ParetoSet α ω} (h : Computes s.advantage better) {c : α} {b : Bool}
    (ha : (s.add c).result = .ok (b, s')) : (s.add c).written = told s.listener (events better c s.members) := by
  simp only [add, Run.result_bind_eq_ok, Run.result_lift] at ha
  obtain ⟨r, hr, ha⟩ := ha
  simp only [add, events, hr, ← blocker_of_result h hr, Run.lift_ok, pure_bind]
  cases r with
  | some m =>
    obtain ⟨_, htell, -⟩ := Run.result_bind_eq_ok.mp ha
    rw [Run.written_bind_of_result htell, told_singleton]
    exact List.append_nil _
  | none =>
    simp only [Run.result_bind_eq_ok] at ha
    obtain ⟨settled, hs, fresh, hf, _, htell, -⟩ := ha
    have hdrops : drops better c s.members = drops better c s.settled ++ drops better c s.fresh := by
      simp [drops, members]
    rw [Run.written_bind_of_result hs, Run.written_bind_of_result hf, Run.written_bind_of_result htell,
      sweep_written h hs, sweep_written h hf, hdrops, told_append, told_append, told_singleton]
    simp

/-! ## Nobody listening -/

theorem image_id (s : ParetoSet α ω) : (s.image s.advantage id : ParetoSet α ω) = s.setListener silent := by
  simp [image, setListener]

theorem add_silent {s s' : ParetoSet α ω} (h : Computes s.advantage better) {c : α} {b : Bool}
    (ha : (s.add c).result = .ok (b, s')) :
    ((s.setListener silent).add c).result = .ok (b, s'.setListener silent) := by
  have hsame : ((s.image s.advantage id : ParetoSet α ω).add c).result = .ok (b, s'.image s.advantage id) :=
    add_image (fun _ _ => rfl) ha
  rw [image_id, ← (advantage_of_add h ha).1, image_id] at hsame
  exact hsame

end ParetoSet

end TransitSearch
