/-
  TransitSearch.Proofs.Search.Acts — what a search does with its collector.

  Each call comes down to at most one act of the collector, with the arena of the moment
  (`step_acts`). So what holds of a collector under any acts holds of it in any search:
  its setup stays, and its iteration is the last one set up (`step_isFor`, `run_isFor`).

  A run is taken apart at its first call (`run_cons_eq_ok`). A run over two lists of calls is
  the run over the first and then over the second (`run_append`); a run that ends without a
  fault has ended every beginning of it so.
-/

import TransitSearch.Proofs.Collector.Run
import TransitSearch.Search

namespace TransitSearch

namespace Search

open Collector

variable {s s' : Search}

def acts (s : Search) : Call → List Act
  | .add now id egress => [.add now s.arena id egress]
  | .qualify departure arrival transfers cost => [.qualify departure arrival transfers cost]
  | .reject id egress reason => [.reject s.arena id egress reason]
  | .setIteration departure | .setupIteration departure => [.hear (.iterationStart departure)]
  | .nextRound => [.hear (.roundStart (s.cycle.round + 1))]
  | .roundComplete destinationReached => [.hear (.roundEnd destinationReached)]
  | .iterationComplete => [.hear .iterationEnd]
  | _ => []

/-- The departure of the last iteration set up, `iteration` being the one before. -/
def Call.iterationAfter (iteration : Option Int) : Call → Option Int
  | .setIteration departure | .setupIteration departure => some departure
  | _ => iteration

theorem appended_of_result {x : Except Fault (Arena × Nat)} {reply : Reply}
    (h : (s.appended x).result = .ok (reply, s')) : ∃ arena, s' = { s with arena } := by
  obtain ⟨⟨arena, _⟩, -, h⟩ := Run.result_bind_eq_ok.mp h
  cases h
  exact ⟨arena, rfl⟩

theorem announced_of_result {x : Run LogEvent (LifeCycle × Boundary)} {reply : Reply}
    (h : (s.announced x).result = .ok (reply, s')) :
    ∃ cycle boundary, x.result = .ok (cycle, boundary) ∧
      s' = { s with cycle, collector := s.collector.hear boundary } := by
  obtain ⟨⟨cycle, boundary⟩, hx, h⟩ := Run.result_bind_eq_ok.mp h
  cases h
  exact ⟨cycle, boundary, hx, rfl⟩

theorem step_acts {call : Call} {reply : Reply} (h : (s.step call).result = .ok (reply, s')) :
    (s.collector.run (s.acts call)).result = .ok s'.collector := by
  cases call with
  | access | transit | transfer | derive =>
    obtain ⟨_, rfl⟩ := appended_of_result h
    rfl
  | shift =>
    obtain ⟨⟨outcome, arena⟩, -, h⟩ := Run.result_bind_eq_ok.mp h
    cases outcome <;> cases h <;> rfl
  | clear =>
    cases h
    rfl
  | add =>
    obtain ⟨collector, hc, h⟩ := Run.result_bind_eq_ok.mp h
    cases h
    exact Run.result_bind_eq_ok.mpr ⟨collector, hc, rfl⟩
  | qualify =>
    obtain ⟨b, hb, h⟩ := Run.result_bind_eq_ok.mp h
    cases h
    exact Run.result_bind_eq_ok.mpr ⟨_, Run.result_bind_eq_ok.mpr ⟨b, hb, rfl⟩, rfl⟩
  | reject =>
    obtain ⟨_, hr, h⟩ := Run.result_bind_eq_ok.mp h
    cases h
    exact Run.result_bind_eq_ok.mpr ⟨_, Run.result_bind_eq_ok.mpr ⟨(), hr, rfl⟩, rfl⟩
  | setIteration =>
    cases h
    rfl
  | setupIteration | roundComplete | iterationComplete =>
    obtain ⟨_, _, hx, rfl⟩ := announced_of_result h
    cases hx
    rfl
  | nextRound =>
    obtain ⟨_, _, hx, rfl⟩ := announced_of_result h
    obtain ⟨round, hr, hx⟩ := Run.result_bind_eq_ok.mp hx
    cases hx
    rw [(Checked.addCount_ok_iff.mp hr).2]
    rfl

theorem step_isFor {setup : Setup} {call : Call} {reply : Reply} (hs : IsFor setup s.collector)
    (h : (s.step call).result = .ok (reply, s')) :
    IsFor setup s'.collector ∧ s'.collector.iteration = call.iterationAfter s.collector.iteration := by
  obtain ⟨hfor, hi⟩ := run_isFor hs (step_acts h)
  refine ⟨hfor, hi.trans ?_⟩
  cases call <;> rfl

/-! ## Any calls -/

theorem run_cons_eq_ok {call : Call} {rest : List Call} {replies : List Reply} :
    (s.run (call :: rest)).result = .ok (replies, s') ↔ ∃ reply t later,
      (s.step call).result = .ok (reply, t) ∧ (t.run rest).result = .ok (later, s') ∧ replies = reply :: later := by
  constructor
  · intro h
    obtain ⟨⟨reply, t⟩, ht, h⟩ := Run.result_bind_eq_ok.mp h
    obtain ⟨⟨later, u⟩, hu, h⟩ := Run.result_bind_eq_ok.mp h
    cases h
    exact ⟨reply, t, later, ht, hu, rfl⟩
  · rintro ⟨reply, t, later, ht, hu, rfl⟩
    exact Run.result_bind_eq_ok.mpr ⟨(reply, t), ht, Run.result_bind_eq_ok.mpr ⟨(later, s'), hu, rfl⟩⟩

theorem run_isFor {setup : Setup} {calls : List Call} : ∀ {s s' : Search} {replies : List Reply},
    IsFor setup s.collector → (s.run calls).result = .ok (replies, s') → IsFor setup s'.collector := by
  induction calls with
  | nil =>
    intro s s' replies hs h
    cases h
    exact hs
  | cons call rest ih =>
    intro s s' replies hs h
    obtain ⟨reply, t, later, ht, hu, -⟩ := run_cons_eq_ok.mp h
    exact ih (step_isFor hs ht).1 hu

theorem run_append (pre post : List Call) : ∀ s : Search, s.run (pre ++ post) = (do
    let (replies, s) ← s.run pre
    let (replies', s) ← s.run post
    pure (replies ++ replies', s)) := by
  induction pre with
  | nil => intro s; simp [run]
  | cons call rest ih => intro s; simp [run, ih]

theorem run_append_of_result {pre post : List Call} {replies : List Reply}
    (h : (s.run (pre ++ post)).result = .ok (replies, s')) :
    ∃ first u rest, (s.run pre).result = .ok (first, u) ∧ (u.run post).result = .ok (rest, s') ∧
      replies = first ++ rest := by
  rw [run_append] at h
  obtain ⟨⟨first, u⟩, hu, h⟩ := Run.result_bind_eq_ok.mp h
  obtain ⟨⟨rest, v⟩, hv, h⟩ := Run.result_bind_eq_ok.mp h
  cases h
  exact ⟨first, u, rest, hu, hv, rfl⟩

end Search

end TransitSearch
