/-
  TransitSearch.Proofs.Search.Rounds — what was reached in the current round.

  A collector takes arrivals of any arena, so here each call brings the arena that it works
  on (`drive`). Calls are numbered; `Accepts` says that the call of a number let a journey
  in, and `ThisRound` that no round was begun after it.

  The flag of the collector is set when a journey is let in and taken back at the start of a
  round, while the journeys listed come and go. The two are tied by a diary, the journeys
  listed with the numbers of the calls that let them in (`Diary`). A call either lets one
  journey in, which goes to the end and takes out those it dominates, or leaves the list as
  it is (`step_cases`). So what leaves the list leaves it for a journey let in later, and
  the flag is set exactly while the diary has an entry of this round (`drive_marks_round`).
-/

import Mathlib.Data.List.DropRight
import Mathlib.Data.List.Induction
import TransitSearch.Proofs.Collector.Qualify
import TransitSearch.Proofs.Search.Acts

namespace TransitSearch

open Pareto

namespace Collector

/-- The offer of the arrival `id` with `egress` brings `j`, and the set takes it. -/
def LetsIn (c : Collector) (arena : Arena) (id : Nat) (egress : Leg) (j : Journey) (c' : Collector) : Prop :=
  ∃ d, c.setup.terms.destination? arena id egress = .ok (some d) ∧
    c.setup.terms.calculator.exceedsLimit d.arrival = false ∧ c.setup.map arena d c.iteration = .ok j ∧
    (c.journeys.add j).result = .ok (true, c'.journeys)

variable {setup : Setup} {c c' : Collector} {arena : Arena} {now id : Nat} {egress : Leg}

theorem LetsIn.unique {j j' : Journey} {c'' : Collector} (h : c.LetsIn arena id egress j c')
    (h' : c.LetsIn arena id egress j' c'') : j = j' := by
  obtain ⟨d, hd, -, hj, -⟩ := h
  obtain ⟨d', hd', -, hj', -⟩ := h'
  cases hd.symm.trans hd'
  cases hj.symm.trans hj'
  rfl

theorem add_cases (hc : IsFor setup c) (h : (c.add now arena id egress).result = .ok c') :
    (∃ j, c.LetsIn arena id egress j c' ∧ c'.list = undominated setup.order.better j c.list ++ [j] ∧
      c'.reachedThisRound = true) ∨
    (c'.list = c.list ∧ c'.reachedThisRound = c.reachedThisRound ∧ ∀ j, ¬ c.LetsIn arena id egress j c') := by
  rcases add_of_result h with ⟨hd, rfl⟩ | ⟨d, hd, hlimit, rfl⟩ | ⟨d, j, kept, journeys, _, hd, hlimit, hj, hk, -, hc'⟩
  · refine Or.inr ⟨rfl, rfl, fun j ⟨d, hd', _⟩ => ?_⟩
    cases hd.symm.trans hd'
  · refine Or.inr ⟨rfl, rfl, fun j ⟨d', hd', hlimit', _⟩ => ?_⟩
    cases hd.symm.trans hd'
    cases hlimit.symm.trans hlimit'
  · subst hc'
    rcases ParetoSet.add_of_result hc.computes hk with ⟨-, rfl, rfl⟩ | ⟨-, rfl, rfl⟩
    · refine Or.inr ⟨rfl, Bool.or_false _, fun j' ⟨d', hd', _, hj', hk'⟩ => ?_⟩
      cases hd.symm.trans hd'
      cases hj.symm.trans hj'
      cases hk.symm.trans hk'
    · exact Or.inl ⟨j, ⟨d, hd, hlimit, hj, hk⟩, ParetoSet.accepting_members _ _, Bool.or_true _⟩

end Collector

namespace Search

open Collector

variable {s s' s₀ : Search} {setup : Setup} {reply : Reply}

/-! ## Calls on arenas of their own -/

/-- Carries out the calls, each of them on the arena that comes with it. -/
def drive (s : Search) (calls : List (Arena × Call)) : Run Notice Search :=
  calls.foldlM (fun s (arena, call) => (·.2) <$> { s with arena }.step call) s

theorem drive_snoc {calls : List (Arena × Call)} {x : Arena × Call} :
    (s.drive (calls ++ [x])).result = .ok s' ↔ ∃ t reply, (s.drive calls).result = .ok t ∧
      ({ t with arena := x.1 }.step x.2).result = .ok (reply, s') := by
  unfold drive
  rw [List.foldlM_append, Run.result_bind_eq_ok]
  simp only [List.foldlM_cons, List.foldlM_nil, bind_pure, Run.result_map, map_eq_ok]
  constructor
  · rintro ⟨t, ht, ⟨reply, s''⟩, hstep, rfl⟩
    exact ⟨t, reply, ht, hstep⟩
  · rintro ⟨t, reply, ht, hstep⟩
    exact ⟨t, ht, ⟨reply, s'⟩, hstep, rfl⟩

/-- The call, made in `s` and leaving `s'`, lets `j` in. -/
def Admits (s : Search) (x : Arena × Call) (s' : Search) (j : Journey) : Prop :=
  ∃ now id egress, x.2 = .add now id egress ∧ s.collector.LetsIn x.1 id egress j s'.collector

/-- Call number `k` lets `j` in. -/
def Accepts (s₀ : Search) (calls : List (Arena × Call)) (k : Nat) (j : Journey) : Prop :=
  ∃ x u v, calls[k]? = some x ∧ (s₀.drive (calls.take k)).result = .ok u ∧
    (s₀.drive (calls.take (k + 1))).result = .ok v ∧ Admits u x v j

/-- No round was begun by call number `k` or any later one. -/
def ThisRound (calls : List (Arena × Call)) (k : Nat) : Prop := ∀ x ∈ calls.drop k, x.2 ≠ .nextRound

theorem Accepts.lt_length {calls : List (Arena × Call)} {k : Nat} {j : Journey} (h : Accepts s₀ calls k j) :
    k < calls.length := by
  obtain ⟨x, -, -, hx, -⟩ := h
  exact (List.getElem?_eq_some_iff.mp hx).1

theorem accepts_snoc {calls : List (Arena × Call)} {x : Arena × Call} {t : Search}
    (ht : (s₀.drive calls).result = .ok t) (hs : (s₀.drive (calls ++ [x])).result = .ok s) {k : Nat} {j : Journey} :
    Accepts s₀ (calls ++ [x]) k j ↔ Accepts s₀ calls k j ∨ k = calls.length ∧ Admits t x s j := by
  rcases Nat.lt_trichotomy k calls.length with hk | rfl | hk
  · have hne : k ≠ calls.length := Nat.ne_of_lt hk
    simp only [Accepts, List.getElem?_append_left hk, List.take_append_of_le_length (Nat.le_of_lt hk),
      List.take_append_of_le_length (Nat.succ_le_of_lt hk), hne, false_and, or_false]
  · have hlast : (calls ++ [x]).take (calls.length + 1) = calls ++ [x] := List.take_of_length_le (by simp)
    have hold : ¬ Accepts s₀ calls calls.length j := fun h => Nat.lt_irrefl _ h.lt_length
    simp only [Accepts, List.getElem?_concat_length, List.take_left, hlast] at hold ⊢
    constructor
    · rintro ⟨y, u, v, hy, hu, hv, hadmits⟩
      cases hy
      cases hu.symm.trans ht
      cases hv.symm.trans hs
      exact Or.inr ⟨trivial, hadmits⟩
    · rintro (h | ⟨-, hadmits⟩)
      · exact absurd h hold
      · exact ⟨x, t, s, rfl, ht, hs, hadmits⟩
  · constructor
    · intro h
      have := h.lt_length
      simp at this
      omega
    · rintro (h | ⟨rfl, -⟩)
      · exact absurd h.lt_length (by omega)
      · omega

theorem thisRound_snoc {calls : List (Arena × Call)} {x : Arena × Call} {k : Nat} (hk : k ≤ calls.length) :
    ThisRound (calls ++ [x]) k ↔ ThisRound calls k ∧ x.2 ≠ .nextRound := by
  simp only [ThisRound, List.drop_append_of_le_length hk, List.mem_append, List.mem_singleton, or_imp, forall_and,
    forall_eq]

theorem ThisRound.later {calls : List (Arena × Call)} {k k' : Nat} (h : ThisRound calls k) (hk : k ≤ k') :
    ThisRound calls k' := fun x hx => h x ((List.drop_sublist_drop_left calls hk).mem hx)

/-! ## One call -/

theorem step_of_no_offer {call : Call} (h : (s.step call).result = .ok (reply, s'))
    (hadd : ∀ now id egress, call ≠ .add now id egress) :
    s'.collector.list = s.collector.list ∧ (call = .nextRound → s'.collector.reachedThisRound = false) ∧
      (call ≠ .nextRound → s'.collector.reachedThisRound = s.collector.reachedThisRound) := by
  have hacts := step_acts h
  cases call with
  | access | transit | transfer | derive | shift | clear =>
    rw [show s'.collector = s.collector from (Except.ok.inj hacts).symm]
    exact ⟨rfl, nofun, fun _ => rfl⟩
  | qualify | reject =>
    obtain ⟨c, hact, hend⟩ := Run.result_bind_eq_ok.mp hacts
    have hsame : c = s.collector := by
      first | exact act_qualify_of_result hact | exact act_reject_of_result hact
    rw [show s'.collector = s.collector from (Except.ok.inj hend).symm.trans hsame]
    exact ⟨rfl, nofun, fun _ => rfl⟩
  | setIteration | setupIteration | roundComplete | iterationComplete =>
    rw [show s'.collector = s.collector.hear _ from (Except.ok.inj hacts).symm]
    exact ⟨rfl, nofun, fun _ => rfl⟩
  | nextRound =>
    rw [show s'.collector = s.collector.hear _ from (Except.ok.inj hacts).symm]
    exact ⟨rfl, fun _ => rfl, fun hne => absurd rfl hne⟩
  | add now id egress => exact absurd rfl (hadd now id egress)

theorem step_cases {call : Call} (hs : IsFor setup s.collector) (h : (s.step call).result = .ok (reply, s')) :
    (∃ j, Admits s (s.arena, call) s' j ∧
      s'.collector.list = undominated setup.order.better j s.collector.list ++ [j] ∧
      s'.collector.reachedThisRound = true) ∨
    (s'.collector.list = s.collector.list ∧ (call = .nextRound → s'.collector.reachedThisRound = false) ∧
      (call ≠ .nextRound → s'.collector.reachedThisRound = s.collector.reachedThisRound) ∧
      ∀ j, ¬ Admits s (s.arena, call) s' j) := by
  by_cases hadd : ∃ now id egress, call = .add now id egress
  · obtain ⟨now, id, egress, rfl⟩ := hadd
    obtain ⟨collector, hc, h⟩ := Run.result_bind_eq_ok.mp h
    cases h
    rcases add_cases hs hc with ⟨j, hlets, hlist, hflag⟩ | ⟨hlist, hflag, hnone⟩
    · exact Or.inl ⟨j, ⟨now, id, egress, rfl, hlets⟩, hlist, hflag⟩
    · refine Or.inr ⟨hlist, nofun, fun _ => hflag, fun j ⟨_, _, _, hcall, hlets⟩ => ?_⟩
      cases hcall
      exact hnone j hlets
  · obtain ⟨hlist, hround, hflag⟩ := step_of_no_offer h fun now id egress hcall => hadd ⟨now, id, egress, hcall⟩
    exact Or.inr ⟨hlist, hround, hflag, fun j ⟨now, id, egress, hcall, _⟩ => hadd ⟨now, id, egress, hcall⟩⟩

theorem Admits.unique {x : Arena × Call} {j j' : Journey} {s'' : Search} (h : Admits s x s' j)
    (h' : Admits s x s'' j') : j = j' := by
  obtain ⟨now, id, egress, hx, hlets⟩ := h
  obtain ⟨now', id', egress', hx', hlets'⟩ := h'
  cases hx.symm.trans hx'
  exact hlets.unique hlets'

/-! ## The diary -/

/-- `kept` lists the journeys of `s` with the numbers of the calls that let them in. -/
structure Diary (order : Journey.Order) (s₀ : Search) (calls : List (Arena × Call)) (kept : List (Nat × Journey))
    (s : Search) : Prop where
  listed : s.collector.list = kept.map (·.2)
  inOrder : kept.Pairwise (·.1 < ·.1)
  accepted : ∀ e ∈ kept, Accepts s₀ calls e.1 e.2
  flag : s.collector.reachedThisRound = true ↔ ∃ e ∈ kept, ThisRound calls e.1
  /-- What was let in and is listed no more was dominated by a journey let in later. -/
  replaced : ∀ k j, Accepts s₀ calls k j → (k, j) ∉ kept →
    ∃ k' j', k < k' ∧ Accepts s₀ calls k' j' ∧ dominates order.better j' j = true

variable {calls : List (Arena × Call)} {kept : List (Nat × Journey)} {t : Search} {x : Arena × Call}

/-- A journey let in is entered at the end, and the entries it dominates are struck out. -/
theorem Diary.entered {order : Journey.Order} (h : Diary order s₀ calls kept t)
    (ht : (s₀.drive calls).result = .ok t) (hs : (s₀.drive (calls ++ [x])).result = .ok s) {j : Journey}
    (hadmits : Admits t x s j) (hlist : s.collector.list = undominated order.better j t.collector.list ++ [j])
    (hflag : s.collector.reachedThisRound = true) :
    Diary order s₀ (calls ++ [x])
      (kept.filter (fun e => !dominates order.better j e.2) ++ [(calls.length, j)]) s := by
  have hnew : Accepts s₀ (calls ++ [x]) calls.length j := (accepts_snoc ht hs).mpr (Or.inr ⟨rfl, hadmits⟩)
  have hround : x.2 ≠ .nextRound := by
    obtain ⟨now, id, egress, hx, -⟩ := hadmits
    rw [hx]
    nofun
  refine ⟨?_, ?_, ?_, ⟨fun _ => ⟨(calls.length, j), by simp, ?_⟩, fun _ => hflag⟩, ?_⟩
  · rw [hlist, h.listed, undominated, List.filter_map, List.map_append]
    rfl
  · refine List.pairwise_append.mpr ⟨h.inOrder.sublist List.filter_sublist, List.pairwise_singleton _ _, ?_⟩
    intro e he e' he'
    rw [List.mem_singleton] at he'
    subst he'
    exact (h.accepted e (List.mem_filter.mp he).1).lt_length
  · intro e he
    rcases List.mem_append.mp he with he | he
    · exact (accepts_snoc ht hs).mpr (Or.inl (h.accepted e (List.mem_filter.mp he).1))
    · rw [List.mem_singleton] at he
      subst he
      exact hnew
  · simpa [ThisRound] using hround
  · intro k i hk hout
    simp only [List.mem_append, List.mem_filter, List.mem_singleton, not_or] at hout
    rcases (accepts_snoc ht hs).mp hk with hold | ⟨rfl, hi⟩
    · by_cases hin : (k, i) ∈ kept
      · have hdom : dominates order.better j i = true := by
          have := not_and.mp hout.1 hin
          simpa using this
        exact ⟨calls.length, j, hold.lt_length, hnew, hdom⟩
      · obtain ⟨k', j', hlt, hacc, hdom⟩ := h.replaced k i hold hin
        exact ⟨k', j', hlt, (accepts_snoc ht hs).mpr (Or.inl hacc), hdom⟩
    · exact absurd (by rw [hadmits.unique hi]) hout.2

/-- A call that lets nothing in leaves the entries; if it begins a round, none of them is of this round. -/
theorem Diary.pass {order : Journey.Order} (h : Diary order s₀ calls kept t)
    (ht : (s₀.drive calls).result = .ok t) (hs : (s₀.drive (calls ++ [x])).result = .ok s)
    (hlist : s.collector.list = t.collector.list)
    (hround : x.2 = .nextRound → s.collector.reachedThisRound = false)
    (hflag : x.2 ≠ .nextRound → s.collector.reachedThisRound = t.collector.reachedThisRound)
    (hnone : ∀ j, ¬ Admits t x s j) : Diary order s₀ (calls ++ [x]) kept s := by
  have hsame : ∀ {k j}, Accepts s₀ (calls ++ [x]) k j ↔ Accepts s₀ calls k j := fun {k j} =>
    (accepts_snoc ht hs).trans (or_iff_left fun hnew => hnone j hnew.2)
  refine ⟨hlist.trans h.listed, h.inOrder, fun e he => hsame.mpr (h.accepted e he), ?_, fun k j hk hout => ?_⟩
  · have hthis : ∀ e ∈ kept, (ThisRound (calls ++ [x]) e.1 ↔ ThisRound calls e.1 ∧ x.2 ≠ .nextRound) := fun e he =>
      thisRound_snoc (Nat.le_of_lt (h.accepted e he).lt_length)
    by_cases hx : x.2 = .nextRound
    · rw [hround hx]
      refine ⟨nofun, fun ⟨e, he, hr⟩ => absurd hx ((hthis e he).mp hr).2⟩
    · rw [hflag hx, h.flag]
      constructor
      · rintro ⟨e, he, hr⟩
        exact ⟨e, he, (hthis e he).mpr ⟨hr, hx⟩⟩
      · rintro ⟨e, he, hr⟩
        exact ⟨e, he, ((hthis e he).mp hr).1⟩
  · obtain ⟨k', j', hlt, hacc, hdom⟩ := h.replaced k j (hsame.mp hk) hout
    exact ⟨k', j', hlt, hsame.mpr hacc, hdom⟩

theorem drive_isFor {mismatches : Throttle} (hs₀ : s₀.collector = .empty setup mismatches)
    (calls : List (Arena × Call)) :
    ∀ {s}, (s₀.drive calls).result = .ok s → IsFor setup s.collector := by
  induction calls using List.reverseRecOn with
  | nil =>
    intro s h
    cases h
    rw [hs₀]
    exact empty_isFor setup mismatches
  | append_singleton calls x ih =>
    intro s h
    obtain ⟨t, reply, ht, hstep⟩ := drive_snoc.mp h
    have hfor : IsFor setup t.collector := ih ht
    exact (step_isFor (s := { t with arena := x.1 }) hfor hstep).1

theorem diary_of_drive {mismatches : Throttle} (hs₀ : s₀.collector = .empty setup mismatches)
    (calls : List (Arena × Call)) :
    ∀ {s}, (s₀.drive calls).result = .ok s → ∃ kept, Diary setup.order s₀ calls kept s := by
  induction calls using List.reverseRecOn with
  | nil =>
    intro s h
    cases h
    refine ⟨[], by rw [hs₀]; rfl, .nil, nofun, by rw [hs₀]; exact ⟨nofun, nofun⟩, fun k j hk => ?_⟩
    exact absurd hk.lt_length (Nat.not_lt_zero k)
  | append_singleton calls x ih =>
    intro s h
    obtain ⟨t, reply, ht, hstep⟩ := drive_snoc.mp h
    obtain ⟨kept, hdiary⟩ := ih ht
    have hfor : IsFor setup t.collector := drive_isFor hs₀ calls ht
    rcases step_cases (s := { t with arena := x.1 }) hfor hstep with
      ⟨j, hadmits, hlist, hflag⟩ | ⟨hlist, hround, hflag, hnone⟩
    · exact ⟨_, hdiary.entered ht h hadmits hlist hflag⟩
    · exact ⟨kept, hdiary.pass ht h hlist hround hflag hnone⟩

/-! ## Rounds and iterations -/

def Call.isSetup : Call → Bool
  | .setupIteration _ => true
  | _ => false

/-- The departure that a call sets for the iteration. -/
def Call.departure? : Call → Option Int
  | .setIteration departure | .setupIteration departure => some departure
  | _ => none

/-- How many rounds were begun since the last iteration was set up. -/
def roundsBegun (calls : List (Arena × Call)) : Nat :=
  ((calls.map (·.2)).rtakeWhile (!·.isSetup)).count .nextRound

/-- The departure of the last iteration set up. -/
def lastDeparture (calls : List (Arena × Call)) : Option Int := calls.reverse.findSome? (·.2.departure?)

theorem lastDeparture_snoc {calls : List (Arena × Call)} {x : Arena × Call} :
    lastDeparture (calls ++ [x]) = x.2.departure?.or (lastDeparture calls) := by
  unfold lastDeparture
  rw [List.reverse_append, List.reverse_singleton, List.singleton_append, List.findSome?_cons]
  cases x.2.departure? <;> rfl

theorem step_round {call : Call} (h : (s.step call).result = .ok (reply, s')) :
    s'.cycle.round = if call.isSetup then 0 else if call = .nextRound then s.cycle.round + 1 else s.cycle.round := by
  cases call with
  | access | transit | transfer | derive =>
    obtain ⟨_, rfl⟩ := appended_of_result h
    rfl
  | shift =>
    obtain ⟨⟨outcome, arena⟩, -, h⟩ := Run.result_bind_eq_ok.mp h
    cases outcome <;> cases h <;> rfl
  | add | qualify | reject =>
    obtain ⟨_, -, h⟩ := Run.result_bind_eq_ok.mp h
    cases h
    rfl
  | clear | setIteration =>
    cases h
    rfl
  | setupIteration | roundComplete | iterationComplete =>
    obtain ⟨_, _, hx, rfl⟩ := announced_of_result h
    cases hx
    rfl
  | nextRound =>
    obtain ⟨_, _, hx, rfl⟩ := announced_of_result h
    obtain ⟨round, hround, hx⟩ := Run.result_bind_eq_ok.mp hx
    cases hx
    exact (Checked.addCount_ok_iff.mp hround).2

theorem round_of_drive (hcycle : s₀.cycle = .initial) (calls : List (Arena × Call)) :
    ∀ {s}, (s₀.drive calls).result = .ok s → s.cycle.round = roundsBegun calls := by
  induction calls using List.reverseRecOn with
  | nil =>
    intro s h
    cases h
    rw [hcycle]
    rfl
  | append_singleton calls x ih =>
    intro s h
    obtain ⟨t, reply, ht, hstep⟩ := drive_snoc.mp h
    have hround := ih ht
    rw [step_round hstep, roundsBegun, List.map_append, List.map_singleton, List.rtakeWhile_concat]
    by_cases hsetup : x.2.isSetup = true
    · simp [hsetup]
    · by_cases hnext : x.2 = .nextRound
      · simp [hnext, Call.isSetup, hround, roundsBegun]
      · simp [hsetup, hnext, hround, roundsBegun]

theorem iteration_of_drive {mismatches : Throttle} (hs₀ : s₀.collector = .empty setup mismatches)
    (calls : List (Arena × Call)) :
    ∀ {s}, (s₀.drive calls).result = .ok s → s.collector.iteration = lastDeparture calls := by
  induction calls using List.reverseRecOn with
  | nil =>
    intro s h
    cases h
    rw [hs₀]
    rfl
  | append_singleton calls x ih =>
    intro s h
    obtain ⟨t, reply, ht, hstep⟩ := drive_snoc.mp h
    have hfor : IsFor setup t.collector := drive_isFor hs₀ calls ht
    have hiteration := (step_isFor (s := { t with arena := x.1 }) hfor hstep).2
    rw [hiteration, lastDeparture_snoc, ← ih ht]
    cases x.2 <;> rfl

theorem iteration_of_accepts {mismatches : Throttle} (hs₀ : s₀.collector = .empty setup mismatches) {dir : Direction}
    (hmap : setup.map = .ofChain dir) {k : Nat} {j : Journey} (h : Accepts s₀ calls k j) :
    j.iteration = (lastDeparture (calls.take k)).getD j.startTime := by
  obtain ⟨x, u, v, -, hu, -, now, id, egress, -, d, -, -, hj, -⟩ := h
  rw [(drive_isFor hs₀ _ hu).setup_eq, hmap] at hj
  rw [← iteration_of_drive hs₀ _ hu]
  exact congrArg Journey.iteration (Journey.totals_of_ofChain hj)

/-! ## Any calls -/

/-- After any calls of a new collector and a new life cycle, up to no fault: the journeys listed are those that certain
calls let in, in the order of these calls. The flag is set exactly while one of them was let in in this round. What was
let in and is listed no more was dominated by a journey let in later, in the same round if it was let in in this one.
The life cycle counts the rounds begun since the last iteration was set up, and a journey mapped from a chain has the
departure of the last iteration set up before its offer, or its own start without one. -/
theorem drive_marks_round {mismatches : Throttle} (hs₀ : s₀.collector = .empty setup mismatches)
    (hcycle : s₀.cycle = .initial) (calls : List (Arena × Call)) (h : (s₀.drive calls).result = .ok s) :
    (∃ kept : List (Nat × Journey), s.collector.list = kept.map (·.2) ∧ kept.Pairwise (·.1 < ·.1) ∧
      (∀ e ∈ kept, Accepts s₀ calls e.1 e.2) ∧
      (s.collector.reachedThisRound = true ↔ ∃ e ∈ kept, ThisRound calls e.1) ∧
      ∀ k j, Accepts s₀ calls k j → (k, j) ∉ kept → ∃ k' j', k < k' ∧ (ThisRound calls k → ThisRound calls k') ∧
        Accepts s₀ calls k' j' ∧ dominates setup.order.better j' j = true) ∧
    s.cycle.round = roundsBegun calls ∧
    ∀ dir, setup.map = .ofChain dir → ∀ k j, Accepts s₀ calls k j →
      j.iteration = (lastDeparture (calls.take k)).getD j.startTime := by
  obtain ⟨kept, hdiary⟩ := diary_of_drive hs₀ calls h
  refine ⟨⟨kept, hdiary.listed, hdiary.inOrder, hdiary.accepted, hdiary.flag, fun k j hk hout => ?_⟩,
    round_of_drive hcycle calls h, fun dir hmap k j hk => iteration_of_accepts hs₀ hmap hk⟩
  obtain ⟨k', j', hlt, hacc, hdom⟩ := hdiary.replaced k j hk hout
  exact ⟨k', j', hlt, fun hthis => hthis.later (Nat.le_of_lt hlt), hacc, hdom⟩

/-- The second round finds a shorter walk from the ride, which drops what the first one found. It is the one journey
listed, it came in with the last call, and the flag is set for it. -/
theorem drive_marks_round_second :
    let setup : Setup := ⟨⟨.standard, .forward⟩, Terms.collaborators ⟨⟨.forward, none⟩, none, 0⟩, .ofChain .forward,
      none, ⟨.system, fun _ _ => true⟩⟩
    let arena : Arena := ⟨.forward, #[⟨none, 0, 1, 100, 50, 0, .access (.walk 1 50 0)⟩,
      ⟨some 0, 1, 2, 300, 250, 0, .transit ⟨1, 110, 7⟩⟩]⟩
    let calls : List (Arena × Call) := [(arena, .setupIteration 40), (arena, .nextRound),
      (arena, .add 0 1 (.walk 2 70 0)), (arena, .nextRound), (arena, .add 0 1 (.walk 2 60 0))]
    let s₀ := start .forward setup
    s₀.collector = .empty setup (.ofPeriod mismatchPeriod) ∧ s₀.cycle = .initial ∧
      ∃ s j, (s₀.drive calls).result = .ok s ∧ s.collector.reachedThisRound = true ∧ s.collector.list = [j] ∧
        Accepts s₀ calls 4 j ∧ j.endTime = 360 ∧ j.iteration = 40 ∧ s.cycle.round = 2 := by
  intro setup arena calls s₀
  refine ⟨rfl, rfl, ?_⟩
  have hrun : ((s₀.drive calls).result.map fun s => (s.collector.reachedThisRound, s.collector.list.map (·.endTime))) =
      .ok (true, [360]) := by decide +kernel
  obtain ⟨s, hs⟩ := ok_of_isOk (x := (s₀.drive calls).result) (by decide +kernel)
  rw [hs] at hrun
  obtain ⟨hflag, hends⟩ := Prod.mk.inj (Except.ok.inj hrun)
  obtain ⟨j, hlist, hend⟩ := List.map_eq_singleton_iff.mp hends
  obtain ⟨⟨kept, hkept, -, haccepted, hround, -⟩, hcount, hiteration⟩ := drive_marks_round rfl rfl calls hs
  obtain ⟨e, he, hthis⟩ := hround.mp hflag
  have hej : e.2 = j := by
    have := List.mem_map_of_mem (f := (·.2)) he
    rw [← hkept, hlist] at this
    exact List.mem_singleton.mp this
  have hlast : e.1 = 4 := by
    have only : ∀ k < calls.length, ThisRound calls k → k = 4 := by
      unfold ThisRound
      decide
    exact only e.1 (haccepted e he).lt_length hthis
  have hin : Accepts s₀ calls 4 j := by
    have := haccepted e he
    rwa [hej, hlast] at this
  exact ⟨s, j, hs, hflag, hlist, hin, hend, hiteration .forward rfl 4 j hin, hcount⟩

end Search

end TransitSearch
