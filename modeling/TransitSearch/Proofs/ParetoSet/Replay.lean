/-
  TransitSearch.Proofs.ParetoSet.Replay — the decisions of a pareto set are its journal.

  `record` is the listener that writes down what it is told. What it has written after a
  list of offers is the `journal` of these offers, and any other listener is told the same,
  in the same order (`written_of_adds`). Who listens plays no part in what is answered and
  what is left, whatever the operations are (`performAll_heard`).

  Replayed from an empty list the journal gives the members (`replay_journal`): an accepted
  value goes to the end, of a dropped one the first that is equal is taken out. Equal values
  compare alike, so those that one offer drops are all dropped, and the first of them is
  always the right one (`replay_drops_behind`). What a single offer adds is an `Entry`.
-/

import TransitSearch.Proofs.ParetoSet.Journal
import TransitSearch.Proofs.ParetoSet.Operations

namespace TransitSearch

open Pareto

namespace ParetoSet

variable {α ω υ : Type} {better : α → α → Bool} {adv : Advantage α}

/-! ## Another listener -/

/-- The same set with another listener. -/
def heardBy (tell : Listener α υ) (s : ParetoSet α ω) : ParetoSet α υ :=
  { advantage := s.advantage, listener := tell, settled := s.settled, fresh := s.fresh }

def Op.heardBy (tell : Listener α υ) : Op α ω → Op α υ
  | .add c => .add c
  | .qualify c => .qualify c
  | .clear => .clear
  | .setListener _ => .setListener tell
  | .markEnd => .markEnd
  | .read => .read

section Another

variable {tell' : Listener α υ}

theorem Op.heardBy_comp {χ : Type} (tell'' : Listener α χ) :
    (Op.heardBy tell'' ∘ Op.heardBy tell' : Op α ω → Op α χ) = Op.heardBy tell'' := by
  funext op
  cases op <;> rfl

theorem sweep_heard (ht : ∀ e, (tell' e).result = .ok ()) {tell : Listener α ω} {c : α} {ms kept : List α}
    (hk : (sweep adv tell c ms).result = .ok kept) : (sweep adv tell' c ms).result = .ok kept := by
  have := sweep_image (f := id) (fun _ _ => rfl) ht hk
  rwa [List.map_id, List.map_id] at this

theorem add_heard (ht : ∀ e, (tell' e).result = .ok ()) {s s' : ParetoSet α ω} {c : α} {b : Bool}
    (ha : (s.add c).result = .ok (b, s')) : ((s.heardBy tell').add c).result = .ok (b, s'.heardBy tell') := by
  simp only [add, Run.result_bind_eq_ok, Run.result_lift] at ha ⊢
  obtain ⟨r, hr, ha⟩ := ha
  refine ⟨r, hr, ?_⟩
  cases r with
  | some m =>
    obtain ⟨-, -, ha⟩ := Run.result_bind_eq_ok.mp ha
    cases ha
    exact Run.result_bind_eq_ok.mpr ⟨(), ht _, rfl⟩
  | none =>
    simp only [Run.result_bind_eq_ok] at ha ⊢
    obtain ⟨settled, hs, fresh, hf, -, -, ha⟩ := ha
    cases ha
    exact ⟨settled, sweep_heard ht hs, fresh, sweep_heard ht hf, (), ht _, rfl⟩

theorem perform_heard (ht : ∀ e, (tell' e).result = .ok ()) {s s' : ParetoSet α ω} {op : Op α ω} {o : Outcome α}
    (ho : (s.perform op).result = .ok (o, s')) :
    ((s.heardBy tell').perform (op.heardBy tell')).result = .ok (o, s'.heardBy tell') := by
  cases op with
  | add c =>
    obtain ⟨b, ha, rfl⟩ := perform_add_eq_ok.mp ho
    exact perform_add_eq_ok.mpr ⟨b, add_heard ht ha, rfl⟩
  | qualify c =>
    obtain ⟨b, hb, rfl, rfl⟩ := perform_qualify_eq_ok.mp ho
    exact perform_qualify_eq_ok.mpr ⟨b, hb, rfl, rfl⟩
  | markEnd | clear | setListener | read =>
    cases ho
    rfl

theorem performAll_heard (ht : ∀ e, (tell' e).result = .ok ()) (ops : List (Op α ω)) :
    ∀ {s s' : ParetoSet α ω} {os : List (Outcome α)}, (s.performAll ops).result = .ok (os, s') →
      ((s.heardBy tell').performAll (ops.map (.heardBy tell'))).result = .ok (os, s'.heardBy tell') := by
  induction ops with
  | nil =>
    intro s s' os ha
    cases ha
    rfl
  | cons op rest ih =>
    intro s s' os ha
    obtain ⟨o, t, os', ho, hrest, rfl⟩ := performAll_cons_eq_ok.mp ha
    exact performAll_cons_eq_ok.mpr ⟨o, _, os', perform_heard ht ho, ih hrest, rfl⟩

theorem performAll_heard_alike {tell : Listener α ω} {ops : List (Op α ω)} {os os' : List (Outcome α)}
    {s : ParetoSet α ω} {s' : ParetoSet α υ} (ha : ((empty adv tell).performAll ops).result = .ok (os, s))
    (ha' : ((empty adv tell').performAll (ops.map (.heardBy tell'))).result = .ok (os', s')) :
    os' = os ∧ s'.indexed.elements = s.indexed.elements ∧ s'.indexed.mark = s.indexed.mark := by
  -- both go as when nobody listens
  have hquiet : ∀ e, ((silent : Listener α Unit) e).result = .ok () := fun _ => rfl
  have hsilent := performAll_heard hquiet ops ha
  have hsilent' := performAll_heard hquiet _ ha'
  rw [List.map_map, Op.heardBy_comp] at hsilent'
  obtain ⟨rfl, hsame⟩ := Prod.mk.inj (Except.ok.inj (hsilent'.symm.trans hsilent))
  have hindexed : (s'.heardBy (silent : Listener α Unit)).indexed = (s.heardBy silent).indexed :=
    congrArg ParetoSet.indexed hsame
  exact ⟨rfl, congrArg (·.elements) hindexed, congrArg (·.mark) hindexed⟩

end Another

/-! ## Lists of offers -/

/-- The values are offered one after the other to a set that is empty. -/
def offers (adv : Advantage α) (tell : Listener α ω) (cs : List α) : Run ω (List (Outcome α) × ParetoSet α ω) :=
  (empty adv tell).performAll (cs.map .add)

section Offers

variable {tell : Listener α ω} {cs : List α} {os : List (Outcome α)} {s : ParetoSet α ω}

theorem offers_heard {tell' : Listener α υ} (ht : ∀ e, (tell' e).result = .ok ())
    (ha : (offers adv tell cs).result = .ok (os, s)) : (offers adv tell' cs).result = .ok (os, s.heardBy tell') := by
  have := performAll_heard ht _ ha
  rwa [List.map_map] at this

theorem offers_take (ha : (offers adv tell cs).result = .ok (os, s)) (n : Nat) :
    ∃ t, (offers adv tell (cs.take n)).result = .ok (os.take n, t) := by
  obtain ⟨t, ht, -⟩ := performAll_take n ha
  rw [← List.map_take] at ht
  exact ⟨t, ht⟩

theorem offers_step (ha : (offers adv tell cs).result = .ok (os, s)) {n : Nat} {c : α} (hc : cs[n]? = some c) :
    ∃ t u b, (offers adv tell (cs.take n)).result = .ok (os.take n, t) ∧ (t.add c).result = .ok (b, u) ∧
      (offers adv tell (cs.take (n + 1))).result = .ok (os.take (n + 1), u) ∧
      os[n]? = some (if b then .letIn c else .keptOut c) := by
  obtain ⟨hlt, rfl⟩ := List.getElem?_eq_some_iff.mp hc
  have hlen : os.length = cs.length := (length_of_performAll _ ha).trans (List.length_map _)
  have ho : os[n]? = some os[n] := List.getElem?_eq_getElem (hlen ▸ hlt)
  obtain ⟨op, t, u, hop, hbefore, hstep, hafter⟩ := performAll_step n ha ho
  rw [List.getElem?_map, hc] at hop
  cases hop
  obtain ⟨b, hb, hout⟩ := perform_add_eq_ok.mp hstep
  rw [← List.map_take] at hbefore hafter
  exact ⟨t, u, b, hbefore, hb, hafter, ho.trans (congrArg some hout)⟩

end Offers

def record : Listener α (SetEvent α) := Run.write

/-- All decisions on these offers, in order. -/
def journal (adv : Advantage α) (cs : List α) : List (SetEvent α) := (offers adv record cs).written

theorem told_record (es : List (SetEvent α)) : told record es = es := List.flatMap_singleton' es

theorem perform_add_written {s s' : ParetoSet α ω} (h : Computes s.advantage better) {c : α} {b : Bool}
    (ha : (s.add c).result = .ok (b, s')) :
    (s.perform (.add c)).written = told s.listener (events better c s.members) := by
  rw [← add_written h ha]
  exact Run.written_bind_pure (s.add c) fun r => (if r.1 then Outcome.letIn c else .keptOut c, r.2)

theorem written_of_adds (cs : List α) : ∀ {s s' : ParetoSet α ω} {os : List (Outcome α)}, Computes s.advantage better →
    (s.performAll (cs.map .add)).result = .ok (os, s') → (s.performAll (cs.map .add)).written =
      told s.listener ((s.heardBy record).performAll (cs.map .add)).written := by
  induction cs with
  | nil =>
    intro s s' os _ _
    rfl
  | cons c rest ih =>
    intro s s' os h ha
    obtain ⟨o, t, os', ho, hrest, rfl⟩ := performAll_cons_eq_ok.mp ha
    obtain ⟨b, hb, rfl⟩ := perform_add_eq_ok.mp ho
    obtain ⟨hadv, hlis⟩ := advantage_of_add h hb
    -- the set that is recorded takes the same step, and tells of it in the same words
    have hb' : ((s.heardBy record).add c).result = .ok (b, t.heardBy record) := add_heard (fun _ => rfl) hb
    have hevents : ((s.heardBy record).perform (.add c)).written = events better c s.members := by
      rw [perform_add_written (s := s.heardBy record) h hb']
      exact told_record _
    rw [List.map_cons, List.map_cons, written_of_cons ho, written_of_cons (perform_add_eq_ok.mpr ⟨b, hb', rfl⟩),
      perform_add_written h hb, hevents, ih (by rwa [hadv]) hrest, hlis, told_append]

theorem journal_of_step (h : Computes adv better) {tell : Listener α ω} {cs : List α} {n : Nat} {c : α}
    (hc : cs[n]? = some c) {os : List (Outcome α)} {t u : ParetoSet α ω} {b : Bool}
    (ht : (offers adv tell (cs.take n)).result = .ok (os.take n, t)) (hb : (t.add c).result = .ok (b, u)) :
    journal adv (cs.take (n + 1)) = journal adv (cs.take n) ++ events better c t.members := by
  have htake : cs.take (n + 1) = cs.take n ++ [c] := by rw [List.take_add_one, hc, Option.toList_some]
  have hadv : t.advantage = adv := advantage_of_performAll _ h ht
  have hrecord : (offers adv record (cs.take n)).result = .ok (os.take n, t.heardBy record) :=
    offers_heard (fun _ => rfl) ht
  have hstep : ((t.heardBy record).add c).result = .ok (b, u.heardBy record) := add_heard (fun _ => rfl) hb
  have hlast : ((t.heardBy record).performAll [.add c]).written = events better c t.members := by
    rw [written_of_cons (perform_add_eq_ok.mpr ⟨b, hstep, rfl⟩),
      perform_add_written (s := t.heardBy record) (by rwa [← hadv] at h) hstep]
    exact (List.append_nil _).trans (told_record _)
  rw [htake, journal, offers, List.map_append, written_of_append hrecord]
  exact congrArg _ hlast

/-! ## Replaying -/

section Replaying

variable [DecidableEq α]

/-- What a decision makes of these members. -/
def afterEvent (ms : List α) : SetEvent α → List α
  | .accepted e => ms ++ [e]
  | .dropped e _ => ms.erase e
  | .rejected _ _ => ms

/-- What these decisions make of these members, one after the other. -/
def replay (ms : List α) (es : List (SetEvent α)) : List α := es.foldl afterEvent ms

theorem replay_append (ms : List α) (es es' : List (SetEvent α)) :
    replay ms (es ++ es') = replay (replay ms es) es' := List.foldl_append

/-- The drops take out what is dominated, behind members that are not. -/
theorem replay_drops_behind (c : α) (ms : List α) : ∀ kept : List α,
    (∀ m ∈ kept, Pareto.dominates better c m = false) →
    replay (kept ++ ms) (drops better c ms) = kept ++ undominated better c ms := by
  induction ms with
  | nil =>
    intro kept _
    rfl
  | cons m rest ih =>
    intro kept hkept
    by_cases hdom : Pareto.dominates better c m = true
    · -- no kept member is equal to this one, which is the first therefore
      have hnot : m ∉ kept := fun hm => by
        cases hdom.symm.trans (hkept m hm)
      have hdrops : drops better c (m :: rest) = .dropped m c :: drops better c rest := by
        rw [drops, List.filter_cons_of_pos hdom]
        rfl
      have hstays : undominated better c (m :: rest) = undominated better c rest :=
        List.filter_cons_of_neg (by simp [hdom])
      have herase : (kept ++ m :: rest).erase m = kept ++ rest := by
        rw [List.erase_append_right _ hnot, List.erase_cons_head]
      rw [hdrops, hstays, ← ih kept hkept, ← herase]
      rfl
    · have hdrops : drops better c (m :: rest) = drops better c rest := by
        rw [drops, List.filter_cons_of_neg hdom]
        rfl
      have hstays : undominated better c (m :: rest) = m :: undominated better c rest :=
        List.filter_cons_of_pos (by simp [hdom])
      have hkept' : ∀ n ∈ kept ++ [m], Pareto.dominates better c n = false :=
        List.forall_mem_append.mpr ⟨hkept, List.forall_mem_singleton.mpr (Bool.eq_false_iff.mpr hdom)⟩
      have := ih (kept ++ [m]) hkept'
      rwa [List.append_assoc, List.append_assoc, List.singleton_append, List.singleton_append, ← hdrops,
        ← hstays] at this

theorem replay_events {s s' : ParetoSet α ω} (h : Computes s.advantage better) {c : α} {b : Bool}
    (ha : (s.add c).result = .ok (b, s')) : replay s.members (events better c s.members) = s'.members := by
  rcases add_of_result h ha with ⟨⟨m, hm⟩, -, rfl⟩ | ⟨hnone, -, rfl⟩
  · rw [events, hm]
    rfl
  · have hdrops : replay s.members (drops better c s.members) = undominated better c s.members :=
      replay_drops_behind c s.members [] (List.forall_mem_nil _)
    rw [events, hnone, accepting_members]
    dsimp only
    rw [replay_append, hdrops]
    rfl

theorem replay_of_adds (cs : List α) : ∀ {s s' : ParetoSet α (SetEvent α)} {os : List (Outcome α)},
    Computes s.advantage better → s.listener = record → (s.performAll (cs.map .add)).result = .ok (os, s') →
    replay s.members (s.performAll (cs.map .add)).written = s'.members := by
  induction cs with
  | nil =>
    intro s s' os _ _ ha
    cases ha
    rfl
  | cons c rest ih =>
    intro s s' os h hl ha
    obtain ⟨o, t, os', ho, hrest, rfl⟩ := performAll_cons_eq_ok.mp ha
    obtain ⟨b, hb, rfl⟩ := perform_add_eq_ok.mp ho
    obtain ⟨hadv, hlis⟩ := advantage_of_add h hb
    -- what is written first takes `s` to `t`, from where the replay of the rest goes on
    rw [List.map_cons, written_of_cons ho, perform_add_written h hb, hl, told_record, replay_append,
      replay_events h hb]
    exact ih (by rwa [hadv]) (hlis.trans hl) hrest

theorem replay_journal (h : Computes adv better) {tell : Listener α ω} {cs : List α} {os : List (Outcome α)}
    {s : ParetoSet α ω} (ha : (offers adv tell cs).result = .ok (os, s)) : replay [] (journal adv cs) = s.members := by
  have hrecord : (offers adv record cs).result = .ok (os, s.heardBy record) := offers_heard (fun _ => rfl) ha
  exact replay_of_adds cs h rfl hrecord

end Replaying

/-- What an offer adds to the journal: one refusal by a member that the candidate beats nowhere, or a drop for each
member that goes, in their order, and the acceptance. -/
inductive Entry (better : α → α → Bool) (c : α) (before after : List α) : Outcome α → List (SetEvent α) → Prop where
  | refused {m : α} : m ∈ before → better c m = false → after = before →
      Entry better c before after (.keptOut c) [.rejected c m]
  | letIn : after = before.filter (!Pareto.dominates better c ·) ++ [c] →
      Entry better c before after (.letIn c)
        ((before.filter (Pareto.dominates better c)).map (.dropped · c) ++ [.accepted c])

theorem entry_of_add {s s' : ParetoSet α ω} (h : Computes s.advantage better) {c : α} {b : Bool}
    (ha : (s.add c).result = .ok (b, s')) :
    Entry better c s.members s'.members (if b then .letIn c else .keptOut c) (events better c s.members) := by
  rcases add_of_result h ha with ⟨⟨m, hm⟩, rfl, rfl⟩ | ⟨hnone, rfl, rfl⟩
  · obtain ⟨hmem, hcovers⟩ := blocker_covers hm
    rw [events, hm]
    exact .refused hmem hcovers rfl
  · rw [events, hnone]
    exact .letIn (accepting_members s c)

/-- Offered any list of values, a set tells its listener the journal, and the journal replayed gives the members after
each offer. Another listener hears the same, and makes no difference in any run. -/
theorem journal_replays_to_members [DecidableEq α] (h : Computes adv better) (tell : Listener α ω) :
    (∀ cs : List α,
      ((∀ a b, ∃ v, adv a b = .ok v) → (∀ e, (tell e).result = .ok ()) → ∃ r, (offers adv tell cs).result = .ok r) ∧
      (empty adv tell).indexed.performAll (cs.map .add) = (fun (os, s) => (os, s.indexed)) <$> offers adv tell cs ∧
      ∀ os s, (offers adv tell cs).result = .ok (os, s) →
        (offers adv tell cs).written = told tell (journal adv cs) ∧
        (∀ n, ∃ t, (offers adv tell (cs.take n)).result = .ok (os.take n, t) ∧
          replay [] (journal adv (cs.take n)) = t.indexed.elements) ∧
        ∀ n c, cs[n]? = some c → ∃ t u o es, os[n]? = some o ∧
          (offers adv tell (cs.take n)).result = .ok (os.take n, t) ∧
          (offers adv tell (cs.take (n + 1))).result = .ok (os.take (n + 1), u) ∧
          journal adv (cs.take (n + 1)) = journal adv (cs.take n) ++ es ∧
          Entry better c t.indexed.elements u.indexed.elements o es) ∧
    ∀ {υ : Type} (tell' : Listener α υ) (ops : List (Op α ω)) os s,
      ((empty adv tell).performAll ops).result = .ok (os, s) →
        ((∀ e, (tell' e).result = .ok ()) →
          ∃ r, ((empty adv tell').performAll (ops.map (.heardBy tell'))).result = .ok r) ∧
        ∀ os' s', ((empty adv tell').performAll (ops.map (.heardBy tell'))).result = .ok (os', s') →
          os' = os ∧ s'.indexed.elements = s.indexed.elements ∧ s'.indexed.mark = s.indexed.mark := by
  constructor
  · intro cs
    refine ⟨fun hans hl => ?_, performAll_indexed _ _, fun os s ha => ⟨written_of_adds cs h ha, fun n => ?_, ?_⟩⟩
    · exact performAll_answers (s := empty adv tell) _ h hans hl fun _ hset => absurd hset (by simp)
    · obtain ⟨t, ht⟩ := offers_take ha n
      exact ⟨t, ht, replay_journal h ht⟩
    · intro n c hc
      obtain ⟨t, u, b, ht, hb, hu, ho⟩ := offers_step ha hc
      have hadv : t.advantage = adv := advantage_of_performAll _ h ht
      refine ⟨t, u, _, _, ho, ht, hu, journal_of_step h hc ht hb, entry_of_add (by rwa [hadv]) hb⟩
  · intro υ tell' ops os s ha
    exact ⟨fun hl => ⟨_, performAll_heard hl ops ha⟩, fun os' s' ha' => performAll_heard_alike ha ha'⟩

/-- 2 dominates 1, and any other two values are a trade-off. The two 1s go when 2 comes in, the earlier one first, and a
third is refused by 2; nobody listening, the same are left. -/
theorem journal_replays_to_members_twins :
    let better (l r : Nat) : Bool := (l, r) ≠ (1, 2)
    let adv : Advantage Nat := fun l r => .ok (better l r)
    let cs := [1, 3, 1, 2, 1]
    let es : List (SetEvent Nat) := [.accepted 1, .accepted 3, .accepted 1, .dropped 1 2, .dropped 1 2, .accepted 2,
      .rejected 1 2]
    ∃ os s s', (offers adv record cs).result = .ok (os, s) ∧ (offers adv record cs).written = es ∧
      s.indexed.elements = [3, 2] ∧ replay [] es = [3, 2] ∧
      os = [.letIn 1, .letIn 3, .letIn 1, .letIn 2, .keptOut 1] ∧
      (offers adv (silent : Listener Nat Unit) cs).result = .ok (os, s') ∧ s'.indexed.elements = [3, 2] := by
  intro better adv cs es
  have hadv : Computes adv better := by
    intro l r b h
    cases h
    rfl
  have hans : ∀ a b, ∃ v, adv a b = .ok v := fun a b => ⟨better a b, rfl⟩
  obtain ⟨hjournal, hsame⟩ := journal_replays_to_members hadv (record : Listener Nat (SetEvent Nat))
  obtain ⟨hanswers, -, htold⟩ := hjournal cs
  obtain ⟨⟨os, s⟩, ha⟩ := hanswers hans fun _ => rfl
  obtain ⟨-, hreplayed, -⟩ := htold os s ha
  have hes : journal adv cs = es := by decide +kernel
  have hos : (offers adv record cs).result.map (·.1) = .ok [.letIn 1, .letIn 3, .letIn 1, .letIn 2, .keptOut 1] := by
    decide +kernel
  rw [ha] at hos
  obtain ⟨t, ht, hreplay⟩ := hreplayed 5
  obtain rfl : t = s := (Prod.mk.inj (Except.ok.inj (ht.symm.trans ha))).2
  have helements : t.indexed.elements = [3, 2] := by
    have : replay [] es = t.indexed.elements := hes ▸ hreplay
    exact this.symm.trans (by decide)
  obtain ⟨hquiet, halike⟩ := hsame (silent : Listener Nat Unit) (cs.map .add) os t ha
  obtain ⟨⟨os', s'⟩, ha'⟩ := hquiet fun _ => rfl
  obtain ⟨rfl, hs', -⟩ := halike os' s' ha'
  exact ⟨os', t, s', ha, hes, helements, by decide, Except.ok.inj hos, ha', hs'.trans helements⟩

end ParetoSet

end TransitSearch
