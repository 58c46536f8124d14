/-
  TransitSearch.Proofs.ParetoSet.History — what came into a pareto set, and when.

  The outcomes of the operations on a set so far are its history. A value let in is named
  by the number of its operation, so that equal values are told apart.

  From a history alone one reads which values are still there: those let in with no clear
  and nothing that dominates them later on (`present`). Those of them with no mark set
  later came in since the mark (`since`). One operation more adds its own value at the end
  and strikes out what it takes away (`present_snoc`, `since_snoc`), and a set does the same
  with its members (`Follows.perform`). So its members are the values present, and those
  accepted since the mark are what its history says, whatever was dropped before the mark
  or after it (`performAll_follows`).

  Where the mark is set after each read and at no other time (`ReadsThenMarks`), as by a
  driver that goes in rounds, what one read gives is behind the mark for all later ones,
  and the first read after a value came in finds no mark in between.
-/

import Mathlib.Data.List.Pairwise
import TransitSearch.Proofs.ParetoSet.Operations

namespace TransitSearch

open Pareto

namespace ParetoSet

variable {α ω : Type}

/-! ## Histories -/

namespace Outcome

def letIn? : Outcome α → Option α
  | .letIn c => some c
  | _ => none

/-- Whether the mark is at the end of the set after it. -/
def setsMark : Outcome α → Bool
  | .marked | .cleared => true
  | _ => false

/-- Whether it leaves a member `c` in the set. -/
def spares (better : α → α → Bool) (c : α) : Outcome α → Bool
  | .letIn d => !Pareto.dominates better d c
  | .cleared => false
  | _ => true

end Outcome

/-- The values let in, with the numbers of their operations. -/
def insertions (h : List (Outcome α)) : List (Nat × α) := h.zipIdx.filterMap fun (o, k) => o.letIn?.map (k, ·)

/-- Those of them that are still there. -/
def present (better : α → α → Bool) (h : List (Outcome α)) : List (Nat × α) :=
  (insertions h).filter fun x => (h.drop (x.1 + 1)).all (·.spares better x.2)

/-- Those of these that came in since the mark was set last. -/
def since (better : α → α → Bool) (h : List (Outcome α)) : List (Nat × α) :=
  (present better h).filter fun x => (h.drop (x.1 + 1)).all (!·.setsMark)

variable {better : α → α → Bool} {h : List (Outcome α)}

theorem mem_insertions {k : Nat} {c : α} : (k, c) ∈ insertions h ↔ h[k]? = some (.letIn c) := by
  rw [insertions, List.mem_filterMap]
  constructor
  · rintro ⟨⟨o, i⟩, hmem, hsome⟩
    cases o with
    | letIn d =>
      cases hsome
      exact List.mem_zipIdx_iff_getElem?.mp hmem
    | keptOut | asked | cleared | listenerSet | marked | read => cases hsome
  · intro hget
    exact ⟨(.letIn c, k), List.mem_zipIdx_iff_getElem?.mpr hget, rfl⟩

theorem mem_present {k : Nat} {c : α} : (k, c) ∈ present better h ↔
    h[k]? = some (.letIn c) ∧ ∀ o ∈ h.drop (k + 1), o.spares better c = true := by
  rw [present, List.mem_filter, mem_insertions, List.all_eq_true]

theorem mem_since {k : Nat} {c : α} : (k, c) ∈ since better h ↔
    (k, c) ∈ present better h ∧ ∀ o ∈ h.drop (k + 1), o.setsMark = false := by
  simp [since, List.mem_filter]

theorem lt_of_insertion {k : Nat} {c : α} (hk : (k, c) ∈ insertions h) : k < h.length :=
  (List.getElem?_eq_some_iff.mp (mem_insertions.mp hk)).1

theorem insertions_inOrder (h : List (Outcome α)) : (insertions h).Pairwise (·.1 < ·.1) := by
  have hnumbers : h.zipIdx.Pairwise (·.2 < ·.2) := by
    rw [← List.pairwise_map, List.zipIdx_map_snd]
    exact List.pairwise_lt_range'
  refine List.pairwise_filterMap.mpr (hnumbers.imp ?_)
  rintro ⟨o, i⟩ ⟨o', j⟩ hij a ha b hb
  obtain ⟨c, -, rfl⟩ := Option.map_eq_some_iff.mp ha
  obtain ⟨d, -, rfl⟩ := Option.map_eq_some_iff.mp hb
  exact hij

theorem since_inOrder (better : α → α → Bool) (h : List (Outcome α)) : (since better h).Pairwise (·.1 < ·.1) :=
  (insertions_inOrder h).sublist (List.filter_sublist.trans List.filter_sublist)

/-! ## One operation more -/

theorem insertions_snoc (h : List (Outcome α)) (o : Outcome α) :
    insertions (h ++ [o]) = insertions h ++ (o.letIn?.map (h.length, ·)).toList := by
  rw [insertions, List.zipIdx_append, List.filterMap_append]
  congr 1
  cases o <;> simp [Outcome.letIn?]

theorem all_after_snoc {k : Nat} (hk : k < h.length) (o : Outcome α) (p : Outcome α → Bool) :
    ((h ++ [o]).drop (k + 1)).all p = ((h.drop (k + 1)).all p && p o) := by
  rw [List.drop_append_of_le_length hk, List.all_append, List.all_cons, List.all_nil, Bool.and_true]

theorem present_snoc (h : List (Outcome α)) (o : Outcome α) : present better (h ++ [o]) =
    (present better h).filter (o.spares better ·.2) ++ (o.letIn?.map (h.length, ·)).toList := by
  rw [present, insertions_snoc, List.filter_append, present, List.filter_filter]
  congr 1
  · refine List.filter_congr fun x hx => ?_
    rw [all_after_snoc (lt_of_insertion hx), Bool.and_comm]
  · cases o <;> simp [Outcome.letIn?]

theorem present_snoc_of_idle {o : Outcome α} (hletIn : o.letIn? = none) (hspares : ∀ c, o.spares better c = true) :
    present better (h ++ [o]) = present better h := by
  rw [present_snoc, hletIn, List.filter_eq_self.mpr fun x _ => hspares x.2, Option.map_none, Option.toList_none,
    List.append_nil]

theorem since_snoc (h : List (Outcome α)) (o : Outcome α) : since better (h ++ [o]) =
    (since better h).filter (fun x => o.spares better x.2 && !o.setsMark) ++
      (o.letIn?.map (h.length, ·)).toList := by
  rw [since, present_snoc, List.filter_append, since, List.filter_filter, List.filter_filter]
  congr 1
  · refine List.filter_congr fun x hx => ?_
    have hlt : x.1 < h.length := lt_of_insertion (List.mem_filter.mp hx).1
    rw [all_after_snoc hlt]
    ac_rfl
  · cases o <;> simp [Outcome.letIn?]

/-! ## A set and its history -/

/-- The members of `s`, and those accepted since its mark, are what the history `h` says. -/
structure Follows (better : α → α → Bool) (h : List (Outcome α)) (s : ParetoSet α ω) : Prop where
  members : s.members = (present better h).map (·.2)
  fresh : s.addedSinceMark = (since better h).map (·.2)

theorem follows_empty (adv : Advantage α) (tell : Listener α ω) : Follows better [] (empty adv tell) := ⟨rfl, rfl⟩

theorem Follows.idle {s : ParetoSet α ω} (hs : Follows better h s) {o : Outcome α} (hletIn : o.letIn? = none)
    (hspares : ∀ c, o.spares better c = true) (hmark : o.setsMark = false) : Follows better (h ++ [o]) s := by
  constructor
  · rw [present_snoc_of_idle hletIn hspares, hs.members]
  · rw [since_snoc, hletIn, List.filter_eq_self.mpr fun x _ => by rw [hspares, hmark]; rfl]
    simpa using hs.fresh

theorem undominated_map_snd (c : α) (xs : List (Nat × α)) : undominated better c (xs.map (·.2)) =
    (xs.filter fun x => (Outcome.letIn c).spares better x.2).map (·.2) := by
  rw [undominated, List.filter_map]
  rfl

/-- One operation more, and the set is what its history says again. -/
theorem Follows.perform {s s' : ParetoSet α ω} (hs : Follows better h s) (hadv : Computes s.advantage better)
    {op : Op α ω} {o : Outcome α} (ho : (s.perform op).result = .ok (o, s')) : Follows better (h ++ [o]) s' := by
  cases op with
  | add c =>
    obtain ⟨b, ha, rfl⟩ := perform_add_eq_ok.mp ho
    rcases add_of_result hadv ha with ⟨-, rfl, rfl⟩ | ⟨-, rfl, rfl⟩
    · exact hs.idle rfl (fun _ => rfl) rfl
    · -- before the mark and after it the same values are struck out
      constructor
      · rw [accepting_members, hs.members, present_snoc, undominated_map_snd]
        simp [Outcome.letIn?]
      · have hfresh : (s.accepting better c).addedSinceMark = undominated better c s.addedSinceMark ++ [c] := rfl
        rw [hfresh, hs.fresh, since_snoc, undominated_map_snd]
        simp [Outcome.letIn?, Outcome.setsMark]
  | qualify c =>
    obtain ⟨b, -, rfl, rfl⟩ := perform_qualify_eq_ok.mp ho
    exact hs.idle rfl (fun _ => rfl) rfl
  | setListener =>
    cases ho
    exact ⟨(hs.idle rfl (fun _ => rfl) rfl).members, (hs.idle rfl (fun _ => rfl) rfl).fresh⟩
  | read =>
    cases ho
    exact hs.idle rfl (fun _ => rfl) rfl
  | clear =>
    cases ho
    constructor
    · rw [present_snoc]
      simp [Outcome.spares, Outcome.letIn?]
    · rw [since_snoc]
      simp [Outcome.spares, Outcome.letIn?, clear, addedSinceMark]
  | markEnd =>
    cases ho
    constructor
    · rw [members_markEnd, hs.members, present_snoc_of_idle rfl fun _ => rfl]
    · rw [since_snoc]
      simp [Outcome.setsMark, Outcome.letIn?, markEnd, addedSinceMark]

/-! ## Runs -/

theorem performAll_follows (ops : List (Op α ω)) : ∀ {s s' : ParetoSet α ω} {h os : List (Outcome α)},
    Follows better h s → Computes s.advantage better → (s.performAll ops).result = .ok (os, s') →
    Follows better (h ++ os) s' := by
  induction ops with
  | nil =>
    intro s s' h os hs _ ha
    cases ha
    rwa [List.append_nil]
  | cons op rest ih =>
    intro s s' h os hs hadv ha
    obtain ⟨o, t, os', ho, hrest, rfl⟩ := performAll_cons_eq_ok.mp ha
    have hadv' : Computes t.advantage better := by rwa [(frame_of_perform hadv ho).1]
    have := ih (hs.perform hadv ho) hadv' hrest
    rwa [List.append_assoc, List.singleton_append] at this

variable {adv : Advantage α} {tell : Listener α ω} {s : ParetoSet α ω} {os : List (Outcome α)}

theorem read_of_perform {s s' : ParetoSet α ω} {op : Op α ω} {xs : List α}
    (ho : (s.perform op).result = .ok (.read xs, s')) : xs = s.addedSinceMark := by
  cases op with
  | read =>
    cases ho
    rfl
  | add c =>
    obtain ⟨b, -, hout⟩ := perform_add_eq_ok.mp ho
    cases b <;> cases hout
  | qualify c =>
    obtain ⟨b, -, hout, -⟩ := perform_qualify_eq_ok.mp ho
    cases hout
  | clear | setListener | markEnd => cases ho

theorem read_of_performAll (hadv : Computes adv better) {ops : List (Op α ω)}
    (ha : ((empty adv tell).performAll ops).result = .ok (os, s)) {p : Nat} {xs : List α}
    (hp : os[p]? = some (.read xs)) : xs = (since better (os.take p)).map (·.2) := by
  obtain ⟨op, t, u, -, hbefore, hread, -⟩ := performAll_step p ha hp
  have ht : Follows better ([] ++ os.take p) t := performAll_follows _ (follows_empty adv tell) hadv hbefore
  rw [read_of_perform hread, ht.fresh, List.nil_append]

/-! ## Reading in rounds -/

/-- One round: values are added, what came in is read and the mark is set. -/
def round (cs : List α) : List (Op α ω) := cs.map .add ++ [.read, .markEnd]

/-- After each read the mark is set, and at no other time. -/
structure ReadsThenMarks (h : List (Outcome α)) : Prop where
  marks : ∀ {p xs}, h[p]? = some (.read xs) → h[p + 1]? = some .marked
  only : ∀ {p}, h[p]? = some .marked → ∃ q xs, p = q + 1 ∧ h[q]? = some (.read xs)

/-- The read at `p` gives the value that came in by operation `k`. -/
def ReadAt (better : α → α → Bool) (h : List (Outcome α)) (p k : Nat) : Prop :=
  (∃ xs, h[p]? = some (.read xs)) ∧ ∃ c, (k, c) ∈ since better (h.take p)

theorem readsThenMarks_nil : ReadsThenMarks ([] : List (Outcome α)) := ⟨nofun, nofun⟩

theorem ReadsThenMarks.cons (hh : ReadsThenMarks h) {o : Outcome α} (hread : ∀ xs, o ≠ .read xs) (hmark : o ≠ .marked) :
    ReadsThenMarks (o :: h) := by
  constructor
  · intro p xs hp
    cases p with
    | zero => exact absurd (Option.some.inj hp) (hread xs)
    | succ p => exact hh.marks (p := p) hp
  · intro p hp
    cases p with
    | zero => exact absurd (Option.some.inj hp) hmark
    | succ p =>
      obtain ⟨q, xs, rfl, hq⟩ := hh.only (p := p) hp
      exact ⟨q + 1, xs, rfl, hq⟩

theorem ReadsThenMarks.cons_read (hh : ReadsThenMarks h) (xs : List α) :
    ReadsThenMarks (.read xs :: .marked :: h) := by
  constructor
  · intro p ys hp
    match p with
    | 0 => rfl
    | 1 => cases hp
    | p + 2 => exact hh.marks (p := p) hp
  · intro p hp
    match p with
    | 0 => cases hp
    | 1 => exact ⟨0, xs, rfl, rfl⟩
    | p + 2 =>
      obtain ⟨q, ys, rfl, hq⟩ := hh.only (p := p) hp
      exact ⟨q + 2, ys, rfl, hq⟩

theorem readsThenMarks_of_round {rest : List (Op α ω)}
    (hrest : ∀ {t s' : ParetoSet α ω} {os}, (t.performAll rest).result = .ok (os, s') → ReadsThenMarks os)
    (cs : List α) :
    ∀ {s s' : ParetoSet α ω} {os}, (s.performAll (round cs ++ rest)).result = .ok (os, s') → ReadsThenMarks os := by
  induction cs with
  | nil =>
    intro s s' os ha
    obtain ⟨o, t, os', ho, ha, rfl⟩ := performAll_cons_eq_ok.mp ha
    cases ho
    obtain ⟨o, t, os'', ho, ha, rfl⟩ := performAll_cons_eq_ok.mp ha
    cases ho
    exact (hrest ha).cons_read _
  | cons c cs ih =>
    intro s s' os ha
    obtain ⟨o, t, os', ho, hlater, rfl⟩ := performAll_cons_eq_ok.mp ha
    obtain ⟨b, -, rfl⟩ := perform_add_eq_ok.mp ho
    cases b <;> exact (ih hlater).cons nofun nofun

theorem readsThenMarks_of_rounds (rounds : List (List α)) : ∀ {s s' : ParetoSet α ω} {os},
    (s.performAll (rounds.flatMap round)).result = .ok (os, s') → ReadsThenMarks os := by
  induction rounds with
  | nil =>
    intro s s' os ha
    cases ha
    exact readsThenMarks_nil
  | cons cs rounds ih => exact readsThenMarks_of_round ih cs

theorem mem_between {k p : Nat} {o : Outcome α} :
    o ∈ (h.take p).drop (k + 1) ↔ ∃ i, k < i ∧ i < p ∧ h[i]? = some o := by
  rw [List.mem_iff_getElem?]
  constructor
  · rintro ⟨j, hj⟩
    rw [List.getElem?_drop] at hj
    have hlt : k + 1 + j < p := by
      by_contra hge
      rw [List.getElem?_take_eq_none (Nat.not_lt.mp hge)] at hj
      cases hj
    rw [List.getElem?_take_of_lt hlt] at hj
    exact ⟨k + 1 + j, by omega, hlt, hj⟩
  · rintro ⟨i, hki, hip, hi⟩
    refine ⟨i - (k + 1), ?_⟩
    have hsum : k + 1 + (i - (k + 1)) = i := by omega
    rw [List.getElem?_drop, hsum, List.getElem?_take_of_lt hip, hi]

/-- What was there for one read is behind the mark for every later one. -/
theorem ReadsThenMarks.not_readAt_later (hh : ReadsThenMarks h) {k p q : Nat} (hp : ReadAt better h p k) (hpq : p < q) :
    ¬ ReadAt better h q k := by
  rintro ⟨⟨ys, hq⟩, d, hd⟩
  obtain ⟨⟨xs, hxs⟩, c, hc⟩ := hp
  have hmark : h[p + 1]? = some .marked := hh.marks hxs
  have hne : p + 1 ≠ q := by
    rintro rfl
    cases hmark.symm.trans hq
  have hk : k < p := by
    have := lt_of_insertion (List.mem_filter.mp (mem_since.mp hc).1).1
    rw [List.length_take] at this
    omega
  -- the mark that follows the one read lies between the value and the other
  have hbetween : .marked ∈ (h.take q).drop (k + 1) := mem_between.mpr ⟨p + 1, by omega, by omega, hmark⟩
  cases (mem_since.mp hd).2 _ hbetween

theorem ReadsThenMarks.readAt_unique (hh : ReadsThenMarks h) {k p q : Nat} (hp : ReadAt better h p k)
    (hq : ReadAt better h q k) : p = q := by
  rcases Nat.lt_trichotomy p q with hlt | rfl | hlt
  · exact absurd hq (hh.not_readAt_later hp hlt)
  · rfl
  · exact absurd hp (hh.not_readAt_later hq hlt)

/-- The first read after a value came in gives it, if it is still there. -/
theorem ReadsThenMarks.readAt_first (hh : ReadsThenMarks h) {k p : Nat} {c : α} {xs : List α}
    (hp : h[p]? = some (.read xs)) (hfirst : ∀ q, k < q → q < p → ∀ ys, h[q]? ≠ some (.read ys))
    (hc : (k, c) ∈ present better (h.take p)) : ReadAt better h p k := by
  refine ⟨⟨xs, hp⟩, c, mem_since.mpr ⟨hc, fun o ho => ?_⟩⟩
  obtain ⟨hk, hspared⟩ := mem_present.mp hc
  obtain ⟨i, hki, hip, hi⟩ := mem_between.mp ho
  cases o with
  | marked =>
    -- the mark was set for a read, which is not this early
    obtain ⟨q, ys, rfl, hq⟩ := hh.only hi
    have hne : k ≠ q := by
      rintro rfl
      rw [List.getElem?_take_of_lt (by omega), hq] at hk
      cases hk
    exact absurd hq (hfirst q (by omega) (by omega) ys)
  | cleared => cases hspared _ ho
  | letIn | keptOut | asked | listenerSet | read => rfl

/-- Through any operations the mark stays within the set, and what is read since it are the members that came in after
it was set, in order. Read in rounds, a value comes up once at most, and once if it is still there when its round is
read. -/
theorem addedSinceMark_is_read_once (hadv : Computes adv better) (tell : Listener α ω) :
    (∀ ops : List (Op α ω),
      ((∀ a b, ∃ v, adv a b = .ok v) → (∀ e, (tell e).result = .ok ()) →
        (∀ listener, .setListener listener ∈ ops → ∀ e, (listener e).result = .ok ()) →
        ∃ r, ((empty adv tell).performAll ops).result = .ok r) ∧
      (empty adv tell).indexed.performAll ops =
        (fun (os, s) => (os, s.indexed)) <$> (empty adv tell).performAll ops ∧
      ∀ os s, ((empty adv tell).performAll ops).result = .ok (os, s) →
        s.indexed.elements = (present better os).map (·.2) ∧ s.indexed.since = .ok ((since better os).map (·.2)) ∧
        (since better os).Pairwise (·.1 < ·.1) ∧
        ∀ p xs, os[p]? = some (.read xs) → xs = (since better (os.take p)).map (·.2)) ∧
    ∀ (rounds : List (List α)) os s, ((empty adv tell).performAll (rounds.flatMap round)).result = .ok (os, s) →
      (∀ k p q, ReadAt better os p k → ReadAt better os q k → p = q) ∧
      ∀ k c p xs, os[p]? = some (.read xs) → (∀ q, k < q → q < p → ∀ ys, os[q]? ≠ some (.read ys)) →
        (k, c) ∈ present better (os.take p) → ∀ q, ReadAt better os q k ↔ q = p := by
  constructor
  · intro ops
    refine ⟨performAll_answers (s := empty adv tell) ops hadv, performAll_indexed ops _, fun os s ha => ?_⟩
    have hs : Follows better os s := by
      have := performAll_follows ops (follows_empty adv tell) hadv ha
      rwa [List.nil_append] at this
    refine ⟨hs.members, ?_, since_inOrder better os, fun p xs hp => read_of_performAll hadv ha hp⟩
    rw [since_indexed, hs.fresh]
  · intro rounds os s ha
    have hrounds : ReadsThenMarks os := readsThenMarks_of_rounds rounds ha
    refine ⟨fun k p q hp hq => hrounds.readAt_unique hp hq, fun k c p xs hp hfirst hc q => ?_⟩
    have hown : ReadAt better os p k := hrounds.readAt_first hp hfirst hc
    constructor
    · intro hq
      exact hrounds.readAt_unique hq hown
    · rintro rfl
      exact hown

/-- The second round drops a value from before the mark and one from after it. What is read of it are the two others
that came in, and each value that is read comes up in its own round. -/
theorem addedSinceMark_is_read_once_two_rounds :
    let better (l r : Nat × Nat) : Bool := l.1 < r.1 || l.2 < r.2
    let adv : Advantage (Nat × Nat) := fun l r => .ok (better l r)
    let s₀ : ParetoSet (Nat × Nat) Unit := .empty adv silent
    let ops : List (Op (Nat × Nat) Unit) := [[(3, 3), (1, 5)], [(2, 4), (5, 1), (2, 2)]].flatMap round
    let os : List (Outcome (Nat × Nat)) := [.letIn (3, 3), .letIn (1, 5), .read [(3, 3), (1, 5)], .marked,
      .letIn (2, 4), .letIn (5, 1), .letIn (2, 2), .read [(5, 1), (2, 2)], .marked]
    ∃ s, (s₀.performAll ops).result = .ok (os, s) ∧ s.indexed.elements = [(1, 5), (5, 1), (2, 2)] ∧
      s.indexed.since = .ok [] ∧ (∀ q, ReadAt better os q 0 ↔ q = 2) ∧ ∀ q, ReadAt better os q 5 ↔ q = 7 := by
  intro better adv s₀ ops os
  have hadv : Computes adv better := by
    intro l r b h
    cases h
    rfl
  obtain ⟨⟨os', s⟩, ha⟩ := ((addedSinceMark_is_read_once hadv silent).1 ops).1 (fun a b => ⟨better a b, rfl⟩)
    (fun _ => rfl) (fun _ hset => absurd hset (by simp [ops, round]))
  have hos : os' = os := by
    have hrun : (s₀.performAll ops).result.map (·.1) = .ok os := by decide +kernel
    rw [ha] at hrun
    exact Except.ok.inj hrun
  subst hos
  obtain ⟨hmembers, hsince, -⟩ := ((addedSinceMark_is_read_once hadv silent).1 ops).2.2 _ _ ha
  obtain ⟨-, hown⟩ := (addedSinceMark_is_read_once hadv silent).2 _ _ _ ha
  refine ⟨s, ha, hmembers.trans (by decide), hsince.trans (by decide), hown 0 (3, 3) 2 _ rfl ?_ (by decide),
    hown 5 (5, 1) 7 _ rfl ?_ (by decide)⟩
  · intro q h h'
    have hq : q = 1 := by omega
    subst hq
    nofun
  · intro q h h'
    have hq : q = 6 := by omega
    subst hq
    nofun

end ParetoSet

end TransitSearch
