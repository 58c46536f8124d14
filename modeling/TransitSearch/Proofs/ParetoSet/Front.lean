/-
  TransitSearch.Proofs.ParetoSet.Front — a pareto set keeps the front of what it was offered.

  `front better xs` is said of the whole list at once: the entries that no entry, earlier
  or later, dominates and to which no earlier entry is equivalent. The set sees one value
  at a time and forgets those it turned away. For a comparison under which being nowhere
  beaten (`Covers`) is reflexive and transitive (`Lawful`) the two agree:
  - `IsFront.offer`: one offer keeps the members the front of the values so far, any two
    of them a trade-off, and every value so far covered by one of them.
  - `blocker_eq_none_iff`: among trade-offs the scan lets a candidate in exactly when it
    beats every member somewhere. A later member cannot have been passed over: it would
    cover the candidate, and through it the member that decided.
  - `members_of_addAll`: so the members after any list of offers are its front.
  - `IsFront.perm`: offered in another order the values leave the same criteria.
-/

import Mathlib.Data.List.Induction
import Mathlib.Data.List.Pairwise
import TransitSearch.Proofs.ParetoSet.Verdict

namespace TransitSearch

namespace Pareto

variable {α : Type} (better : α → α → Bool)

/-- `a` is nowhere beaten by `b`. -/
def Covers (a b : α) : Prop := better b a = false

/-- Being nowhere beaten is a preorder. -/
structure Lawful : Prop where
  refl (a : α) : Covers better a a
  trans {a b c : α} : Covers better a b → Covers better b c → Covers better a c

/-- No entry of `all` dominates `v`, and none of `earlier` is equivalent to it. -/
def stays (all earlier : List α) (v : α) : Bool :=
  !all.any (dominates better · v) && !earlier.any (equivalent better · v)

/-- The entries that no entry dominates and no earlier entry is equivalent to, in order. -/
def front (xs : List α) : List α := (xs.zipIdx.filter fun (v, i) => stays better xs (xs.take i) v).map (·.1)

/-- Each is better than the other somewhere. -/
def TradeOff (a b : α) : Prop := better a b = true ∧ better b a = true

/-- What an offer makes of members of which any two are a trade-off. -/
def offer (ms : List α) (c : α) : List α := if ms.all (better c ·) then undominated better c ms ++ [c] else ms

/-- `ms` is what is left of `xs`. -/
structure IsFront (xs ms : List α) : Prop where
  eq_front : ms = front better xs
  apart : ms.Pairwise (TradeOff better)
  covered : ∀ v ∈ xs, ∃ m ∈ ms, Covers better m v

variable {better}

/-! ## Basics -/

theorem dominates_iff {l r : α} : dominates better l r = true ↔ better l r = true ∧ Covers better l r := by
  simp [dominates, Covers]

theorem equivalent_iff {l r : α} : equivalent better l r = true ↔ Covers better r l ∧ Covers better l r := by
  simp [equivalent, Covers]

theorem mem_undominated {c m : α} {ms : List α} :
    m ∈ undominated better c ms ↔ m ∈ ms ∧ dominates better c m = false := by
  simp [undominated]

theorem stays_snoc (xs earlier : List α) (c v : α) :
    stays better (xs ++ [c]) earlier v = (stays better xs earlier v && !dominates better c v) := by
  simp only [stays, List.any_append, List.any_cons, List.any_nil, Bool.or_false, Bool.not_or, Bool.and_right_comm]

theorem stays_last (law : Lawful better) (xs : List α) (c : α) :
    stays better (xs ++ [c]) xs c = xs.all (better c ·) := by
  have hc : dominates better c c = false := by
    have := law.refl c
    simp_all [dominates, Covers]
  rw [stays_snoc, hc, stays]
  induction xs with
  | nil => rfl
  | cons x rest ih =>
    simp only [List.any_cons, List.all_cons, Bool.not_or, ← ih, dominates, equivalent]
    cases better x c <;> cases better c x <;> simp

/-- The front grows at the end and loses what the new entry dominates. -/
theorem front_snoc (law : Lawful better) (xs : List α) (c : α) :
    front better (xs ++ [c]) = undominated better c (front better xs) ++ if xs.all (better c ·) then [c] else [] := by
  have old : (xs.zipIdx.filter fun (v, i) => stays better (xs ++ [c]) ((xs ++ [c]).take i) v) =
      (xs.zipIdx.filter fun (v, i) => stays better xs (xs.take i) v).filter fun (v, _) => !dominates better c v := by
    rw [List.filter_filter]
    refine List.filter_congr fun (v, i) hv => ?_
    have hi : i ≤ xs.length := by
      have := (List.mem_zipIdx hv).2.1
      omega
    simp only [List.take_append_of_le_length hi, stays_snoc, Bool.and_comm]
  simp only [front, List.zipIdx_append, List.filter_append, List.map_append, old]
  congr 1
  · rw [undominated, List.filter_map]
    rfl
  · simp only [List.zipIdx_cons, List.zipIdx_nil, Nat.zero_add, List.filter_cons, List.filter_nil, List.take_left,
      stays_last law]
    split <;> rfl

theorem front_subset {xs : List α} {v : α} (hv : v ∈ front better xs) : v ∈ xs := by
  obtain ⟨⟨w, i⟩, hw, rfl⟩ := List.mem_map.mp hv
  exact List.fst_mem_of_mem_zipIdx (List.mem_filter.mp hw).1

theorem front_undominated {xs : List α} {v w : α} (hv : v ∈ front better xs) (hw : w ∈ xs) :
    dominates better w v = false := by
  obtain ⟨⟨u, i⟩, hu, rfl⟩ := List.mem_map.mp hv
  have hstays := (List.mem_filter.mp hu).2
  simp only [stays, Bool.and_eq_true, Bool.not_eq_true', List.any_eq_false] at hstays
  exact Bool.eq_false_iff.mpr (hstays.1 w hw)

theorem equivalent_of_front {xs : List α} {v w : α} (hv : v ∈ front better xs) (hw : w ∈ xs)
    (h : Covers better w v) : equivalent better v w = true := by
  have hdom := front_undominated hv hw
  rw [dominates, h, Bool.not_false, Bool.and_true] at hdom
  exact equivalent_iff.mpr ⟨h, hdom⟩

instance : Std.Symm (TradeOff better) := ⟨fun _ _ h => ⟨h.2, h.1⟩⟩

theorem eq_of_covers {ms : List α} (apart : ms.Pairwise (TradeOff better)) {a b : α} (ha : a ∈ ms) (hb : b ∈ ms)
    (h : Covers better a b) : a = b := by
  by_contra hne
  have hba := (apart.forall ha hb hne).2
  rw [h] at hba
  cases hba

/-! ## One offer -/

theorem isFront_nil : IsFront better [] [] := ⟨rfl, .nil, fun _ hv => by cases hv⟩

theorem IsFront.all_better (law : Lawful better) {xs ms : List α} (h : IsFront better xs ms) (c : α) :
    ms.all (better c ·) = xs.all (better c ·) := by
  rw [Bool.eq_iff_iff, List.all_eq_true, List.all_eq_true]
  constructor
  · intro hms v hv
    by_contra hcv
    obtain ⟨m, hm, hmv⟩ := h.covered v hv
    have hvc : Covers better v c := Bool.eq_false_iff.mpr hcv
    have hmc : better c m = false := law.trans hmv hvc
    rw [hms m hm] at hmc
    cases hmc
  · intro hxs m hm
    rw [h.eq_front] at hm
    exact hxs m (front_subset hm)

theorem IsFront.offer (law : Lawful better) {xs ms : List α} (h : IsFront better xs ms) (c : α) :
    IsFront better (xs ++ [c]) (Pareto.offer better ms c) := by
  unfold Pareto.offer
  split
  · rename_i hc
    refine ⟨?_, ?_, ?_⟩
    · rw [front_snoc law, ← h.eq_front, ← h.all_better law, if_pos hc]
    · rw [List.pairwise_append]
      refine ⟨h.apart.sublist List.filter_sublist, List.pairwise_singleton _ _, fun m hm d hd => ?_⟩
      rw [List.mem_singleton] at hd
      subst hd
      obtain ⟨hm, hdom⟩ := mem_undominated.mp hm
      have hcm := List.all_eq_true.mp hc m hm
      simp only [dominates, hcm, Bool.true_and, Bool.not_eq_false'] at hdom
      exact ⟨hdom, hcm⟩
    · intro v hv
      rcases List.mem_append.mp hv with hv | hv
      · obtain ⟨m, hm, hmv⟩ := h.covered v hv
        cases hdom : dominates better c m with
        | true => exact ⟨c, by simp, law.trans (dominates_iff.mp hdom).2 hmv⟩
        | false => exact ⟨m, List.mem_append_left _ (mem_undominated.mpr ⟨hm, hdom⟩), hmv⟩
      · rw [List.mem_singleton] at hv
        subst hv
        exact ⟨v, by simp, law.refl v⟩
  · rename_i hc
    -- some member covers the candidate, so the candidate dominates none
    obtain ⟨m, hm, hmc⟩ : ∃ m ∈ ms, Covers better m c := by simpa [Covers] using hc
    refine ⟨?_, h.apart, ?_⟩
    · have hnone : undominated better c ms = ms := by
        refine List.filter_eq_self.mpr fun n hn => ?_
        by_contra hcn
        obtain ⟨hbeats, hcov⟩ := dominates_iff.mp (by simpa using hcn)
        have hmn : m = n := eq_of_covers h.apart hm hn (law.trans hmc hcov)
        subst hmn
        rw [Covers, hbeats] at hmc
        cases hmc
      rw [front_snoc law, ← h.eq_front, ← h.all_better law, if_neg hc, hnone, List.append_nil]
    · intro v hv
      rcases List.mem_append.mp hv with hv | hv
      · exact h.covered v hv
      · rw [List.mem_singleton] at hv
        subst hv
        exact ⟨m, hm, hmc⟩

theorem blocker_eq_none_iff (law : Lawful better) {ms : List α} (apart : ms.Pairwise (TradeOff better)) (c : α) :
    blocker better c ms = none ↔ ms.all (better c ·) = true := by
  rw [List.all_eq_true]
  unfold blocker
  constructor
  · intro h m hm
    by_contra hcm
    have hmc : Covers better m c := Bool.eq_false_iff.mpr hcm
    split at h
    · rename_i d hd
      have hdm : d ∈ ms := List.mem_of_find?_eq_some hd
      have hside : oneSided better c d = true := List.find?_some (p := oneSided better c) hd
      cases hcd : better c d with
      | false => simp [hcd] at h
      | true =>
        -- `d` let the candidate in, and `m` covers the candidate, hence `d`
        have hcov : Covers better c d := by simpa [oneSided, hcd, Covers] using hside
        have hmd : m = d := eq_of_covers apart hm hdm (law.trans hmc hcov)
        rw [hmd, Covers, hcd] at hmc
        cases hmc
    · rename_i hd
      have hside := List.find?_eq_none.mp hd m hm
      have hequal := List.find?_eq_none.mp h m hm
      simp_all [oneSided, equivalent, Covers]
  · intro h
    split
    · rename_i d hd
      rw [if_pos (h d (List.mem_of_find?_eq_some hd))]
    · refine List.find?_eq_none.mpr fun m hm => ?_
      simp [equivalent, h m hm]

/-! ## Any order -/

/-- Offered in another order, the values leave one member for each, with the same criteria. -/
theorem IsFront.perm (law : Lawful better) {xs ys ms ns : List α} (hx : IsFront better xs ms)
    (hy : IsFront better ys ns) (hp : ys.Perm xs) :
    ∀ m ∈ ms, ∃! n, n ∈ ns ∧ equivalent better m n = true := by
  intro m hm
  have hmx : m ∈ xs := front_subset (hx.eq_front ▸ hm)
  obtain ⟨n, hn, hnm⟩ := hy.covered m (hp.mem_iff.mpr hmx)
  have hnx : n ∈ xs := hp.mem_iff.mp (front_subset (hy.eq_front ▸ hn))
  obtain ⟨m', hm', hmn⟩ := hx.covered n hnx
  have hmm : m' = m := eq_of_covers hx.apart hm' hm (law.trans hmn hnm)
  subst hmm
  refine ⟨n, ⟨hn, equivalent_iff.mpr ⟨hnm, hmn⟩⟩, fun k ⟨hk, hmk⟩ => ?_⟩
  exact eq_of_covers hy.apart hk hn (law.trans (equivalent_iff.mp hmk).1 hmn)

end Pareto

open Pareto

namespace ParetoSet

variable {α ω : Type} {better : α → α → Bool}

/-! ## Lists of offers -/

/-- Offers the values one after the other. -/
def addAll (s : ParetoSet α ω) : List α → Run ω (ParetoSet α ω)
  | [] => pure s
  | c :: rest => do
    let (_, s) ← s.add c
    s.addAll rest

theorem members_of_add (law : Lawful better) {s s' : ParetoSet α ω} (h : Computes s.advantage better)
    (apart : s.members.Pairwise (TradeOff better)) {c : α} {b : Bool} (ha : (s.add c).result = .ok (b, s')) :
    s'.members = offer better s.members c ∧ b = s.members.all (better c ·) := by
  rcases add_of_result h ha with ⟨⟨m, hm⟩, rfl, rfl⟩ | ⟨hm, rfl, rfl⟩
  · have hall : s'.members.all (better c ·) = false := by
      cases hall : s'.members.all (better c ·) with
      | false => rfl
      | true => rw [(blocker_eq_none_iff law apart c).mpr hall] at hm; cases hm
    simp [offer, hall]
  · have hall := (blocker_eq_none_iff law apart c).mp hm
    simp [offer, hall]

/-- A set of trade-offs refuses what one of its members covers, and nothing else. -/
theorem refuses_iff_covered (law : Lawful better) {s : ParetoSet α ω} (h : Computes s.advantage better)
    (apart : s.members.Pairwise (TradeOff better)) {c : α} {b : Bool} (hb : s.qualify c = .ok b) :
    b = false ↔ ∃ m ∈ s.members, Covers better m c := by
  rw [qualify_of_result h hb, Option.isNone_eq_false_iff, ← Option.ne_none_iff_isSome, Ne,
    blocker_eq_none_iff law apart]
  simp [Covers]

theorem advantage_of_add {s s' : ParetoSet α ω} (h : Computes s.advantage better) {c : α} {b : Bool}
    (ha : (s.add c).result = .ok (b, s')) : s'.advantage = s.advantage ∧ s'.listener = s.listener := by
  rcases add_of_result h ha with ⟨-, -, rfl⟩ | ⟨-, -, rfl⟩ <;> exact ⟨rfl, rfl⟩

theorem members_of_addAll (law : Lawful better) (ys : List α) : ∀ {s s' : ParetoSet α ω} (xs : List α),
    Computes s.advantage better → IsFront better xs s.members → (s.addAll ys).result = .ok s' →
      IsFront better (xs ++ ys) s'.members := by
  induction ys with
  | nil =>
    intro s s' xs _ hs ha
    cases ha
    simpa using hs
  | cons c rest ih =>
    intro s s' xs h hs ha
    obtain ⟨⟨b, t⟩, hb, ht⟩ := Run.result_bind_eq_ok.mp ha
    have hm := (members_of_add law h hs.apart hb).1
    have hadv := (advantage_of_add h hb).1
    have := ih (xs ++ [c]) (by rwa [hadv]) (by rw [hm]; exact hs.offer law c) ht
    simpa using this

theorem addAll_answers (ys : List α) : ∀ {s : ParetoSet α ω} (xs : List α), Computes s.advantage better →
    (∀ e, (s.listener e).result = .ok ()) → (∀ m ∈ s.members, m ∈ xs) →
    (∀ a ∈ xs ++ ys, ∀ b ∈ xs ++ ys, ∃ v, s.advantage a b = .ok v) → ∃ s', (s.addAll ys).result = .ok s' := by
  induction ys with
  | nil =>
    intro s _ _ _ _ _
    exact ⟨s, rfl⟩
  | cons c rest ih =>
    intro s xs h hl hsub hans
    have hc : c ∈ xs ++ c :: rest := by simp
    obtain ⟨⟨b, t⟩, hb⟩ := add_answers (c := c) (fun e _ => hl e) fun m hm =>
      have hm' : m ∈ xs ++ c :: rest := List.mem_append_left _ (hsub m hm)
      ⟨hans c hc m hm', hans m hm' c hc⟩
    obtain ⟨hadv, hlis⟩ := advantage_of_add h hb
    have hsub' : ∀ m ∈ t.members, m ∈ xs ++ [c] := by
      intro m hm
      rcases add_of_result h hb with ⟨-, -, rfl⟩ | ⟨-, -, rfl⟩
      · exact List.mem_append_left _ (hsub m hm)
      · rw [accepting_members] at hm
        rcases List.mem_append.mp hm with hm | hm
        · exact List.mem_append_left _ (hsub m (mem_undominated.mp hm).1)
        · exact List.mem_append_right _ hm
    obtain ⟨s', hs'⟩ := ih (s := t) (xs ++ [c]) (by rwa [hadv]) (by rwa [hlis]) hsub' (by simpa [hadv] using hans)
    exact ⟨s', Run.result_bind_eq_ok.mpr ⟨(b, t), hb, hs'⟩⟩

end ParetoSet

end TransitSearch
