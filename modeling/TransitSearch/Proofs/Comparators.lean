/-
  TransitSearch.Proofs.Comparators — the comparisons of journeys and of arrivals.

  Both say "better on some axis" for a fixed list of axes on each of which less is better
  (`covers_iff`), so being nowhere beaten is a preorder (`lawful`), whatever the criteria,
  the direction or the rule. Journeys are compared on their exact length here; the
  comparison that runs answers the same wherever it answers, and it answers wherever the
  two lengths are in range (`advantage_answers`).

  `addAll_leaves_front` puts this together with the front: a set under any lawful
  comparison, and so one of journeys or of arrivals, is left by any list of offers with
  the front of the list, and offers in another order leave the same criteria.
-/

import TransitSearch.Arrival
import TransitSearch.Journey.Order
import TransitSearch.Proofs.ParetoSet.Front

namespace TransitSearch

open Pareto

namespace Journey

/-- The exact duration, in range or not. -/
def span (j : Journey) : Int := j.endTime - j.startTime

theorem duration_eq_ok {j : Journey} {d : Int} : j.duration = .ok d ↔ Checked.Fits j.span ∧ d = j.span :=
  Checked.sub_ok_iff

theorem duration_fault {j : Journey} {e : Fault} (h : j.duration = .error e) :
    e = .subOverflow ∧ ¬ Checked.Fits j.span := by
  unfold duration Checked.sub Checked.fit at h
  split at h
  · cases h
  · rename_i hfits
    cases h
    exact ⟨rfl, hfits⟩

namespace Order

variable {order : Journey.Order} {l r : Journey}

/-- The comparison of journeys on their exact spans. -/
def better (order : Journey.Order) (l r : Journey) : Bool :=
  order.betterTime l r || l.transfers < r.transfers || l.span < r.span ||
    order.criteria.tracksCost && l.cost < r.cost || order.criteria.tracksIteration && order.betterIteration l r

/-- The time that counts, the less the better: the arrival, or in reverse the departure turned round. -/
def timeKey (order : Journey.Order) (j : Journey) : Int :=
  match order.direction with
  | .forward => j.endTime
  | .reverse => -j.startTime

/-- The departure of the iteration, turned so that less is better. -/
def iterationKey (order : Journey.Order) (j : Journey) : Int :=
  match order.direction with
  | .forward => -j.iteration
  | .reverse => j.iteration

theorem betterTime_iff : order.betterTime l r = true ↔ order.timeKey l < order.timeKey r := by
  unfold betterTime timeKey
  cases order.direction <;> simp

theorem betterIteration_iff : order.betterIteration l r = true ↔ order.iterationKey l < order.iterationKey r := by
  unfold betterIteration iterationKey
  cases order.direction <;> simp

theorem covers_iff : Covers order.better l r ↔
    order.timeKey l ≤ order.timeKey r ∧ l.transfers ≤ r.transfers ∧ l.span ≤ r.span ∧
      (order.criteria.tracksCost = true → l.cost ≤ r.cost) ∧
      (order.criteria.tracksIteration = true → order.iterationKey l ≤ order.iterationKey r) := by
  have ht : order.betterTime r l = false ↔ order.timeKey l ≤ order.timeKey r := by
    rw [← Bool.not_eq_true, betterTime_iff, Int.not_lt]
  have hi : order.betterIteration r l = false ↔ order.iterationKey l ≤ order.iterationKey r := by
    rw [← Bool.not_eq_true, betterIteration_iff, Int.not_lt]
  simp only [Covers, better, Bool.or_eq_false_iff, Bool.and_eq_false_imp, decide_eq_false_iff_not, Int.not_lt,
    Nat.not_lt, ht, hi, and_assoc]

/-- `l` is at least as good as `r` on every axis that counts. -/
structure AsGood (order : Journey.Order) (l r : Journey) : Prop where
  forward : order.direction = .forward → l.endTime ≤ r.endTime
  reverse : order.direction = .reverse → r.startTime ≤ l.startTime
  transfers : l.transfers ≤ r.transfers
  duration : l.span ≤ r.span
  cost : order.criteria.tracksCost = true → l.cost ≤ r.cost
  /-- A later iteration is the better one, in reverse an earlier one. -/
  forwardIteration : order.criteria.tracksIteration = true → order.direction = .forward → r.iteration ≤ l.iteration
  reverseIteration : order.criteria.tracksIteration = true → order.direction = .reverse → l.iteration ≤ r.iteration

theorem covers_iff_asGood : Covers order.better l r ↔ order.AsGood l r := by
  rw [covers_iff]
  unfold timeKey iterationKey
  constructor
  · rintro ⟨htime, htransfers, hspan, hcost, hiteration⟩
    refine ⟨fun hdir => ?_, fun hdir => ?_, htransfers, hspan, hcost, fun htracks hdir => ?_, fun htracks hdir => ?_⟩
    · simpa only [hdir] using htime
    · simpa only [hdir, Int.neg_le_neg_iff] using htime
    · simpa only [hdir, Int.neg_le_neg_iff] using hiteration htracks
    · simpa only [hdir] using hiteration htracks
  · rintro ⟨hforward, hreverse, htransfers, hspan, hcost, hforwardIteration, hreverseIteration⟩
    cases hdir : order.direction with
    | forward => exact ⟨hforward hdir, htransfers, hspan, hcost,
        fun htracks => Int.neg_le_neg (hforwardIteration htracks hdir)⟩
    | reverse => exact ⟨Int.neg_le_neg (hreverse hdir), htransfers, hspan, hcost,
        fun htracks => hreverseIteration htracks hdir⟩

theorem lawful (order : Journey.Order) : Lawful order.better where
  refl a := covers_iff.mpr (by simp)
  trans hab hbc := by
    obtain ⟨ht, hn, hs, hc, hi⟩ := covers_iff.mp hab
    obtain ⟨ht', hn', hs', hc', hi'⟩ := covers_iff.mp hbc
    exact covers_iff.mpr ⟨Int.le_trans ht ht', Nat.le_trans hn hn', Int.le_trans hs hs',
      fun h => Int.le_trans (hc h) (hc' h), fun h => Int.le_trans (hi h) (hi' h)⟩

theorem advantage_computes (order : Journey.Order) : Computes order.advantage order.better := by
  intro l r b hb
  unfold advantage at hb
  split at hb
  · rename_i hfast
    rw [← pure_eq_ok.mp hb]
    simp [better, hfast]
  · rename_i hfast
    simp only [bind_eq_ok, duration_eq_ok] at hb
    obtain ⟨_, ⟨-, rfl⟩, _, ⟨-, rfl⟩, hb⟩ := hb
    rw [← pure_eq_ok.mp hb]
    simp only [Bool.not_eq_true] at hfast
    simp [better, hfast]

theorem advantage_answers (hl : Checked.Fits l.span) (hr : Checked.Fits r.span) : ∃ b, order.advantage l r = .ok b := by
  unfold advantage
  split
  · exact ⟨true, rfl⟩
  · simp only [bind_eq_ok, duration_eq_ok]
    exact ⟨_, _, ⟨hl, rfl⟩, _, ⟨hr, rfl⟩, rfl⟩

theorem advantage_fault {e : Fault} (h : order.advantage l r = .error e) :
    e = .subOverflow ∧ (¬ Checked.Fits l.span ∨ ¬ Checked.Fits r.span) := by
  unfold advantage at h
  split at h
  · cases h
  · cases hl : l.duration with
    | error fault =>
      rw [hl] at h
      cases h
      obtain ⟨rfl, hfits⟩ := duration_fault hl
      exact ⟨rfl, Or.inl hfits⟩
    | ok left =>
      cases hr : r.duration with
      | error fault =>
        rw [hl, hr] at h
        cases h
        obtain ⟨rfl, hfits⟩ := duration_fault hr
        exact ⟨rfl, Or.inr hfits⟩
      | ok right =>
        rw [hl, hr] at h
        cases h

end Order

end Journey

namespace ArrivalRule

variable {rule : ArrivalRule} {l r : Snapshot}

theorem covers_iff : Covers rule.better l r ↔
    l.time ≤ r.time ∧ l.paretoRound ≤ r.paretoRound ∧ l.cost ≤ r.cost ∧
      (rule = .timeRoundCostAndOnBoard → r.onBoard = true → l.onBoard = true) := by
  cases rule <;>
    simp [Covers, better, Snapshot.betterSomewhere, and_assoc]

theorem lawful (rule : ArrivalRule) : Lawful rule.better where
  refl a := covers_iff.mpr (by simp)
  trans hab hbc := by
    obtain ⟨ht, hp, hc, ho⟩ := covers_iff.mp hab
    obtain ⟨ht', hp', hc', ho'⟩ := covers_iff.mp hbc
    exact covers_iff.mpr ⟨Int.le_trans ht ht', Nat.le_trans hp hp', Int.le_trans hc hc',
      fun h hr => ho h (ho' h hr)⟩

theorem advantage_computes (rule : ArrivalRule) : Computes rule.advantage rule.better := fun hb => by cases hb; rfl

end ArrivalRule

/-! ## What a set keeps -/

/-- An empty set that is offered `xs`, in any order, answers every offer and keeps its front. -/
def KeepsFront {α : Type} (adv : Advantage α) (better : α → α → Bool) (xs : List α) : Prop :=
  ∀ {ω : Type} (s : ParetoSet α ω), s.advantage = adv → s.members = [] → (∀ e, (s.listener e).result = .ok ()) →
    ∃ s', (s.addAll xs).result = .ok s' ∧ IsFront better xs s'.members ∧
      ∀ ys, ys.Perm xs → ∃ t, (s.addAll ys).result = .ok t ∧
        ∀ m ∈ s'.members, ∃! n, n ∈ t.members ∧ equivalent better m n = true

theorem keepsFront_of_lawful {α : Type} {adv : Advantage α} {better : α → α → Bool} (h : Computes adv better)
    (law : Lawful better) {xs : List α} (hans : ∀ a ∈ xs, ∀ b ∈ xs, ∃ v, adv a b = .ok v) :
    KeepsFront adv better xs := by
  intro ω s hadv hempty hl
  subst hadv
  have run : ∀ ys, ys.Perm xs → ∃ t, (s.addAll ys).result = .ok t ∧ IsFront better ys t.members := by
    intro ys hp
    obtain ⟨t, ht⟩ := ParetoSet.addAll_answers ys [] h hl (by simp [hempty])
      fun a ha b hb => hans a (hp.mem_iff.mp ha) b (hp.mem_iff.mp hb)
    have hs : IsFront better [] s.members := by rw [hempty]; exact isFront_nil
    exact ⟨t, ht, ParetoSet.members_of_addAll law ys [] h hs ht⟩
  obtain ⟨s', hs', hf⟩ := run xs (.refl xs)
  refine ⟨s', hs', hf, fun ys hp => ?_⟩
  obtain ⟨t, ht, hg⟩ := run ys hp
  exact ⟨t, ht, hf.perm law hg hp⟩

/-- What any list of offers leaves in an empty set, for any lawful comparison and for the two of this library. -/
theorem addAll_leaves_front :
    (∀ {α : Type} {adv : Advantage α} {better : α → α → Bool}, Computes adv better → Lawful better →
      ∀ xs, (∀ a ∈ xs, ∀ b ∈ xs, ∃ v, adv a b = .ok v) → KeepsFront adv better xs) ∧
    (∀ (order : Journey.Order) (xs : List Journey), (∀ j ∈ xs, Checked.Fits j.span) →
      Lawful order.better ∧ KeepsFront order.advantage order.better xs) ∧
    ∀ (rule : ArrivalRule) (xs : List Snapshot), Lawful rule.better ∧ KeepsFront rule.advantage rule.better xs := by
  refine ⟨fun h law _ hans => keepsFront_of_lawful h law hans, fun order xs hxs => ?_, fun rule xs => ?_⟩
  · refine ⟨order.lawful, keepsFront_of_lawful order.advantage_computes order.lawful fun a ha b hb => ?_⟩
    exact Journey.Order.advantage_answers (hxs a ha) (hxs b hb)
  · exact ⟨rule.lawful, keepsFront_of_lawful rule.advantage_computes rule.lawful fun _ _ _ _ => ⟨_, rfl⟩⟩

/-- A later journey drops the first, an equivalent one is turned away, and a trade-off stays. -/
theorem addAll_leaves_front_four :
    let order : Journey.Order := ⟨.standard, .forward⟩
    let a := Journey.summary 0 0 500 1 0
    let b := Journey.summary 0 0 400 1 0
    let c := Journey.summary 0 0 300 2 0
    let d := Journey.summary 7 0 400 1 9
    let s : ParetoSet Journey Unit := .empty order.advantage ParetoSet.silent
    (∀ j ∈ [a, b, c, d], Checked.Fits j.span) ∧
      (∃ s', (s.addAll [a, b, c, d]).result = .ok s' ∧ s'.members = [b, c]) ∧
      ∃ s', (s.addAll [d, c, b]).result = .ok s' ∧ s'.members = [d, c] := by
  intro order a b c d s
  refine ⟨by decide, ?_, ?_⟩
  · obtain ⟨s', hs, hf, -⟩ := (addAll_leaves_front.2.1 order [a, b, c, d] (by decide)).2 s rfl rfl fun _ => rfl
    exact ⟨s', hs, hf.eq_front.trans (by decide)⟩
  · obtain ⟨s', hs, hf, -⟩ := addAll_leaves_front.1 order.advantage_computes order.lawful [d, c, b]
      (fun x hx y hy => Journey.Order.advantage_answers ((by decide : ∀ j ∈ [d, c, b], Checked.Fits j.span) x hx)
        ((by decide : ∀ j ∈ [d, c, b], Checked.Fits j.span) y hy)) s rfl rfl fun _ => rfl
    exact ⟨s', hs, hf.eq_front.trans (by decide)⟩

end TransitSearch
