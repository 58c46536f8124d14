/-
  TransitSearch.Proofs.Criteria — with more criteria no journey is lost.

  Criteria that track every axis of others tell apart at least as many journeys
  (`Criteria.Within`). A journey kept under the fewer need not be kept under the more: an
  equal one may be cheaper, or come from a later iteration. But nothing is lost. Whatever is
  kept there in its place covers it under the more criteria, so also under the fewer, where
  nothing dominates it: the two are alike on every axis of the fewer (`more_criteria_lose_none`).
-/

import TransitSearch.Proofs.Comparators

namespace TransitSearch

open Pareto

/-- Every axis that `x` tracks is tracked by `y`. -/
def Criteria.Within (x y : Criteria) : Prop :=
  (x.tracksCost = true → y.tracksCost = true) ∧ (x.tracksIteration = true → y.tracksIteration = true)

instance (x y : Criteria) : Decidable (x.Within y) := inferInstanceAs (Decidable (_ ∧ _))

/-- The standard criteria are within all others, and all are within those with iteration and cost. -/
theorem Criteria.within_iff {x y : Criteria} : x.Within y ↔ x = y ∨ x = .standard ∨ y = .timetableWithCost := by
  cases x <;> cases y <;> decide

namespace Journey.Order

/-- The journeys are equal on every axis of the order. -/
structure Alike (order : Journey.Order) (a b : Journey) : Prop where
  forward : order.direction = .forward → a.endTime = b.endTime
  reverse : order.direction = .reverse → a.startTime = b.startTime
  transfers : a.transfers = b.transfers
  duration : a.span = b.span
  cost : order.criteria.tracksCost = true → a.cost = b.cost
  iteration : order.criteria.tracksIteration = true → a.iteration = b.iteration

variable {dir : Direction} {a b : Journey}

theorem alike_of_equivalent {order : Journey.Order} (h : equivalent order.better a b = true) : order.Alike a b := by
  obtain ⟨hba, hab⟩ := equivalent_iff.mp h
  obtain ⟨ht, hn, hs, hc, hi⟩ := covers_iff.mp hab
  obtain ⟨ht', hn', hs', hc', hi'⟩ := covers_iff.mp hba
  have htime : order.timeKey a = order.timeKey b := Int.le_antisymm ht ht'
  have hiteration (htracks : order.criteria.tracksIteration = true) : order.iterationKey a = order.iterationKey b :=
    Int.le_antisymm (hi htracks) (hi' htracks)
  unfold timeKey at htime
  unfold iterationKey at hiteration
  refine ⟨fun hdir => ?_, fun hdir => ?_, Nat.le_antisymm hn hn', Int.le_antisymm hs hs',
    fun htracks => Int.le_antisymm (hc htracks) (hc' htracks), fun htracks => ?_⟩
  · rw [hdir] at htime
    exact htime
  · rw [hdir] at htime
    exact Int.neg_inj.mp htime
  · have heq := hiteration htracks
    cases hdir : order.direction with
    | forward =>
      rw [hdir] at heq
      exact Int.neg_inj.mp heq
    | reverse =>
      rw [hdir] at heq
      exact heq

theorem covers_of_within {x y : Criteria} (h : x.Within y) (hab : Covers (Journey.Order.mk y dir).better a b) :
    Covers (Journey.Order.mk x dir).better a b := by
  obtain ⟨ht, hn, hs, hc, hi⟩ := covers_iff.mp hab
  exact covers_iff.mpr ⟨ht, hn, hs, fun htracks => hc (h.1 htracks), fun htracks => hi (h.2 htracks)⟩

end Journey.Order

theorem alike_in_front {x y : Criteria} (h : x.Within y) {dir : Direction} {offered kept kept' : List Journey}
    (hx : IsFront (Journey.Order.mk x dir).better offered kept)
    (hy : IsFront (Journey.Order.mk y dir).better offered kept') :
    ∀ j ∈ kept, ∃ k ∈ kept', (Journey.Order.mk x dir).Alike j k := by
  intro j hj
  rw [hx.eq_front] at hj
  obtain ⟨k, hk, hcovers⟩ := hy.covered j (front_subset hj)
  have hoffered : k ∈ offered := by
    rw [hy.eq_front] at hk
    exact front_subset hk
  refine ⟨k, hk, Journey.Order.alike_of_equivalent ?_⟩
  exact equivalent_of_front hj hoffered (Journey.Order.covers_of_within h hcovers)

/-- The same journeys, offered one after the other to two empty sets: for each journey that is kept under the fewer
criteria one is kept under the more that is equal to it on every axis of the fewer. -/
theorem more_criteria_lose_none {x y : Criteria} (h : x.Within y) (dir : Direction) {ω υ : Type}
    (listener : Listener Journey ω) (hl : ∀ e, (listener e).result = .ok ()) (listener' : Listener Journey υ)
    (hl' : ∀ e, (listener' e).result = .ok ()) (offered : List Journey) (hfits : ∀ j ∈ offered, Checked.Fits j.span) :
    ∃ s t, ((ParetoSet.empty (Journey.Order.mk x dir).advantage listener).addAll offered).result = .ok s ∧
      ((ParetoSet.empty (Journey.Order.mk y dir).advantage listener').addAll offered).result = .ok t ∧
      ∀ j ∈ s.members, ∃ k ∈ t.members, (Journey.Order.mk x dir).Alike j k := by
  have keeps (order : Journey.Order) : KeepsFront order.advantage order.better offered :=
    keepsFront_of_lawful order.advantage_computes order.lawful fun a ha b hb =>
      Journey.Order.advantage_answers (hfits a ha) (hfits b hb)
  obtain ⟨s, hs, hx, -⟩ := keeps ⟨x, dir⟩ (.empty _ listener) rfl rfl hl
  obtain ⟨t, ht, hy, -⟩ := keeps ⟨y, dir⟩ (.empty _ listener') rfl rfl hl'
  exact ⟨s, t, hs, ht, alike_in_front h hx hy⟩

/-- A journey kept for its arrival is found again in a later iteration, and cheaper. With iteration and cost tracked
both of these are kept and the first is not. -/
theorem more_criteria_lose_none_found_again :
    let first := Journey.summary 3600 4000 5000 0 50
    let later := Journey.summary 3660 4000 5000 0 50
    let cheaper := Journey.summary 3600 4000 5000 0 20
    let sooner := Journey.summary 3660 4000 4900 1 90
    let tell : Listener Journey Unit := ParetoSet.silent
    let kept (criteria : Criteria) := ((ParetoSet.empty (Journey.Order.mk criteria .forward).advantage tell).addAll
      [first, later, cheaper, sooner]).result
    ∃ s t, kept .standard = .ok s ∧ kept .timetableWithCost = .ok t ∧ s.members = [first, sooner] ∧
      t.members = [later, cheaper, sooner] ∧ ∃ k ∈ t.members, (Journey.Order.mk .standard .forward).Alike first k := by
  intro first later cheaper sooner tell kept
  have hwithin : Criteria.standard.Within .timetableWithCost := Criteria.within_iff.mpr (Or.inr (Or.inl rfl))
  obtain ⟨s, t, hs, ht, halike⟩ := more_criteria_lose_none hwithin .forward tell (fun _ => rfl) tell (fun _ => rfl)
    [first, later, cheaper, sooner] (by decide)
  have hfew : s.members = [first, sooner] := by
    cases hs
    rfl
  have hmore : t.members = [later, cheaper, sooner] := by
    cases ht
    rfl
  refine ⟨s, t, hs, ht, hfew, hmore, halike first ?_⟩
  rw [hfew]
  exact List.mem_cons_self

end TransitSearch
