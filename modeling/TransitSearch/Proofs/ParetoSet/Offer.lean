/-
  TransitSearch.Proofs.ParetoSet.Offer — an offer to a pareto set under any comparison.

  Nothing is asked of the comparison: it may be cyclic, or always true. The scan stops at
  the first member in a one-sided relation with the candidate (`Decides`), and the members
  behind that one play no part in the decision, though they may be dropped for it.
  - `blocker_isSome_iff`: a candidate is kept out when the member that decides dominates it,
    and where none decides, when some member is equivalent to it.
  - `offer_goes_by_first_one_sided`: what is answered, what is left of the members, and that
    a set asked beforehand says the same. A refusal leaves all as it was.
-/

import TransitSearch.Proofs.ParetoSet.Indexed
import TransitSearch.Proofs.ParetoSet.Journal

namespace TransitSearch

namespace Pareto

variable {α : Type} {better : α → α → Bool} {c m : α} {ms : List α}

/-- `m` is the first of the members of which just one of the two, it and `c`, is better than the other. -/
def Decides (better : α → α → Bool) (c m : α) (ms : List α) : Prop :=
  ∃ before after, ms = before ++ m :: after ∧ better c m ≠ better m c ∧ ∀ n ∈ before, better c n = better n c

theorem find?_oneSided_iff : ms.find? (oneSided better c) = some m ↔ Decides better c m ms := by
  rw [List.find?_eq_some_iff_append]
  constructor
  · rintro ⟨hside, before, after, hms, hbefore⟩
    exact ⟨before, after, hms, by simpa [oneSided] using hside, by simpa [oneSided] using hbefore⟩
  · rintro ⟨before, after, hms, hside, hbefore⟩
    exact ⟨by simpa [oneSided] using hside, before, after, hms, by simpa [oneSided] using hbefore⟩

theorem Decides.mem (h : Decides better c m ms) : m ∈ ms := by
  obtain ⟨before, after, rfl, -⟩ := h
  simp

theorem Decides.unique {d : α} (h : Decides better c m ms) (h' : Decides better c d ms) : m = d :=
  Option.some.inj ((find?_oneSided_iff.mpr h).symm.trans (find?_oneSided_iff.mpr h'))

theorem blocker_isSome_iff : (blocker better c ms).isSome ↔
    (∃ m, Decides better c m ms ∧ dominates better m c = true) ∨
      (∀ m ∈ ms, better c m = better m c) ∧ ∃ m ∈ ms, equivalent better c m = true := by
  unfold blocker
  cases hfind : ms.find? (oneSided better c) with
  | some d =>
    have hd : Decides better c d ms := find?_oneSided_iff.mp hfind
    have hside : better c d ≠ better d c := by
      obtain ⟨-, -, -, hside, -⟩ := hd
      exact hside
    have hsome : (if better c d then none else some d).isSome ↔ dominates better d c = true := by
      cases hcd : better c d <;> simp_all [dominates]
    dsimp only
    rw [hsome]
    -- no other member decides, and with one that does being equivalent counts for nothing
    constructor
    · intro hdom
      exact Or.inl ⟨d, hd, hdom⟩
    · rintro (⟨m, hm, hdom⟩ | ⟨hall, -⟩)
      · rwa [hd.unique hm]
      · exact absurd (hall d hd.mem) hside
  | none =>
    have hall : ∀ m ∈ ms, better c m = better m c := by
      simpa [oneSided] using List.find?_eq_none.mp hfind
    dsimp only
    rw [List.find?_isSome]
    constructor
    · intro hequal
      exact Or.inr ⟨hall, hequal⟩
    · rintro (⟨m, hm, -⟩ | ⟨-, hequal⟩)
      · cases hfind.symm.trans (find?_oneSided_iff.mpr hm)
      · exact hequal

end Pareto

open Pareto

namespace ParetoSet

variable {α ω : Type} {better : α → α → Bool} {s : ParetoSet α ω}

/-- Whatever the comparison is, an offer is answered as foretold. A refusal changes nothing, and there is a member that
the candidate beats nowhere; a candidate let in takes out exactly what it dominates and goes to the end. -/
theorem offer_goes_by_first_one_sided (h : Computes s.advantage better) (c : α) :
    (Hears s.listener (c :: s.members) → (∀ m ∈ s.members, Comparable s.advantage c m) →
      ∃ r, (s.add c).result = .ok r) ∧
    s.indexed.add c = (fun (b, t) => (b, t.indexed)) <$> s.add c ∧ s.indexed.qualify c = s.qualify c ∧
    ∀ b s', (s.add c).result = .ok (b, s') →
      s.qualify c = .ok b ∧
      (b = false → s' = s ∧ ∃ m ∈ s.members, better c m = false) ∧
      (b = true → s'.indexed.elements = s.indexed.elements.filter (!Pareto.dominates better c ·) ++ [c]) ∧
      (b = false ↔ (∃ m, Decides better c m s.members ∧ Pareto.dominates better m c = true) ∨
        (∀ m ∈ s.members, better c m = better m c) ∧ ∃ m ∈ s.members, equivalent better c m = true) := by
  refine ⟨add_answers, add_indexed s c, qualify_indexed s c, fun b s' ha => ⟨qualify_of_add ha, ?_⟩⟩
  rw [← blocker_isSome_iff]
  rcases add_of_result h ha with ⟨⟨m, hm⟩, rfl, rfl⟩ | ⟨hnone, rfl, rfl⟩
  · obtain ⟨hmem, hcovers⟩ := blocker_covers hm
    exact ⟨fun _ => ⟨rfl, m, hmem, hcovers⟩, nofun, by simp [hm]⟩
  · exact ⟨nofun, fun _ => accepting_members s c, by simp [hnone]⟩

/-- Not transitive: 3 dominates 1 and 2 dominates 3, but 1 and 2 are a trade-off. The member that came in first
decides. -/
theorem offer_goes_by_first_one_sided_intransitive :
    let better (l r : Nat) : Bool := (l, r) ≠ (1, 3) && (l, r) ≠ (3, 2)
    let s (ms : List Nat) : ParetoSet Nat Unit := ⟨fun l r => .ok (better l r), silent, [], ms⟩
    (∃ s', ((s [1, 2]).add 3).result = .ok (true, s') ∧ (s [1, 2]).qualify 3 = .ok true ∧
      s'.indexed.elements = [2, 3]) ∧
    ((s [2, 1]).add 3).result = .ok (false, s [2, 1]) ∧ (s [2, 1]).qualify 3 = .ok false := by
  intro better s
  have hadv : ∀ ms, Computes (s ms).advantage better := by
    intro ms l r b h
    cases h
    rfl
  have hanswers : ∀ ms, ∃ r, ((s ms).add 3).result = .ok r := fun ms =>
    (offer_goes_by_first_one_sided (hadv ms) 3).1 (fun _ _ => rfl) fun m _ => ⟨⟨better 3 m, rfl⟩, better m 3, rfl⟩
  constructor
  · obtain ⟨⟨b, s'⟩, ha⟩ := hanswers [1, 2]
    obtain ⟨hforetold, -, hin, -⟩ := (offer_goes_by_first_one_sided (hadv [1, 2]) 3).2.2.2 b s' ha
    have hqualify : (s [1, 2]).qualify 3 = .ok true := rfl
    cases hqualify.symm.trans hforetold
    exact ⟨s', ha, hqualify, (hin rfl).trans (by decide)⟩
  · obtain ⟨⟨b, s'⟩, ha⟩ := hanswers [2, 1]
    obtain ⟨hqualify, hsame, -, hout⟩ := (offer_goes_by_first_one_sided (hadv [2, 1]) 3).2.2.2 b s' ha
    have hb : b = false := hout.mpr (Or.inl ⟨2, ⟨[], [1], rfl, by decide, List.forall_mem_nil _⟩, by decide⟩)
    subst hb
    obtain ⟨rfl, -⟩ := hsame rfl
    exact ⟨ha, hqualify⟩

end ParetoSet

end TransitSearch
