/-
  TransitSearch.Proofs.Throttle — the books of a throttle.

  Requests come at any times, also at earlier ones than before. From the requests and their
  answers alone one reads which were let through, when (`emitted`), and how many were held
  back at the end, since the last of them (`heldBack`). The throttle keeps just that
  (`books`): the last time let through, and that number.

  So each answer is known from those before it, no request held back is lost or told of
  twice, and with a quiet period that is not empty the events let through lie at least one
  period apart (`permits_keep_books`).
-/

import Mathlib.Algebra.Ring.Nat
import Mathlib.Data.List.DropRight
import Mathlib.Data.List.Induction
import TransitSearch.Throttle

namespace TransitSearch

namespace Throttle

/-- The throttle after these requests. -/
def after (t : Throttle) (times : List Nat) : Throttle := times.foldl (fun t now => (t.permitAt now).2) t

/-- The times of the requests that were let through. -/
def emitted (times : List Nat) (answers : List (Option Nat)) : List Nat :=
  ((times.zip answers).filter fun (_, answer) => answer.isSome).map (·.1)

/-- How many requests were held back since the last one that was let through. -/
def heldBack (answers : List (Option Nat)) : Nat := (answers.rtakeWhile (·.isNone)).length

/-- All that the requests let through were told of requests held back before. -/
def told (answers : List (Option Nat)) : Nat := (answers.map (·.getD 0)).sum

/-! ## One more request -/

theorem after_snoc (t : Throttle) (times : List Nat) (now : Nat) :
    t.after (times ++ [now]) = ((t.after times).permitAt now).2 := by
  simp [after]

theorem permits_snoc (times : List Nat) (now : Nat) : ∀ t : Throttle,
    t.permits (times ++ [now]) = t.permits times ++ [((t.after times).permitAt now).1] := by
  induction times with
  | nil => intro t; rfl
  | cons first rest ih =>
    intro t
    simp only [List.cons_append, permits, ih]
    rfl

theorem permits_length (times : List Nat) : ∀ t : Throttle, (t.permits times).length = times.length := by
  induction times with
  | nil => intro t; rfl
  | cons first rest ih => intro t; simp [permits, ih]

theorem emitted_snoc {times : List Nat} {answers : List (Option Nat)} (h : times.length = answers.length) (now : Nat)
    (answer : Option Nat) :
    emitted (times ++ [now]) (answers ++ [answer]) = emitted times answers ++ if answer.isSome then [now] else [] := by
  unfold emitted
  rw [List.zip_append h]
  cases answer <;> simp

theorem heldBack_snoc_none (answers : List (Option Nat)) : heldBack (answers ++ [none]) = heldBack answers + 1 := by
  simp [heldBack]

theorem heldBack_snoc_some (answers : List (Option Nat)) (n : Nat) : heldBack (answers ++ [some n]) = 0 := by
  simp [heldBack]

theorem told_snoc (answers : List (Option Nat)) (answer : Option Nat) :
    told (answers ++ [answer]) = told answers + answer.getD 0 := by
  simp [told]

/-! ## Any requests -/

/-- What a throttle that began with no request holds after these, `answers` being what they were answered. -/
structure Books (quiet : Nat) (times : List Nat) (answers : List (Option Nat)) (t : Throttle) : Prop where
  period : t.quietPeriod = quiet
  last : t.lastEmitted = (emitted times answers).getLast?
  first : t.lastEmitted = none → times = []
  counted : t.suppressed = heldBack answers
  few : t.suppressed ≤ times.length
  total : told answers + t.suppressed = answers.count none
  apart : 0 < quiet → (emitted times answers).Pairwise fun a b => a < b ∧ quiet ≤ b - a

theorem apart_snoc {quiet last now : Nat} {times : List Nat} (hquiet : 0 < quiet)
    (apart : times.Pairwise fun a b => a < b ∧ quiet ≤ b - a) (hlast : times.getLast? = some last)
    (hnow : quiet ≤ now - last) : (times ++ [now]).Pairwise fun a b => a < b ∧ quiet ≤ b - a := by
  obtain ⟨before, rfl⟩ := List.getLast?_eq_some_iff.mp hlast
  rw [List.pairwise_append] at apart ⊢
  obtain ⟨hbefore, -, hcross⟩ := apart
  refine ⟨List.pairwise_append.mpr ⟨hbefore, List.pairwise_singleton _ _, hcross⟩, List.pairwise_singleton _ _, ?_⟩
  intro a ha b hb
  simp only [List.mem_singleton] at hb
  subst hb
  rcases List.mem_append.mp ha with ha | ha
  · have := hcross a ha last (by simp)
    omega
  · simp only [List.mem_singleton] at ha
    omega

theorem Books.permitAt {quiet : Nat} {times : List Nat} {answers : List (Option Nat)} {t : Throttle}
    (h : Books quiet times answers t) (hlength : times.length = answers.length) (now : Nat) :
    Books quiet (times ++ [now]) (answers ++ [(t.permitAt now).1]) (t.permitAt now).2 := by
  have hcounted := h.counted
  have hfew := h.few
  have htotal := h.total
  unfold Throttle.permitAt
  by_cases hopen : t.isOpen now = true
  · simp only [hopen, if_true]
    refine ⟨h.period, ?_, nofun, (heldBack_snoc_some _ _).symm, Nat.zero_le _, ?_, fun hquiet => ?_⟩
    · simp [emitted_snoc hlength]
    · have hnone : (answers ++ [some t.suppressed]).count none = answers.count none := by simp
      rw [told_snoc, hnone, ← htotal]
      simp
    · have apart := h.apart hquiet
      rw [emitted_snoc hlength]
      cases hlast : t.lastEmitted with
      | none =>
        have hnever : emitted times answers = [] := List.getLast?_eq_none_iff.mp (h.last.symm.trans hlast)
        simp [hnever]
      | some last =>
        refine apart_snoc hquiet apart (h.last.symm.trans hlast) ?_
        simpa [isOpen, hlast, h.period] using hopen
  · simp only [hopen]
    refine ⟨h.period, ?_, fun hnever => ?_, ?_, ?_, ?_, fun hquiet => ?_⟩
    · simpa [emitted_snoc hlength] using h.last
    · exact absurd (by simp [isOpen, show t.lastEmitted = none from hnever]) hopen
    · simp [heldBack_snoc_none, hcounted]
    · simp only [Bool.false_eq_true, if_false, List.length_append, List.length_singleton]
      omega
    · have hone : (answers ++ [none]).count none = answers.count none + 1 := by simp
      simp only [Bool.false_eq_true, if_false, told_snoc, hone, Option.getD_none]
      omega
    · simpa [emitted_snoc hlength] using h.apart hquiet

theorem books (quiet : Nat) (times : List Nat) :
    Books quiet times ((ofPeriod quiet).permits times) ((ofPeriod quiet).after times) := by
  induction times using List.reverseRecOn with
  | nil => exact ⟨rfl, rfl, fun _ => rfl, rfl, Nat.le_refl _, rfl, fun _ => .nil⟩
  | append_singleton times now ih =>
    rw [permits_snoc, after_snoc]
    exact ih.permitAt (permits_length times _).symm now

/-- The first request is let through. A later one is held back exactly when less than the quiet period has passed since
the last one let through, and otherwise it is answered how many were held back since. What was answered and what is held
back since add up to all that was ever held back, which is never more than the requests made; and with a quiet period
that is not empty the times let through increase, any two of them at least one period apart. -/
theorem permits_keep_books (quiet : Nat) (times : List Nat) :
    ((ofPeriod quiet).permits times).length = times.length ∧
    (∀ now, (ofPeriod quiet).permits [now] = [some 0]) ∧
    let answers := (ofPeriod quiet).permits times
    (times ≠ [] → ∃ last, (emitted times answers).getLast? = some last ∧
      ∀ now, (ofPeriod quiet).permits (times ++ [now]) =
        answers ++ [if now - last < quiet then none else some (heldBack answers)]) ∧
    told answers + heldBack answers = answers.count none ∧
    ((ofPeriod quiet).after times).suppressed = heldBack answers ∧ heldBack answers ≤ times.length ∧
    (0 < quiet → (emitted times answers).Pairwise fun a b => a < b ∧ quiet ≤ b - a) := by
  refine ⟨permits_length times _, fun now => rfl, ?_⟩
  intro answers
  have h : Books quiet times answers ((ofPeriod quiet).after times) := books quiet times
  refine ⟨fun hne => ?_, ?_, h.counted, ?_, h.apart⟩
  · cases hlast : ((ofPeriod quiet).after times).lastEmitted with
    | none => exact absurd (h.first hlast) hne
    | some last =>
      refine ⟨last, h.last.symm.trans hlast, fun now => ?_⟩
      rw [permits_snoc, permitAt, ← h.counted]
      simp only [isOpen, hlast, h.period]
      by_cases hquiet : now - last < quiet
      · simp [answers, hquiet, Nat.not_le.mpr hquiet]
      · simp [answers, hquiet, Nat.not_lt.mp hquiet]
  · rw [← h.counted]
    exact h.total
  · rw [← h.counted]
    exact h.few

/-- The clock goes back by more than a period, to before the last event let through, and comes back. -/
theorem permits_keep_books_clock_set_back :
    let times := [100, 101, 159, 20, 160, 161, 30]
    let answers := (ofPeriod 60).permits times
    answers = [some 0, none, none, none, some 3, none, none] ∧ emitted times answers = [100, 160] ∧
      (∃ last, (emitted times answers).getLast? = some last ∧
        (ofPeriod 60).permits (times ++ [220]) = answers ++ [some 2] ∧ last = 160) ∧
      (emitted times answers).Pairwise fun a b => a < b ∧ 60 ≤ b - a := by
  intro times answers
  obtain ⟨-, -, hnext, -, -, -, hapart⟩ := permits_keep_books 60 times
  obtain ⟨last, hlast, hanswer⟩ := hnext (by decide)
  have hlast' : (emitted times answers).getLast? = some 160 := by decide
  cases hlast.symm.trans hlast'
  exact ⟨by decide, by decide, ⟨160, hlast, hanswer 220, rfl⟩, hapart (by decide)⟩

end Throttle

end TransitSearch
