/-
  TransitSearch.Proofs.Direction — times in search order.

  `pos` places a time on an axis that runs the way the search goes. There "plus" adds,
  "minus" takes away and the time between is a difference, whichever the direction, so what
  is proved on the axis is proved for both. `NoLater` is the order of the axis as the
  search itself asks for it.
-/

import TransitSearch.Direction
import TransitSearch.Proofs.Results

namespace TransitSearch

open Checked

namespace Direction

/-- The place of a time in search order. -/
def pos (dir : Direction) (time : Int) : Int :=
  match dir with
  | .forward => time
  | .reverse => -time

/-- In search order `a` does not come after `b`. -/
def NoLater (dir : Direction) (a b : Int) : Prop := dir.isAfter b a = false

instance (dir : Direction) (a b : Int) : Decidable (dir.NoLater a b) := inferInstanceAs (Decidable (_ = _))

variable {dir : Direction} {a b time duration r : Int}

@[simp] theorem pos_forward (time : Int) : Direction.forward.pos time = time := rfl
@[simp] theorem pos_reverse (time : Int) : Direction.reverse.pos time = -time := rfl

theorem pos_inj : dir.pos a = dir.pos b ↔ a = b := by
  cases dir with
  | forward => rfl
  | reverse => exact Int.neg_inj

theorem isAfter_iff : dir.isAfter a b = true ↔ dir.pos a < dir.pos b := by
  cases dir with
  | forward => simp [isAfter]
  | reverse => simp [isAfter]

theorem noLater_iff : dir.NoLater a b ↔ dir.pos a ≤ dir.pos b := by
  rw [NoLater, ← Bool.not_eq_true, isAfter_iff, Int.not_lt]

@[simp] theorem noLater_forward : Direction.forward.NoLater a b ↔ a ≤ b := noLater_iff

@[simp] theorem noLater_reverse : Direction.reverse.NoLater a b ↔ b ≤ a := by
  rw [noLater_iff, pos_reverse, pos_reverse, Int.neg_le_neg_iff]

theorem fits_and_eq {exact : Int} : Fits exact ∧ r = exact ↔ Fits r ∧ r = exact := by
  constructor
  · rintro ⟨h, rfl⟩
    exact ⟨h, rfl⟩
  · rintro ⟨h, rfl⟩
    exact ⟨h, rfl⟩

theorem plus_eq_ok : dir.plus time duration = .ok r ↔ Fits r ∧ dir.pos r = dir.pos time + duration := by
  cases dir with
  | forward => rw [plus, add_ok_iff, fits_and_eq, pos_forward, pos_forward]
  | reverse =>
    have hback : -r = -time + duration ↔ r = time - duration := by omega
    rw [plus, sub_ok_iff, fits_and_eq, pos_reverse, pos_reverse, hback]

theorem minus_eq_ok : dir.minus time duration = .ok r ↔ Fits r ∧ dir.pos r = dir.pos time - duration := by
  cases dir with
  | forward => rw [minus, sub_ok_iff, fits_and_eq, pos_forward, pos_forward]
  | reverse =>
    have hback : -r = -time - duration ↔ r = time + duration := by omega
    rw [minus, add_ok_iff, fits_and_eq, pos_reverse, pos_reverse, hback]

theorem between_eq_ok : dir.between a b = .ok r ↔ Fits r ∧ r = dir.pos b - dir.pos a := by
  cases dir with
  | forward => rw [between, sub_ok_iff, fits_and_eq, pos_forward, pos_forward]
  | reverse =>
    have hback : r = -b - -a ↔ r = a - b := by omega
    rw [between, sub_ok_iff, fits_and_eq, pos_reverse, pos_reverse, hback]

theorem between_of_natAbs (h : Fits (b - a).natAbs) : dir.between a b = .ok (dir.pos b - dir.pos a) := by
  refine between_eq_ok.mpr ⟨?_, rfl⟩
  obtain ⟨-, hle⟩ := h
  cases dir with
  | forward =>
    show -2147483648 ≤ b - a ∧ b - a ≤ 2147483647
    omega
  | reverse =>
    show -2147483648 ≤ -b - -a ∧ -b - -a ≤ 2147483647
    omega

theorem fit_onlyOverflows {fault : Fault} (hf : fault.isOverflow = true) (n : Int) : OnlyOverflows (fit fault n) := by
  intro e h
  unfold fit at h
  split at h
  · cases h
  · cases h
    exact hf

theorem fitCount_onlyOverflows {fault : Fault} (hf : fault.isOverflow = true) (n : Nat) :
    OnlyOverflows (fitCount fault n) := by
  intro e h
  unfold fitCount at h
  split at h
  · cases h
  · cases h
    exact hf

theorem plus_onlyOverflows (dir : Direction) (time duration : Int) : OnlyOverflows (dir.plus time duration) := by
  cases dir with
  | forward => exact fit_onlyOverflows rfl _
  | reverse => exact fit_onlyOverflows rfl _

theorem minus_onlyOverflows (dir : Direction) (time duration : Int) : OnlyOverflows (dir.minus time duration) := by
  cases dir with
  | forward => exact fit_onlyOverflows rfl _
  | reverse => exact fit_onlyOverflows rfl _

theorem minus_of_between (h : dir.between a b = .ok duration) (ha : Fits a) : dir.minus b duration = .ok a := by
  obtain ⟨-, hd⟩ := between_eq_ok.mp h
  exact minus_eq_ok.mpr ⟨ha, by omega⟩

end Direction

end TransitSearch
