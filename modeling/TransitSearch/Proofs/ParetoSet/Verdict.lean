/-
  TransitSearch.Proofs.ParetoSet.Verdict — what an offer to a pareto set does.

  A comparison `better` says whether its left argument is better than its right one on
  some criterion. An `Advantage` that never answers anything else computes it
  (`Computes`); it may still fault. For such a set, whatever the comparison is:
  - `blocker_of_result`: the member that keeps a candidate out is the first in a
    one-sided relation with it, if that member is the better one, and without such a
    member the first equivalent one.
  - `add_of_result`: an offer that is answered leaves the set as it was, or takes out
    exactly the members the candidate dominates and puts the candidate at the end.
  - `qualify_of_add`: asked beforehand, the set says what the offer will do.
  - `add_answers`: an offer faults only where a comparison or the listener does.
  - `add_image`: values that are replaced by images that compare as they do are let in,
    kept out and dropped as before.
-/

import TransitSearch.ParetoSet
import TransitSearch.Proofs.Results

namespace TransitSearch

/-- The values that a decision of a set names. -/
def SetEvent.named {α : Type} : SetEvent α → List α
  | .accepted e => [e]
  | .dropped e cause => [e, cause]
  | .rejected e cause => [e, cause]

/-- Where `adv` answers, it answers `better`. -/
def Computes {α : Type} (adv : Advantage α) (better : α → α → Bool) : Prop :=
  ∀ {l r : α} {b : Bool}, adv l r = .ok b → b = better l r

namespace Pareto

variable {α : Type} (better : α → α → Bool)

/-- `l` is better than `r` somewhere and worse nowhere. -/
def dominates (l r : α) : Bool := better l r && !better r l

/-- Neither is better than the other anywhere. -/
def equivalent (l r : α) : Bool := !better l r && !better r l

def oneSided (l r : α) : Bool := better l r != better r l

/-- What keeps `c` out: the first member in a one-sided relation with it decides. -/
def blocker (c : α) (ms : List α) : Option α :=
  match ms.find? (oneSided better c) with
  | some m => if better c m then none else some m
  | none => ms.find? (equivalent better c)

/-- The members left when `c` comes in. -/
def undominated (c : α) (ms : List α) : List α := ms.filter fun m => !dominates better c m

/-! ## Images -/

variable {β : Type} {better} {better' : β → β → Bool} {f : α → β}

theorem blocker_map (h : ∀ a b, better' (f a) (f b) = better a b) (c : α) (ms : List α) :
    blocker better' (f c) (ms.map f) = (blocker better c ms).map f := by
  have hone : oneSided better' (f c) ∘ f = oneSided better c := by
    funext m
    simp [oneSided, h]
  have heq : equivalent better' (f c) ∘ f = equivalent better c := by
    funext m
    simp [equivalent, h]
  unfold blocker
  rw [List.find?_map, List.find?_map, hone, heq]
  cases ms.find? (oneSided better c) with
  | none => rfl
  | some m =>
    simp only [Option.map_some, h]
    split <;> rfl

theorem undominated_map (h : ∀ a b, better' (f a) (f b) = better a b) (c : α) (ms : List α) :
    undominated better' (f c) (ms.map f) = (undominated better c ms).map f := by
  unfold undominated
  rw [List.filter_map]
  congr 2
  funext m
  simp [dominates, h]

end Pareto

open Pareto

namespace ParetoSet

variable {α ω : Type} {adv : Advantage α} {better : α → α → Bool}

/-! ## The scan -/

theorem blockerFrom_of_result (h : Computes adv better) (c : α) (ms : List α) :
    ∀ (equal r : Option α), blockerFrom adv c equal ms = .ok r →
      r = match ms.find? (oneSided better c) with
        | some m => if better c m then none else some m
        | none => equal.or (ms.find? (equivalent better c)) := by
  induction ms with
  | nil =>
    intro equal r hr
    simp only [blockerFrom, pure_eq_ok] at hr
    simp [← hr]
  | cons m rest ih =>
    intro equal r hr
    simp only [blockerFrom, bind_eq_ok] at hr
    obtain ⟨candidateBetter, hc, memberBetter, hm, hr⟩ := hr
    rw [h hc, h hm] at hr
    -- the four relations between the candidate and the member
    cases hcb : better c m <;> cases hmb : better m c <;>
      simp only [hcb, hmb, List.find?_cons, oneSided, equivalent] at hr ⊢
    · rw [ih _ _ hr]
      simp
    · rw [← pure_eq_ok.mp hr]
      simp [hcb]
    · rw [← pure_eq_ok.mp hr]
      simp [hcb]
    · exact ih _ _ hr

theorem blocker_of_result {s : ParetoSet α ω} (h : Computes s.advantage better) {c : α} {r : Option α}
    (hr : s.blocker c = .ok r) : r = Pareto.blocker better c s.members := by
  rw [blockerFrom_of_result h c s.members none r hr, Pareto.blocker]
  simp

theorem qualify_of_result {s : ParetoSet α ω} (h : Computes s.advantage better) {c : α} {b : Bool}
    (hb : s.qualify c = .ok b) : b = (Pareto.blocker better c s.members).isNone := by
  obtain ⟨r, hr, rfl⟩ := map_eq_ok.mp hb
  rw [blocker_of_result h hr]

theorem blockerFrom_fault {c : α} {ms : List α} {e : Fault} :
    ∀ {equal}, blockerFrom adv c equal ms = .error e → ∃ m ∈ ms, adv c m = .error e ∨ adv m c = .error e := by
  induction ms with
  | nil =>
    intro equal h
    cases h
  | cons m rest ih =>
    intro equal h
    -- the scan goes on to the rest, or the comparison with `m` is the one
    have later : ∀ {equal}, blockerFrom adv c equal rest = .error e →
        ∃ n ∈ m :: rest, adv c n = .error e ∨ adv n c = .error e := by
      intro equal h
      obtain ⟨n, hn, hfault⟩ := ih h
      exact ⟨n, List.mem_cons_of_mem _ hn, hfault⟩
    unfold blockerFrom at h
    cases hc : adv c m with
    | error fault =>
      rw [hc] at h
      cases h
      exact ⟨m, List.mem_cons_self, Or.inl hc⟩
    | ok candidateBetter =>
      cases hm : adv m c with
      | error fault =>
        rw [hc, hm] at h
        cases h
        exact ⟨m, List.mem_cons_self, Or.inr hm⟩
      | ok memberBetter =>
        rw [hc, hm] at h
        cases candidateBetter <;> cases memberBetter
        · exact later h
        · cases h
        · cases h
        · exact later h

/-- Both comparisons between `c` and `m` answer. -/
def Comparable (adv : Advantage α) (c m : α) : Prop := (∃ b, adv c m = .ok b) ∧ ∃ b, adv m c = .ok b

theorem blockerFrom_answers {c : α} {ms : List α} (h : ∀ m ∈ ms, Comparable adv c m) (equal : Option α) :
    ∃ r, blockerFrom adv c equal ms = .ok r := by
  cases hscan : blockerFrom adv c equal ms with
  | ok r => exact ⟨r, rfl⟩
  | error e =>
    obtain ⟨m, hm, hfault⟩ := blockerFrom_fault hscan
    obtain ⟨⟨l, hl⟩, ⟨r, hr⟩⟩ := h m hm
    rcases hfault with hfault | hfault
    · cases hl.symm.trans hfault
    · cases hr.symm.trans hfault

theorem blockerFrom_mem {c r : α} {ms : List α} :
    ∀ {equal}, blockerFrom adv c equal ms = .ok (some r) → r ∈ ms ∨ equal = some r := by
  induction ms with
  | nil =>
    intro equal h
    exact Or.inr (pure_eq_ok.mp h)
  | cons m rest ih =>
    intro equal h
    simp only [blockerFrom, bind_eq_ok] at h
    obtain ⟨candidateBetter, -, memberBetter, -, h⟩ := h
    cases candidateBetter <;> cases memberBetter
    · rcases ih h with hr | hr
      · exact Or.inl (List.mem_cons_of_mem _ hr)
      · cases equal with
        | none =>
          cases hr
          exact Or.inl List.mem_cons_self
        | some _ => exact Or.inr hr
    · cases pure_eq_ok.mp h
      exact Or.inl List.mem_cons_self
    · cases pure_eq_ok.mp h
    · rcases ih h with hr | hr
      · exact Or.inl (List.mem_cons_of_mem _ hr)
      · exact Or.inr hr

/-! ## The sweep -/

theorem dominates_of_result (h : Computes adv better) {l r : α} {b : Bool} (hb : ParetoSet.dominates adv l r = .ok b) :
    b = Pareto.dominates better l r := by
  simp only [ParetoSet.dominates, bind_eq_ok] at hb
  obtain ⟨lr, hlr, hb⟩ := hb
  have hlr' := h hlr
  cases lr with
  | true =>
    obtain ⟨rl, hrl, rfl⟩ := map_eq_ok.mp hb
    simp [Pareto.dominates, ← hlr', ← h hrl]
  | false =>
    simp only [Bool.false_eq_true, if_false, pure_eq_ok] at hb
    simp [Pareto.dominates, ← hlr', ← hb]

theorem sweep_of_result (h : Computes adv better) (tell : Listener α ω) (c : α) (ms : List α) :
    ∀ kept, (sweep adv tell c ms).result = .ok kept → kept = undominated better c ms := by
  induction ms with
  | nil =>
    intro kept hk
    simp only [sweep, Run.result_pure, Except.ok.injEq] at hk
    simp [← hk, undominated]
  | cons m rest ih =>
    intro kept hk
    simp only [sweep, Run.result_bind_eq_ok, Run.result_lift] at hk
    obtain ⟨b, hb, hk⟩ := hk
    have hb' := dominates_of_result h hb
    cases b with
    | true =>
      simp only [if_true, Run.result_bind_eq_ok] at hk
      obtain ⟨-, -, hk⟩ := hk
      simpa [undominated, ← hb'] using ih kept hk
    | false =>
      simp only [Bool.false_eq_true, if_false, Run.result_bind_eq_ok] at hk
      obtain ⟨kept', hk', hk⟩ := hk
      simp only [Run.result_pure, Except.ok.injEq] at hk
      rw [← hk, ih kept' hk']
      simp [undominated, ← hb']

theorem dominates_answers {l r : α} (h : Comparable adv l r) : ∃ b, ParetoSet.dominates adv l r = .ok b := by
  obtain ⟨⟨x, hx⟩, ⟨y, hy⟩⟩ := h
  simp only [ParetoSet.dominates, bind_eq_ok, hx]
  cases x with
  | true => exact ⟨!y, _, rfl, map_eq_ok.mpr ⟨y, hy, rfl⟩⟩
  | false => exact ⟨false, _, rfl, rfl⟩

theorem sweep_answers {tell : Listener α ω} {c : α} {ms : List α} (ht : ∀ m ∈ ms, (tell (.dropped m c)).result = .ok ())
    (h : ∀ m ∈ ms, Comparable adv c m) : ∃ kept, (sweep adv tell c ms).result = .ok kept := by
  induction ms with
  | nil => exact ⟨[], rfl⟩
  | cons m rest ih =>
    obtain ⟨htold, ht⟩ := List.forall_mem_cons.mp ht
    obtain ⟨kept, hk⟩ := ih ht fun n hn => h n (List.mem_cons_of_mem _ hn)
    obtain ⟨b, hb⟩ := dominates_answers (h m List.mem_cons_self)
    simp only [sweep, Run.result_bind_eq_ok, Run.result_lift, hb]
    cases b with
    | true => exact ⟨kept, true, rfl, Run.result_bind_eq_ok.mpr ⟨(), htold, hk⟩⟩
    | false => exact ⟨m :: kept, false, rfl, Run.result_bind_eq_ok.mpr ⟨kept, hk, rfl⟩⟩

/-! ## The offer -/

/-- The set after `c` has come in. -/
def accepting (better : α → α → Bool) (s : ParetoSet α ω) (c : α) : ParetoSet α ω :=
  { s with settled := undominated better c s.settled, fresh := undominated better c s.fresh ++ [c] }

@[simp] theorem accepting_members (s : ParetoSet α ω) (c : α) :
    (s.accepting better c).members = undominated better c s.members ++ [c] := by
  simp [accepting, members, undominated]

theorem add_of_result {s s' : ParetoSet α ω} (h : Computes s.advantage better) {c : α} {b : Bool}
    (ha : (s.add c).result = .ok (b, s')) :
    ((∃ m, Pareto.blocker better c s.members = some m) ∧ b = false ∧ s' = s) ∨
      (Pareto.blocker better c s.members = none ∧ b = true ∧ s' = s.accepting better c) := by
  simp only [add, Run.result_bind_eq_ok, Run.result_lift] at ha
  obtain ⟨r, hr, ha⟩ := ha
  have hr' := blocker_of_result h hr
  cases r with
  | some m =>
    simp only [Run.result_bind_eq_ok, Run.result_pure, Except.ok.injEq, Prod.mk.injEq] at ha
    obtain ⟨-, -, rfl, rfl⟩ := ha
    exact Or.inl ⟨⟨m, hr'.symm⟩, rfl, rfl⟩
  | none =>
    simp only [Run.result_bind_eq_ok, Run.result_pure, Except.ok.injEq, Prod.mk.injEq] at ha
    obtain ⟨settled, hs, fresh, hf, -, -, rfl, rfl⟩ := ha
    rw [sweep_of_result h s.listener c s.settled settled hs, sweep_of_result h s.listener c s.fresh fresh hf]
    exact Or.inr ⟨hr'.symm, rfl, rfl⟩

theorem qualify_of_add {s s' : ParetoSet α ω} {c : α} {b : Bool} (ha : (s.add c).result = .ok (b, s')) :
    s.qualify c = .ok b := by
  simp only [add, Run.result_bind_eq_ok, Run.result_lift] at ha
  obtain ⟨r, hr, ha⟩ := ha
  refine map_eq_ok.mpr ⟨r, hr, ?_⟩
  cases r with
  | some m =>
    obtain ⟨-, -, ha⟩ := Run.result_bind_eq_ok.mp ha
    cases ha
    rfl
  | none =>
    simp only [Run.result_bind_eq_ok] at ha
    obtain ⟨_, -, _, -, _, -, ha⟩ := ha
    cases ha
    rfl

/-- The listener is not stopped by any decision about these values. -/
def Hears (tell : Listener α ω) (xs : List α) : Prop :=
  ∀ e : SetEvent α, (∀ x ∈ e.named, x ∈ xs) → (tell e).result = .ok ()

theorem add_answers {s : ParetoSet α ω} {c : α} (ht : Hears s.listener (c :: s.members))
    (h : ∀ m ∈ s.members, Comparable s.advantage c m) : ∃ r, (s.add c).result = .ok r := by
  have hc : c ∈ c :: s.members := List.mem_cons_self
  have hdropped : ∀ m ∈ s.members, (s.listener (.dropped m c)).result = .ok () := fun m hm =>
    ht _ (List.forall_mem_cons.mpr ⟨List.mem_cons_of_mem _ hm, List.forall_mem_singleton.mpr hc⟩)
  obtain ⟨r, hr⟩ := blockerFrom_answers h none
  simp only [add, Run.result_bind_eq_ok, Run.result_lift, blocker, hr]
  cases r with
  | some m =>
    have hm : m ∈ s.members := (blockerFrom_mem hr).resolve_right nofun
    have htold : (s.listener (.rejected c m)).result = .ok () :=
      ht _ (List.forall_mem_cons.mpr ⟨hc, List.forall_mem_singleton.mpr (List.mem_cons_of_mem _ hm)⟩)
    exact ⟨(false, s), some m, rfl, Run.result_bind_eq_ok.mpr ⟨(), htold, rfl⟩⟩
  | none =>
    obtain ⟨settled, hs⟩ := sweep_answers (fun m hm => hdropped m (List.mem_append_left _ hm))
      fun m hm => h m (List.mem_append_left _ hm)
    obtain ⟨fresh, hf⟩ := sweep_answers (fun m hm => hdropped m (List.mem_append_right _ hm))
      fun m hm => h m (List.mem_append_right _ hm)
    have htold : (s.listener (.accepted c)).result = .ok () := ht _ (List.forall_mem_singleton.mpr hc)
    refine ⟨(true, { s with settled, fresh := fresh ++ [c] }), none, rfl, ?_⟩
    simp only [Run.result_bind_eq_ok]
    exact ⟨settled, hs, fresh, hf, (), htold, rfl⟩

/-! ## Images -/

section Image

variable {β υ : Type} {adv' : Advantage β} {f : α → β}

/-- The set of the images, compared by `adv'`. Nobody hears of its decisions. -/
def image (adv' : Advantage β) (f : α → β) (s : ParetoSet α ω) : ParetoSet β υ :=
  { advantage := adv', listener := silent, settled := s.settled.map f, fresh := s.fresh.map f }

@[simp] theorem image_members (s : ParetoSet α ω) : (s.image adv' f : ParetoSet β υ).members = s.members.map f := by
  simp [image, members]

theorem blockerFrom_image (h : ∀ a b, adv' (f a) (f b) = adv a b) (c : α) (ms : List α) : ∀ equal : Option α,
    blockerFrom adv' (f c) (equal.map f) (ms.map f) = Option.map f <$> blockerFrom adv c equal ms := by
  induction ms with
  | nil =>
    intro equal
    rfl
  | cons m rest ih =>
    intro equal
    simp only [List.map_cons, blockerFrom, h]
    cases adv c m with
    | error e => rfl
    | ok candidateBetter =>
      cases adv m c with
      | error e => rfl
      | ok memberBetter =>
        cases candidateBetter <;> cases memberBetter
        · have := ih (equal.or (some m))
          rw [Option.map_or] at this
          exact this
        · rfl
        · rfl
        · exact ih equal

theorem blocker_image {s : ParetoSet α ω} (h : ∀ a b, adv' (f a) (f b) = s.advantage a b) (c : α) :
    (s.image adv' f : ParetoSet β υ).blocker (f c) = Option.map f <$> s.blocker c := by
  unfold blocker
  rw [image_members, ← blockerFrom_image h]
  rfl

theorem qualify_image {s : ParetoSet α ω} (h : ∀ a b, adv' (f a) (f b) = s.advantage a b) (c : α) :
    (s.image adv' f : ParetoSet β υ).qualify (f c) = s.qualify c := by
  unfold qualify
  rw [blocker_image h]
  cases s.blocker c with
  | error e => rfl
  | ok r => cases r <;> rfl

theorem sweep_image (h : ∀ a b, adv' (f a) (f b) = adv a b) {tell : Listener α ω} {tell' : Listener β υ}
    (ht : ∀ e, (tell' e).result = .ok ()) {c : α} {ms : List α} : ∀ {kept}, (sweep adv tell c ms).result = .ok kept →
      (sweep adv' tell' (f c) (ms.map f)).result = .ok (kept.map f) := by
  induction ms with
  | nil =>
    intro kept hk
    cases hk
    rfl
  | cons m rest ih =>
    intro kept hk
    simp only [List.map_cons, sweep, ParetoSet.dominates, h, Run.result_bind_eq_ok, Run.result_lift] at hk ⊢
    obtain ⟨b, hb, hk⟩ := hk
    refine ⟨b, hb, ?_⟩
    cases b with
    | true =>
      simp only [if_true, Run.result_bind_eq_ok] at hk ⊢
      obtain ⟨-, -, hk⟩ := hk
      exact ⟨(), ht _, ih hk⟩
    | false =>
      simp only [Bool.false_eq_true, if_false, Run.result_bind_eq_ok] at hk ⊢
      obtain ⟨_, hrest, hk⟩ := hk
      cases hk
      exact ⟨_, ih hrest, rfl⟩

theorem add_image {s s' : ParetoSet α ω} (h : ∀ a b, adv' (f a) (f b) = s.advantage a b) {c : α} {b : Bool}
    (ha : (s.add c).result = .ok (b, s')) :
    ((s.image adv' f : ParetoSet β υ).add (f c)).result = .ok (b, s'.image adv' f) := by
  simp only [add, Run.result_bind_eq_ok, Run.result_lift, blocker_image h] at ha ⊢
  obtain ⟨r, hr, ha⟩ := ha
  refine ⟨r.map f, map_eq_ok.mpr ⟨r, hr, rfl⟩, ?_⟩
  cases r with
  | some m =>
    obtain ⟨-, -, ha⟩ := Run.result_bind_eq_ok.mp ha
    cases ha
    rfl
  | none =>
    simp only [Run.result_bind_eq_ok] at ha
    obtain ⟨settled, hs, fresh, hf, -, -, ha⟩ := ha
    cases ha
    simp only [Option.map_none, Run.result_bind_eq_ok]
    refine ⟨_, sweep_image h (fun _ => rfl) hs, _, sweep_image h (fun _ => rfl) hf, (), rfl, ?_⟩
    simp [image]

end Image

end ParetoSet

end TransitSearch
