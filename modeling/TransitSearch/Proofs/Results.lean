/-
  TransitSearch.Proofs.Results — what an answer says about the steps behind it.

  A computation that answers has had an answer from each of its steps (`bind_eq_ok`,
  `Run.result_bind_eq_ok`). Read from the end to the beginning these lemmas take a
  computation apart step by step; what a run writes plays no part in its result, and stands
  in the order of the steps (`Run.written_bind_of_result`). A list that is gone through is
  taken apart at its head (`mapM_cons_eq_ok`), and what is answered for its entries carries
  over to their images (`mapM_image`).

  A fault is an overflow or a use of the search that has no answer. A computation whose
  steps can only overflow can only overflow (`OnlyOverflows`).

  Two computations match when their answers are related wherever both answer (`Matches`).
  Steps that match, carried on in ways that match, match as a whole (`Matches.bind`), so
  two searches are compared one step at a time and a fault on either side ends the matter.
-/

import TransitSearch.Run

namespace TransitSearch

variable {α β ω υ : Type}

theorem bind_eq_ok {x : Except Fault α} {f : α → Except Fault β} {b : β} :
    (x >>= f) = .ok b ↔ ∃ a, x = .ok a ∧ f a = .ok b := by
  cases x with
  | error e =>
    constructor
    · intro h; cases h
    · rintro ⟨_, h, -⟩; cases h
  | ok a =>
    constructor
    · intro h; exact ⟨a, rfl, h⟩
    · rintro ⟨_, h, hf⟩; cases h; exact hf

theorem map_eq_ok {x : Except Fault α} {f : α → β} {b : β} :
    (f <$> x) = .ok b ↔ ∃ a, x = .ok a ∧ f a = b := by
  cases x with
  | error e =>
    constructor
    · intro h; cases h
    · rintro ⟨_, h, -⟩; cases h
  | ok a =>
    constructor
    · intro h; cases h; exact ⟨a, rfl, rfl⟩
    · rintro ⟨_, h, hf⟩; cases h; cases hf; rfl

@[simp] theorem pure_eq_ok {a b : α} : (pure a : Except Fault α) = .ok b ↔ a = b := by
  constructor
  · intro h; cases h; rfl
  · rintro rfl; rfl

@[simp] theorem throw_ne_ok {e : Fault} {b : α} : (throw e : Except Fault α) ≠ .ok b := fun h => by cases h

/-! ## Lists -/

theorem mapM_cons_eq_ok {f : α → Except Fault β} {a : α} {rest : List α} {bs : List β} :
    (a :: rest).mapM f = .ok bs ↔ ∃ b later, f a = .ok b ∧ rest.mapM f = .ok later ∧ bs = b :: later := by
  rw [List.mapM_cons]
  constructor
  · intro h
    obtain ⟨b, hb, h⟩ := bind_eq_ok.mp h
    obtain ⟨later, hlater, h⟩ := bind_eq_ok.mp h
    cases h
    exact ⟨b, later, hb, hlater, rfl⟩
  · rintro ⟨b, later, hb, hlater, rfl⟩
    exact bind_eq_ok.mpr ⟨b, hb, bind_eq_ok.mpr ⟨later, hlater, rfl⟩⟩

theorem mapM_answers {f : α → Except Fault β} {as : List α} :
    (∃ bs, as.mapM f = .ok bs) ↔ ∀ a ∈ as, ∃ b, f a = .ok b := by
  induction as with
  | nil => exact ⟨fun _ => nofun, fun _ => ⟨[], rfl⟩⟩
  | cons a rest ih =>
    rw [List.forall_mem_cons, ← ih]
    constructor
    · rintro ⟨_, h⟩
      obtain ⟨b, later, hb, hlater, -⟩ := mapM_cons_eq_ok.mp h
      exact ⟨⟨b, hb⟩, later, hlater⟩
    · rintro ⟨⟨b, hb⟩, later, hlater⟩
      exact ⟨b :: later, mapM_cons_eq_ok.mpr ⟨b, later, hb, hlater, rfl⟩⟩

theorem mapM_length {f : α → Except Fault β} {as : List α} :
    ∀ {bs : List β}, as.mapM f = .ok bs → bs.length = as.length := by
  induction as with
  | nil =>
    intro bs h
    cases h
    rfl
  | cons a rest ih =>
    intro bs h
    obtain ⟨b, later, -, hlater, rfl⟩ := mapM_cons_eq_ok.mp h
    rw [List.length_cons, List.length_cons, ih hlater]

theorem mapM_getLast {f : α → Except Fault β} {as : List α} : ∀ {bs : List β} {a : α}, as.mapM f = .ok bs →
    as.getLast? = some a → ∃ b, f a = .ok b ∧ bs.getLast? = some b := by
  induction as with
  | nil =>
    intro bs a _ hlast
    cases hlast
  | cons first rest ih =>
    intro bs a h hlast
    obtain ⟨b, later, hb, hlater, rfl⟩ := mapM_cons_eq_ok.mp h
    cases rest with
    | nil =>
      cases hlater
      cases hlast
      exact ⟨b, hb, rfl⟩
    | cons second rest =>
      rw [List.getLast?_cons_cons] at hlast
      obtain ⟨final, hfinal, hlater'⟩ := ih hlater hlast
      obtain ⟨_, _, -, -, rfl⟩ := mapM_cons_eq_ok.mp hlater
      exact ⟨final, hfinal, by rw [List.getLast?_cons_cons]; exact hlater'⟩

theorem mapM_image {γ δ : Type} {f : α → Except Fault β} {g : γ → Except Fault δ} {m : α → γ} {k : β → δ}
    (hfg : ∀ {a b}, f a = .ok b → g (m a) = .ok (k b)) {as : List α} :
    ∀ {bs : List β}, as.mapM f = .ok bs → (as.map m).mapM g = .ok (bs.map k) := by
  induction as with
  | nil =>
    intro bs h
    cases h
    rfl
  | cons a rest ih =>
    intro bs h
    obtain ⟨b, later, hb, hlater, rfl⟩ := mapM_cons_eq_ok.mp h
    exact mapM_cons_eq_ok.mpr ⟨k b, later.map k, hfg hb, ih hlater, rfl⟩

/-! ## Two computations -/

/-- Wherever both answer, the answers are related. -/
def Matches {α β : Type} (r : α → β → Prop) (x : Except Fault α) (y : Except Fault β) : Prop :=
  ∀ a b, x = .ok a → y = .ok b → r a b

namespace Matches

variable {γ δ : Type} {r : α → β → Prop} {x : Except Fault α} {y : Except Fault β}

theorem pure {a : α} {b : β} (h : r a b) : Matches r (Pure.pure a) (Pure.pure b) := by
  intro a' b' ha hb
  cases ha
  cases hb
  exact h

theorem bind {r' : γ → δ → Prop} {f : α → Except Fault γ} {g : β → Except Fault δ} (h : Matches r x y)
    (hfg : ∀ a b, r a b → Matches r' (f a) (g b)) : Matches r' (x >>= f) (y >>= g) := by
  intro c d hc hd
  obtain ⟨a, ha, hfa⟩ := bind_eq_ok.mp hc
  obtain ⟨b, hb, hgb⟩ := bind_eq_ok.mp hd
  exact hfg a b (h a b ha hb) c d hfa hgb

theorem map {r' : γ → δ → Prop} {f : α → γ} {g : β → δ} (h : Matches r x y)
    (hfg : ∀ a b, r a b → r' (f a) (g b)) : Matches r' (f <$> x) (g <$> y) := by
  intro c d hc hd
  obtain ⟨a, ha, rfl⟩ := map_eq_ok.mp hc
  obtain ⟨b, hb, rfl⟩ := map_eq_ok.mp hd
  exact hfg a b (h a b ha hb)

theorem refl (x : Except Fault α) : Matches Eq x x := by
  intro a b ha hb
  rw [ha] at hb
  cases hb
  rfl

theorem mapM {f : α → Except Fault γ} {g : β → Except Fault δ} {m : α → β} {k : γ → δ}
    (hfg : ∀ a, Matches (fun c d => d = k c) (f a) (g (m a))) (as : List α) :
    Matches (fun cs ds => ds = cs.map k) (as.mapM f) ((as.map m).mapM g) := by
  induction as with
  | nil => exact pure rfl
  | cons a rest ih =>
    simp only [List.map_cons, List.mapM_cons]
    refine bind (hfg a) fun c d hd => bind ih fun cs ds hds => pure ?_
    rw [hd, hds, List.map_cons]

end Matches

/-! ## Faults -/

def Fault.isOverflow : Fault → Bool
  | .addOverflow | .subOverflow | .mulOverflow | .negOverflow => true
  | .outOfBounds .. | .noPrevious _ | .noLegs | .durationOutOfBounds => false

/-- No fault but an overflow. -/
def OnlyOverflows (x : Except Fault α) : Prop := ∀ e, x = .error e → e.isOverflow = true

namespace OnlyOverflows

theorem ok (a : α) : OnlyOverflows (.ok a) := fun _ h => by cases h

theorem bind {x : Except Fault α} {f : α → Except Fault β} (hx : OnlyOverflows x)
    (hf : ∀ a, x = .ok a → OnlyOverflows (f a)) : OnlyOverflows (x >>= f) := by
  intro e h
  cases x with
  | error fault =>
    cases h
    exact hx e rfl
  | ok a => exact hf a rfl e h

theorem map {x : Except Fault α} (hx : OnlyOverflows x) (f : α → β) : OnlyOverflows (f <$> x) := by
  intro e h
  cases x with
  | error fault =>
    cases h
    exact hx e rfl
  | ok a => cases h

theorem mapM {f : α → Except Fault β} {as : List α} (hf : ∀ a ∈ as, OnlyOverflows (f a)) :
    OnlyOverflows (as.mapM f) := by
  induction as with
  | nil => exact ok []
  | cons a rest ih =>
    rw [List.mapM_cons]
    refine bind (hf a List.mem_cons_self) fun b _ => bind ?_ fun bs _ => ok (b :: bs)
    exact ih fun a' ha' => hf a' (List.mem_cons_of_mem _ ha')

end OnlyOverflows

theorem ok_of_isOk {x : Except Fault α} (h : x.isOk = true) : ∃ a, x = .ok a := by
  cases x with
  | error e => cases h
  | ok a => exact ⟨a, rfl⟩

namespace Run

theorem result_bind_eq_ok {x : Run ω α} {f : α → Run ω β} {b : β} :
    (x >>= f).result = .ok b ↔ ∃ a, x.result = .ok a ∧ (f a).result = .ok b := by
  obtain ⟨w, r⟩ := x
  cases r with
  | error e =>
    constructor
    · intro h; cases h
    · rintro ⟨_, h, -⟩; cases h
  | ok a =>
    constructor
    · intro h; exact ⟨a, rfl, h⟩
    · rintro ⟨_, h, hf⟩; cases h; exact hf

/-- A step that answers has written its entries before those of what it is carried on with. -/
theorem written_bind_of_result {x : Run ω α} {f : α → Run ω β} {a : α} (h : x.result = .ok a) :
    (x >>= f).written = x.written ++ (f a).written := by
  obtain ⟨w, r⟩ := x
  cases h
  rfl

theorem written_bind_pure (x : Run ω α) (f : α → β) : (x >>= fun a => Pure.pure (f a)).written = x.written := by
  obtain ⟨w, r⟩ := x
  cases r with
  | error e => rfl
  | ok a => exact List.append_nil _

theorem bind_congr_of_result {x : Run ω α} {f g : α → Run ω β} (h : ∀ a, x.result = .ok a → f a = g a) :
    x >>= f = x >>= g := by
  obtain ⟨w, r⟩ := x
  cases r with
  | error e => rfl
  | ok a => rw [ok_bind, ok_bind, h a rfl]

@[simp] theorem result_lift (x : Except Fault α) : (liftM x : Run ω α).result = x := rfl

@[simp] theorem result_write (entry : ω) : (Run.write entry).result = .ok () := rfl

theorem result_bind (x : Run ω α) (f : α → Run ω β) : (x >>= f).result = x.result >>= fun a => (f a).result := by
  obtain ⟨w, r⟩ := x
  cases r <;> rfl

theorem result_map (f : α → β) (x : Run ω α) : (f <$> x).result = f <$> x.result := by
  obtain ⟨w, r⟩ := x
  cases r with
  | error e => rw [map_error]; rfl
  | ok a => rw [map_ok]; rfl

theorem lift_map_bind (f : α → β) (x : Except Fault α) (g : β → Run ω υ) :
    (liftM (f <$> x) : Run ω β) >>= g = (liftM x : Run ω α) >>= fun a => g (f a) := by
  cases x <;> rfl

theorem matches_bind {γ δ : Type} {r : α → β → Prop} {r' : γ → δ → Prop} {x : Run ω α} {y : Run υ β}
    {f : α → Run ω γ} {g : β → Run υ δ} (h : Matches r x.result y.result)
    (hfg : ∀ a b, r a b → Matches r' (f a).result (g b).result) :
    Matches r' (x >>= f).result (y >>= g).result := by
  intro c d hc hd
  obtain ⟨a, ha, hfa⟩ := result_bind_eq_ok.mp hc
  obtain ⟨b, hb, hgb⟩ := result_bind_eq_ok.mp hd
  exact hfg a b (h a b ha hb) c d hfa hgb

end Run

end TransitSearch
