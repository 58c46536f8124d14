/-
  TransitSearch.Run — a computation that writes entries and may stop at a fault.

  `Run ω α` is what is left of such a computation: the entries written, in order, and
  its result. Entries written before a fault stay written. It is a lawful monad, a
  fault-only computation lifts into it writing nothing, and `written_bind` says that a
  later step only ever appends. The simp lemmas carry out a step whose result is known.

  What is written is mostly the log. A log event has a level, a constant message and named
  fields that are numbers or text. Which events are heard is up to the subscriber. Texts
  are only made for an event that is (`log`), so that a fault in them stays away with it;
  an event without them is made anyway, and passed on if it is heard (`heard`).
-/

import TransitSearch.Checked

namespace TransitSearch

structure Run (ω α : Type) where
  written : List ω
  result : Except Fault α

namespace Run

variable {ω υ α β γ : Type}

def pure (a : α) : Run ω α := ⟨[], .ok a⟩

def bind (x : Run ω α) (f : α → Run ω β) : Run ω β :=
  match x.result with
  | .ok a => ⟨x.written ++ (f a).written, (f a).result⟩
  | .error e => ⟨x.written, .error e⟩

instance : Monad (Run ω) where
  pure := Run.pure
  bind := Run.bind

/-- A computation that only faults or answers writes nothing. -/
def ofExcept (x : Except Fault α) : Run ω α := ⟨[], x⟩

instance : MonadLift (Except Fault) (Run ω) where
  monadLift := ofExcept

def write (entry : ω) : Run ω Unit := ⟨[entry], .ok ()⟩

/-- The same computation, with every entry it wrote passed through `f`. -/
def mapWritten (f : ω → υ) (x : Run ω α) : Run υ α := ⟨x.written.map f, x.result⟩

@[ext] theorem ext {x y : Run ω α} (hw : x.written = y.written) (hr : x.result = y.result) : x = y := by
  cases x; cases y; simp_all

theorem pure_bind (a : α) (f : α → Run ω β) : (Run.pure a).bind f = f a := by
  ext <;> simp [Run.pure, Run.bind]

theorem bind_pure (x : Run ω α) : x.bind Run.pure = x := by
  unfold Run.bind; split <;> rename_i h <;> ext <;> simp [Run.pure, h]

theorem bind_assoc (x : Run ω α) (f : α → Run ω β) (g : β → Run ω γ) :
    (x.bind f).bind g = x.bind fun a => (f a).bind g := by
  cases x with
  | mk w r =>
    cases r with
    | error e => rfl
    | ok a =>
      cases hf : f a with
      | mk w' r' => cases r' <;> simp [Run.bind, hf]

instance : LawfulMonad (Run ω) := LawfulMonad.mk' (Run ω)
  (fun x => bind_pure x) (fun a f => pure_bind a f) (fun x f g => bind_assoc x f g)

/-! ## Steps -/

/-- What the first step wrote is a beginning of what the whole writes. -/
theorem written_bind (x : Run ω α) (f : α → Run ω β) :
    ∃ more, (x >>= f).written = x.written ++ more := by
  cases x with
  | mk w r =>
    cases r with
    | error e => exact ⟨[], by simp [Bind.bind, Run.bind]⟩
    | ok a => exact ⟨(f a).written, rfl⟩

@[simp] theorem ok_bind (w : List ω) (a : α) (f : α → Run ω β) :
    (⟨w, .ok a⟩ : Run ω α) >>= f = ⟨w ++ (f a).written, (f a).result⟩ := rfl

@[simp] theorem error_bind (w : List ω) (e : Fault) (f : α → Run ω β) :
    (⟨w, .error e⟩ : Run ω α) >>= f = ⟨w, .error e⟩ := rfl

@[simp] theorem map_ok (f : α → β) (w : List ω) (a : α) :
    f <$> (⟨w, .ok a⟩ : Run ω α) = ⟨w, .ok (f a)⟩ := by
  rw [map_eq_pure_bind, ok_bind]
  ext <;> simp [Pure.pure, Run.pure]

@[simp] theorem map_error (f : α → β) (w : List ω) (e : Fault) :
    f <$> (⟨w, .error e⟩ : Run ω α) = ⟨w, .error e⟩ := by
  rw [map_eq_pure_bind, error_bind]

@[simp] theorem lift_ok (a : α) : (liftM (Except.ok a : Except Fault α) : Run ω α) = Pure.pure a := rfl

@[simp] theorem lift_error (e : Fault) :
    (liftM (Except.error e : Except Fault α) : Run ω α) = ⟨[], .error e⟩ := rfl

@[simp] theorem written_pure (a : α) : (Pure.pure a : Run ω α).written = [] := rfl

@[simp] theorem result_pure (a : α) : (Pure.pure a : Run ω α).result = .ok a := rfl

end Run

/-! ## The log -/

inductive Level where
  | trace
  | debug
  | warn
  deriving DecidableEq, Repr

inductive FieldValue where
  | number (n : Int)
  | text (s : String)
  deriving DecidableEq, Repr

structure LogEvent where
  level : Level
  message : String
  fields : List (String × FieldValue)
  deriving DecidableEq, Repr

/-- Whether events of this level and message are heard. -/
abbrev Subscriber := Level → String → Bool

namespace Run

def log {ω : Type} (hears : Subscriber) (entry : LogEvent → ω) (level : Level) (message : String)
    (fields : Except Fault (List (String × FieldValue))) : Run ω Unit :=
  if hears level message then do
    let fields ← fields
    write (entry ⟨level, message, fields⟩)
  else Pure.pure ()

def heard {α : Type} (hears : Subscriber) (x : Run LogEvent α) : Run LogEvent α :=
  ⟨x.written.filter fun e => hears e.level e.message, x.result⟩

end Run

end TransitSearch
