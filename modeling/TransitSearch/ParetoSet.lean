/-
  TransitSearch.ParetoSet — values of which none dominates another.

  An `Advantage` answers whether its left argument is better than its right one on some
  criterion; it may fault, since some criteria are computed. Asked both ways it gives the
  four relations: a trade-off (each is better somewhere), dominance one way or the other,
  and equivalence. No order law is assumed of it.

  A candidate is scanned against the members in order. The first member in a one-sided
  relation with it decides: a member that dominates it blocks it, a member it dominates
  lets it in. With no such member the first equivalent one blocks it (`blocker`). A
  candidate let in removes every member it dominates and becomes the newest member.

  The members are kept in two parts, those there at the last mark and those accepted
  since, so that "accepted since the mark" is a part of the set and not an index into it.
  Every decision is told to a listener, which sees it after it is made and cannot change
  it.
-/

import TransitSearch.Run

namespace TransitSearch

abbrev Advantage (α : Type) := α → α → Except Fault Bool

inductive SetEvent (α : Type) where
  | accepted (element : α)
  | dropped (element cause : α)
  | rejected (element cause : α)
  deriving DecidableEq, Repr

abbrev Listener (α ω : Type) := SetEvent α → Run ω Unit

structure ParetoSet (α ω : Type) where
  advantage : Advantage α
  listener : Listener α ω
  /-- The members there at the last mark, oldest first. -/
  settled : List α
  /-- The members accepted since. -/
  fresh : List α

namespace ParetoSet

variable {α ω : Type}

/-- Hears nothing. -/
def silent : Listener α ω := fun _ => pure ()

def empty (advantage : Advantage α) (listener : Listener α ω) : ParetoSet α ω := ⟨advantage, listener, [], []⟩

def members (s : ParetoSet α ω) : List α := s.settled ++ s.fresh

def size (s : ParetoSet α ω) : Nat := s.members.length

def get? (s : ParetoSet α ω) (i : Nat) : Option α := s.members[i]?

/-! ## Decisions -/

/-- The member among these that keeps `c` out. `equal` is the first equivalent one met before. -/
def blockerFrom (adv : Advantage α) (c : α) (equal : Option α) : List α → Except Fault (Option α)
  | [] => pure equal
  | m :: rest => do
    let candidateBetter ← adv c m
    let memberBetter ← adv m c
    match candidateBetter, memberBetter with
    | true, true => blockerFrom adv c equal rest
    | true, false => pure none
    | false, true => pure (some m)
    | false, false => blockerFrom adv c (equal.or (some m)) rest

def blocker (s : ParetoSet α ω) (c : α) : Except Fault (Option α) := blockerFrom s.advantage c none s.members

/-- Whether `c` would be let in. -/
def qualify (s : ParetoSet α ω) (c : α) : Except Fault Bool := Option.isNone <$> s.blocker c

/-- Whether `l` is better than `r` somewhere and worse nowhere. -/
def dominates (adv : Advantage α) (l r : α) : Except Fault Bool := do
  if ← adv l r then not <$> adv r l else pure false

/-- These members without those that `c` dominates, each of which is told as dropped. -/
def sweep (adv : Advantage α) (tell : Listener α ω) (c : α) : List α → Run ω (List α)
  | [] => pure []
  | m :: rest => do
    if ← dominates adv c m then
      tell (.dropped m c)
      sweep adv tell c rest
    else
      let kept ← sweep adv tell c rest
      pure (m :: kept)

/-! ## Operations -/

/-- Offers `c` to the set, and says whether it was let in. -/
def add (s : ParetoSet α ω) (c : α) : Run ω (Bool × ParetoSet α ω) := do
  match ← s.blocker c with
  | some m =>
    s.listener (.rejected c m)
    pure (false, s)
  | none =>
    let settled ← sweep s.advantage s.listener c s.settled
    let fresh ← sweep s.advantage s.listener c s.fresh
    s.listener (.accepted c)
    pure (true, { s with settled, fresh := fresh ++ [c] })

def markEnd (s : ParetoSet α ω) : ParetoSet α ω := { s with settled := s.members, fresh := [] }

/-- How many of the members were there at the last mark. -/
def mark (s : ParetoSet α ω) : Nat := s.settled.length

def addedSinceMark (s : ParetoSet α ω) : List α := s.fresh

def clear (s : ParetoSet α ω) : ParetoSet α ω := { s with settled := [], fresh := [] }

def setListener (s : ParetoSet α ω) (listener : Listener α ω) : ParetoSet α ω := { s with listener }

def debugText (s : ParetoSet α ω) (element : α → String) : String :=
  let elements := String.intercalate ", " (s.members.map element)
  s!"ParetoSet \x7b elements: [{elements}], mark: {s.mark}, .. \x7d"

/-! ## Views -/

@[simp] theorem members_empty (adv : Advantage α) (l : Listener α ω) : (empty adv l).members = [] := rfl

@[simp] theorem members_clear (s : ParetoSet α ω) : s.clear.members = [] := rfl

@[simp] theorem members_markEnd (s : ParetoSet α ω) : s.markEnd.members = s.members := by
  simp [markEnd, members]

@[simp] theorem members_setListener (s : ParetoSet α ω) (l : Listener α ω) :
    (s.setListener l).members = s.members := rfl

end ParetoSet

end TransitSearch
