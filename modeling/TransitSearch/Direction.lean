/-
  TransitSearch.Direction — which way a search moves through time.

  A forward search departs after a given time; a reverse search arrives before one. The
  same search code serves both: `plus`, `minus`, `isAfter` and `between` are meant in
  search order, so that "plus" of a reverse search goes back on the clock.
-/

import TransitSearch.Checked

namespace TransitSearch

inductive Direction where
  | forward
  | reverse
  deriving DecidableEq, Repr

namespace Direction

def name : Direction → String
  | .forward => "forward"
  | .reverse => "reverse"

def isForward : Direction → Bool
  | .forward => true
  | .reverse => false

def plus (dir : Direction) (time duration : Int) : Except Fault Int :=
  match dir with
  | .forward => Checked.add time duration
  | .reverse => Checked.sub time duration

def minus (dir : Direction) (time duration : Int) : Except Fault Int :=
  match dir with
  | .forward => Checked.sub time duration
  | .reverse => Checked.add time duration

/-- Whether `candidate` comes strictly after `subject`. -/
def isAfter (dir : Direction) (subject candidate : Int) : Bool :=
  match dir with
  | .forward => candidate > subject
  | .reverse => candidate < subject

/-- The time that passes from `earlier` to `later`. -/
def between (dir : Direction) (earlier later : Int) : Except Fault Int :=
  match dir with
  | .forward => Checked.sub later earlier
  | .reverse => Checked.sub earlier later

end Direction

end TransitSearch
