/-
  TransitSearch.Proofs.Arena.Shift — re-timing an access arrival.

  An access arrival is moved to the time nearest to the one asked for at which its leg can
  reach the stop: the last one up to it in a forward search, the first one from it on in a
  reverse one (`Nearest`). `Retimes` lists what can come of it. The arrival is refused
  where there is no such time, kept where it stands there already, and otherwise appended
  once more, the same in all but its time (`IsRoot.moved`).

  The time that is found is the nearest one to itself (`Nearest.again`). So a move is
  settled at once: asked for the same time again, or for the time it has been given, an
  arrival stays (`shift_of_settled`).
-/

import TransitSearch.Proofs.Arena.Traced
import TransitSearch.Proofs.Leg

namespace TransitSearch

open Checked

namespace Arena

/-- The time nearest to `requested`, in search order not after it, at which `leg` can reach its stop. -/
def Nearest (dir : Direction) (leg : Leg) (requested time : Int) : Prop :=
  match dir with
  | .forward => IsGreatest (leg.arrivalsBy requested) time
  | .reverse => IsLeast (leg.departuresFrom requested) time

/-! ## The nearest time -/

variable {dir : Direction} {leg : Leg} {requested time departure : Int}

theorem nearest_of_no_hours (h : leg.hours = none) (dir : Direction) (requested : Int) :
    Nearest dir leg requested requested := by
  cases dir with
  | forward => exact ⟨⟨Int.le_refl _, Leg.openAt_of_no_hours h _⟩, fun _ ht => ht.1⟩
  | reverse => exact ⟨⟨Int.le_refl _, Leg.openAt_of_no_hours h _⟩, fun _ ht => ht.1⟩

theorem Nearest.again (h : Nearest dir leg requested time) : Nearest dir leg time time := by
  cases dir with
  | forward => exact ⟨⟨Int.le_refl _, h.1.2⟩, fun _ ht => ht.1⟩
  | reverse => exact ⟨⟨Int.le_refl _, h.1.2⟩, fun _ ht => ht.1⟩

theorem shiftedTime_iff {time? : Option Int} (hopens : leg.Opens) (h : shiftedTime dir leg requested = .ok time?) :
    (∀ time, time? = some time ↔ Nearest dir leg requested time) ∧
      (time? = none ↔ ∀ time, ¬ Nearest dir leg requested time) := by
  have hfound : ∀ time, time? = some time ↔ Nearest dir leg requested time := by
    cases dir with
    | forward => exact (Leg.latestArrival_iff hopens h).1
    | reverse =>
      cases h
      exact (Leg.earliestDeparture_iff hopens requested).1
  refine ⟨hfound, ?_⟩
  simp only [← hfound, Option.eq_none_iff_forall_ne_some, ne_eq]

theorem shiftedTime_of_nearest (h : Nearest dir leg requested time)
    (hdeparture : dir.minus time leg.duration = .ok departure) (htime : Fits time) :
    shiftedTime dir leg time = .ok (some time) := by
  cases dir with
  | forward =>
    obtain ⟨hfits, rfl⟩ := sub_ok_iff.mp hdeparture
    exact Leg.latestArrival_of_openAt h.1.2 hfits htime
  | reverse =>
    have hopen : leg.OpenAt time := h.1.2
    exact congrArg _ (((Leg.earliestDeparture_iff hopen.opens time).1 time).mpr h.again)

/-! ## What can come of it -/

variable {arena arena' : Arena} {id : Nat} {node : Arrival}

/-- What can come of re-timing the access arrival `node`, which has `leg`. -/
inductive Retimes (arena : Arena) (id : Nat) (node : Arrival) (leg : Leg) (requested : Int) :
    Except ShiftError Nat → Arena → Prop
  | refused : shiftedTime arena.direction leg requested = .ok none →
      Retimes arena id node leg requested (.error (.notAvailable node.stop requested)) arena
  | kept : shiftedTime arena.direction leg requested = .ok (some node.time) →
      Retimes arena id node leg requested (.ok id) arena
  | moved (time departure : Int) (next : Nat) (arena' : Arena) :
      shiftedTime arena.direction leg requested = .ok (some time) → time ≠ node.time →
      arena.direction.minus time leg.duration = .ok departure → arena.access departure leg = .ok (arena', next) →
      Retimes arena id node leg requested (.ok next) arena'

theorem retimes_of_result (hget : arena.get id = .ok node) (hk : node.kind = .access leg)
    {outcome : Except ShiftError Nat} (h : (arena.shift id requested).result = .ok (outcome, arena')) :
    Retimes arena id node leg requested outcome arena' := by
  simp only [shift, Run.result_bind_eq_ok, Run.result_lift] at h
  obtain ⟨_, hget', h⟩ := h
  cases hget.symm.trans hget'
  simp only [hk, Run.result_bind_eq_ok, Run.result_lift] at h
  obtain ⟨time?, htime, h⟩ := h
  cases time? with
  | none =>
    cases h
    exact .refused htime
  | some time =>
    by_cases hsame : time = node.time
    · simp only [if_pos hsame] at h
      cases h
      exact .kept (hsame ▸ htime)
    · simp only [if_neg hsame, Run.result_bind_eq_ok, Run.result_lift] at h
      obtain ⟨departure, hd, -, -, ⟨next, id'⟩, hp, h⟩ := h
      cases h
      exact .moved time departure id' next htime hsame hd hp

theorem shift_of_other (hget : arena.get id = .ok node) (hk : ∀ leg, node.kind ≠ .access leg) (requested : Int) :
    arena.shift id requested = pure (.error (.unsupported node.kind.name node.stop), arena) := by
  rw [shift, hget]
  cases hkind : node.kind with
  | access leg => exact absurd hkind (hk leg)
  | transit boarding => simp only [Run.lift_ok, pure_bind, hkind]
  | transfer fromStop duration => simp only [Run.lift_ok, pure_bind, hkind]

/-- An access arrival that stands where its leg would take it stays, and nothing is told of it. -/
theorem shift_of_settled (hget : arena.get id = .ok node) (hk : node.kind = .access leg)
    (h : shiftedTime arena.direction leg requested = .ok (some node.time)) :
    arena.shift id requested = pure (.ok id, arena) := by
  rw [shift, hget]
  simp only [Run.lift_ok, pure_bind, hk, h, if_true]

/-- All that re-timing can do. -/
theorem shift_cases {outcome : Except ShiftError Nat} (h : (arena.shift id requested).result = .ok (outcome, arena')) :
    ∃ node, arena.get id = .ok node ∧ ((∃ why, outcome = .error why ∧ arena' = arena) ∨
      ∃ leg, node.kind = .access leg ∧ Retimes arena id node leg requested outcome arena') := by
  obtain ⟨node, hget, -⟩ := Run.result_bind_eq_ok.mp h
  refine ⟨node, hget, ?_⟩
  by_cases hleg : ∃ leg, node.kind = .access leg
  · obtain ⟨leg, hk⟩ := hleg
    exact Or.inr ⟨leg, hk, retimes_of_result hget hk h⟩
  · rw [shift_of_other hget fun leg hk => hleg ⟨leg, hk⟩] at h
    cases h
    exact Or.inl ⟨_, rfl, rfl⟩

theorem shift_error_keeps {why : ShiftError} (h : (arena.shift id requested).result = .ok (.error why, arena')) :
    arena' = arena := by
  obtain ⟨node, -, ⟨_, -, hsame⟩ | ⟨leg, -, hretimes⟩⟩ := shift_cases h
  · exact hsame
  · cases hretimes with
    | refused _ => rfl

theorem access_onlyOverflows (arena : Arena) (departure : Int) (leg : Leg) :
    OnlyOverflows (arena.access departure leg) :=
  .bind (Direction.fitCount_onlyOverflows rfl _) fun _ _ => .bind (Direction.plus_onlyOverflows _ _ _) fun _ _ => .ok _

theorem shiftedTime_onlyOverflows (dir : Direction) (leg : Leg) (requested : Int) :
    OnlyOverflows (shiftedTime dir leg requested) := by
  cases dir with
  | forward => exact Leg.latestArrival_onlyOverflows leg requested
  | reverse => exact .ok _

theorem shift_onlyOverflows (hget : arena.get id = .ok node) (requested : Int) :
    OnlyOverflows (arena.shift id requested).result := by
  cases hk : node.kind with
  | transit boarding =>
    rw [shift_of_other hget (by simp [hk])]
    exact .ok _
  | transfer fromStop duration =>
    rw [shift_of_other hget (by simp [hk])]
    exact .ok _
  | access leg =>
    rw [shift, hget]
    simp only [Run.lift_ok, pure_bind, hk, Run.result_bind, Run.result_lift]
    refine .bind (shiftedTime_onlyOverflows _ _ _) fun time? _ => ?_
    cases time? with
    | none => exact .ok _
    | some time =>
      by_cases hsame : time = node.time
      · simp only [if_pos hsame]
        exact .ok _
      · simp only [if_neg hsame, Run.result_bind, Run.result_lift]
        refine .bind (Direction.minus_onlyOverflows _ _ _) fun departure _ => .bind (.ok _) fun _ _ => ?_
        exact .bind (access_onlyOverflows arena departure leg) fun _ _ => .ok _

/-! ## Roots -/

theorem IsRoot.moved {next : Arrival} (h : IsRoot dir leg node) (hnext : IsRoot dir leg next) :
    next = { node with time := next.time } := by
  obtain ⟨hk, hp, -, hround, hstop, hduration, hcost⟩ := h
  obtain ⟨hk', hp', -, hround', hstop', hduration', hcost'⟩ := hnext
  cases node
  cases next
  simp_all

theorem reach_isRoot {allowed : Op → Bool} (reach : Reach allowed arena) (hget : arena.get id = .ok node)
    (hp : node.previous = none) (hk : node.kind = .access leg) : IsRoot arena.direction leg node := by
  obtain ⟨leg', hroot⟩ := root_of_reach reach hget hp
  cases hk.symm.trans hroot.kind
  exact hroot

/-- A leg that is set out on as long before `time` as it takes, in search order, reaches its stop at `time`. -/
theorem access_of_minus {next : Nat} (hdeparture : arena.direction.minus time leg.duration = .ok departure)
    (h : arena.access departure leg = .ok (arena', next)) :
    ∃ root, IsRoot arena.direction leg root ∧ root.time = time ∧ Fits time ∧ (arena', next) = arena.push root := by
  obtain ⟨root, ht, hroot, hpush⟩ := access_of_result h
  obtain ⟨hfits, hforth⟩ := Direction.plus_eq_ok.mp ht
  obtain ⟨-, hback⟩ := Direction.minus_eq_ok.mp hdeparture
  have hpos : arena.direction.pos root.time = arena.direction.pos time := by omega
  have htime : root.time = time := Direction.pos_inj.mp hpos
  exact ⟨root, hroot, htime, htime ▸ hfits, hpush⟩

/-! ## Any access arrival -/

/-- Only an overflow keeps re-timing from an answer. A ride or a walk is refused, and whatever is refused leaves the arena
as it is. A root whose leg is open at some time is refused exactly when there is no time to move it to. Otherwise it is
kept where it stands at that time already, or else appended with that time and the same in all else; and from then on it
is kept, when asked again for the same time or for the one it has been given. -/
theorem shift_moves_to_nearest (reach : Reach Op.inRange arena) (hget : arena.get id = .ok node) (requested : Int) :
    OnlyOverflows (arena.shift id requested).result ∧
    ((∀ leg, node.kind ≠ .access leg) →
      arena.shift id requested = pure (.error (.unsupported node.kind.name node.stop), arena)) ∧
    ∀ outcome arena', (arena.shift id requested).result = .ok (outcome, arena') →
      (∀ why, outcome = .error why → arena' = arena) ∧
      ∀ leg, node.previous = none → node.kind = .access leg → leg.Opens →
        (leg.hours = none → Nearest arena.direction leg requested requested) ∧
        (outcome = .error (.notAvailable node.stop requested) ↔ ∀ time, ¬ Nearest arena.direction leg requested time) ∧
        ∀ time, Nearest arena.direction leg requested time →
          (time = node.time → outcome = .ok id ∧ arena' = arena) ∧
          (time ≠ node.time → outcome = .ok arena.size ∧ arena' = (arena.push { node with time }).1) ∧
          ∀ next, outcome = .ok next → ∀ again, again = requested ∨ again = time →
            arena'.shift next again = pure (.ok next, arena') := by
  refine ⟨shift_onlyOverflows hget requested, fun hk => shift_of_other hget hk requested, fun outcome arena' h =>
    ⟨fun why hwhy => shift_error_keeps (hwhy ▸ h), fun leg hp hk hopens =>
      ⟨fun hh => nearest_of_no_hours hh _ _, ?_⟩⟩⟩
  have hroot : IsRoot arena.direction leg node := reach_isRoot reach hget hp hk
  cases retimes_of_result hget hk h with
  | refused hnone =>
    obtain ⟨-, hmissed⟩ := shiftedTime_iff hopens hnone
    have hnever := hmissed.mp rfl
    exact ⟨⟨fun _ => hnever, fun _ => rfl⟩, fun time hnearest => absurd hnearest (hnever time)⟩
  | kept hkept =>
    obtain ⟨hfound, -⟩ := shiftedTime_iff hopens hkept
    have hnearest := (hfound node.time).mp rfl
    obtain ⟨_, departure, hk', hdeparture⟩ := (reach_inRange reach id node hget).departure hp
    cases hk.symm.trans hk'
    refine ⟨⟨nofun, fun hnever => absurd hnearest (hnever _)⟩, fun time htime => ?_⟩
    cases (hfound time).mpr htime
    refine ⟨fun _ => ⟨rfl, rfl⟩, fun hne => absurd rfl hne, fun next hnext again hagain => ?_⟩
    cases hnext
    refine shift_of_settled hget hk ?_
    rcases hagain with rfl | rfl
    · exact hkept
    · exact shiftedTime_of_nearest hnearest hdeparture (reach_inRange reach id node hget).time
  | moved time departure next _ hmoved hne hdeparture haccess =>
    obtain ⟨hfound, -⟩ := shiftedTime_iff hopens hmoved
    have hnearest := (hfound time).mp rfl
    obtain ⟨next, hnext, rfl, hfits, hpush⟩ := access_of_minus hdeparture haccess
    rw [hroot.moved hnext] at hpush
    cases hpush
    refine ⟨⟨nofun, fun hnever => absurd hnearest (hnever _)⟩, fun time' htime => ?_⟩
    cases (hfound time').mpr htime
    refine ⟨fun heq => absurd heq hne, fun _ => ⟨rfl, rfl⟩, fun next hnext again hagain => ?_⟩
    cases hnext
    refine shift_of_settled (get_push.mpr (Or.inr ⟨rfl, rfl⟩)) hk ?_
    rcases hagain with rfl | rfl
    · exact hmoved
    · exact shiftedTime_of_nearest hnearest hdeparture hfits

/-- An arrive-by walk asked to be at its stop before it opens is moved to when it opens, and stays there. It is refused
at the time it had, for that is after hours. -/
theorem shift_moves_to_nearest_arrive_by :
    let leg : Leg := (Leg.walk 1 100 6000).withHours 500 800
    let node : Arrival := ⟨none, 0, 1, 900, 100, 6000, .access leg⟩
    let arena : Arena := ⟨.reverse, #[node]⟩
    let after : Arena := ⟨.reverse, #[node, { node with time := 500 }]⟩
    Reach Op.inRange arena ∧ arena.get 0 = .ok node ∧ Nearest .reverse leg 400 500 ∧
      (arena.shift 0 400).result = .ok (.ok 1, after) ∧ after.shift 1 400 = pure (.ok 1, after) ∧
      after.shift 1 500 = pure (.ok 1, after) ∧ (arena.shift 0 900).result = .ok (.error (.notAvailable 1 900), arena) ∧
      ∀ time, ¬ Nearest .reverse leg 900 time := by
  intro leg node arena after
  have reach : Reach Op.inRange arena := .step (.access 1000 leg) (.empty .reverse) rfl rfl
  have hget : arena.get 0 = .ok node := rfl
  have hopens : leg.Opens := by decide
  have hnearest : Nearest .reverse leg 400 500 :=
    ⟨⟨by decide, by decide⟩, fun time htime => ((Leg.openAt_of_hours rfl).mp htime.2).1⟩
  have hmoved : (arena.shift 0 400).result = .ok (.ok 1, after) := rfl
  have hrefused : (arena.shift 0 900).result = .ok (.error (.notAvailable 1 900), arena) := rfl
  obtain ⟨-, -, hmoves⟩ := shift_moves_to_nearest reach hget 400
  obtain ⟨-, -, hstays⟩ := (hmoves _ _ hmoved).2 leg rfl rfl hopens
  obtain ⟨-, -, hsettled⟩ := hstays 500 hnearest
  obtain ⟨-, -, hanswers⟩ := shift_moves_to_nearest reach hget 900
  obtain ⟨-, hnever, -⟩ := (hanswers _ _ hrefused).2 leg rfl rfl hopens
  exact ⟨reach, hget, hnearest, hmoved, hsettled 1 rfl 400 (Or.inl rfl), hsettled 1 rfl 500 (Or.inr rfl), hrefused,
    hnever.mp rfl⟩

end Arena

end TransitSearch
