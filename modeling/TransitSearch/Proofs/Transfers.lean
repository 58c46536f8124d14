/-
  TransitSearch.Proofs.Transfers — the transfers counted at the destination.

  The legs of a journey are not counted. The transfers come from the pareto round, which a
  ride and a walk raise alike, two of them to a round: after an access leg of `a` rides,
  `r` rides and `w` walks, and before an egress leg of `e` rides, the count is
  `a + ⌈(r + w) / 2⌉ + e - 1`, in any order of rides and walks (`transfers_of_built`).
  - It is one less than the rides of the journey when rides and walks alternate from the
    first ride on, as they do in a search by rounds.
  - In other orders it is so only when the walks happen to be as many as the rides or one
    fewer. Two rides with no walk between share a round, and the second is not counted
    (`consecutive_rides_share_a_round`).
-/

import Mathlib.Data.Bool.Count
import TransitSearch.Proofs.Arena.Ordered
import TransitSearch.Proofs.Destination
import TransitSearch.Proofs.Journey.Map

namespace TransitSearch

namespace ArrivalKind

def isTransit : ArrivalKind → Bool
  | .transit _ => true
  | _ => false

def isTransfer : ArrivalKind → Bool
  | .transfer .. => true
  | _ => false

end ArrivalKind

namespace Arena

/-! ## Counting along a chain -/

def rides (hops : List Arrival) : Nat := hops.countP (·.kind.isTransit)

def walks (hops : List Arrival) : Nat := hops.countP (·.kind.isTransfer)

/-- Of any two neighbours one is a ride and one is not; the access arrival is not. -/
def Alternates (steps : List Arrival) : Prop := (steps.map (·.kind.isTransit)).IsChain (· ≠ ·)

instance (steps : List Arrival) : Decidable (Alternates steps) := inferInstanceAs (Decidable (List.IsChain _ _))

theorem Follows.isTransfer {dir : Direction} {prev node : Arrival} (h : Follows dir prev node) :
    node.kind.isTransfer = !node.kind.isTransit := by
  cases h with
  | transit boarding _ hk => rw [hk]; rfl
  | transfer duration _ _ hk => rw [hk]; rfl

theorem Trail.counts {dir : Direction} {steps : List Arrival} (h : Trail dir steps) :
    ∃ hops root leg, steps = hops ++ [root] ∧ IsRoot dir leg root ∧ hops.length = rides hops + walks hops ∧
      ∀ node ∈ steps.head?, node.paretoRound = 2 * leg.rides + hops.length := by
  induction h with
  | root leg hroot =>
    refine ⟨[], _, leg, rfl, hroot, rfl, fun node hnode => ?_⟩
    cases hnode
    rw [hroot.paretoRound, Nat.mul_comm]
    rfl
  | @hop node prev rest hf _ ih =>
    obtain ⟨hops, root, leg, hsteps, hroot, hlength, hround⟩ := ih
    refine ⟨node :: hops, root, leg, by rw [hsteps, List.cons_append], hroot, ?_, fun n hn => ?_⟩
    · simp only [rides, walks, List.length_cons, List.countP_cons, hf.isTransfer] at hlength ⊢
      rw [hlength]
      cases node.kind.isTransit <;> simp <;> omega
    · cases hn
      rw [hf.paretoRound, hround prev rfl, List.length_cons, Nat.add_assoc]

theorem rides_of_alternates {hops : List Arrival} {root : Arrival} (hroot : root.kind.isTransit = false)
    (h : Alternates (hops ++ [root])) : rides hops = (hops.length + 1) / 2 := by
  have hchain : (false :: (hops.map (·.kind.isTransit)).reverse).IsChain (· ≠ ·) := by
    have := List.isChain_reverse.mpr (h.imp fun _ _ hne => hne.symm)
    simpa [Alternates, hroot] using this
  have hcount := hchain.count_not_cons
  have htotal := List.count_false_add_count_true (hops.map (·.kind.isTransit))
  simp only [Bool.not_false, List.count_reverse, List.length_reverse, List.length_map] at hcount htotal
  have hrides : rides hops = (hops.map (·.kind.isTransit)).count true := by
    rw [rides, List.count, List.countP_map]
    congr 1
    funext hop
    simp
  omega

end Arena

/-! ## The destination -/

open Arena

/-- What is counted at the destination, and when it is one less than the rides of the journey. -/
theorem transfers_of_built {arena : Arena} (built : arena.Built) {terms : Collaborators} {id : Nat} {egress : Leg}
    {d : Destination} (h : terms.destination? arena id egress = .ok (some d)) :
    ∃ steps hops root leg, arena.chain id = .ok steps ∧ steps.map (·.2) = hops ++ [root] ∧ root.kind = .access leg ∧
      hops.length = rides hops + walks hops ∧
      d.transfers = leg.rides + (rides hops + walks hops + 1) / 2 + egress.rides - 1 ∧
      (d.transfers = leg.rides + rides hops + egress.rides - 1 ↔
        walks hops ≤ rides hops ∧ rides hops ≤ walks hops + 1 ∨
          leg.rides + egress.rides = 0 ∧ rides hops ≤ 1 ∧ rides hops + walks hops ≤ 2) ∧
      (Alternates (hops ++ [root]) → d.transfers = leg.rides + rides hops + egress.rides - 1) ∧
      ∀ dir iteration j, Journey.Map.ofChain dir arena d iteration = .ok j → j.transfers = d.transfers := by
  obtain ⟨node, hnode, -, hjoins⟩ := Collaborators.destination_of_result h
  obtain ⟨rest, hchain, htrail⟩ := built_chain built hnode
  obtain ⟨hops, root, leg, hsteps, hroot, hlength, hround⟩ := htrail.counts
  have hcount : d.transfers = leg.rides + (rides hops + walks hops + 1) / 2 + egress.rides - 1 := by
    rw [hjoins.transfers, hround node rfl]
    omega
  refine ⟨_, hops, root, leg, hchain, hsteps, hroot.kind, hlength, hcount, by omega, fun halt => ?_,
    fun dir iteration j hj => ?_⟩
  · have hrides := rides_of_alternates (by rw [hroot.kind]; rfl) halt
    omega
  · obtain ⟨_, _, _, -, -, -, rfl⟩ := Journey.ofChain_of_result hj
    rfl

/-- A ride on demand, a ride, a walk, a ride and another ride on demand: four rides, three transfers. -/
theorem transfers_of_built_four_rides :
    let flex : Arrival := ⟨none, 2, 1, 1060, 60, 0, .access (.flex 1 60 0 1 true)⟩
    let ride : Arrival := ⟨some 0, 3, 2, 2000, 1000, 0, .transit ⟨1, 1100, 7⟩⟩
    let walk : Arrival := ⟨some 1, 4, 3, 2200, 1200, 0, .transfer 2 200⟩
    let last : Arrival := ⟨some 2, 5, 4, 3000, 2000, 0, .transit ⟨3, 2300, 8⟩⟩
    let arena : Arena := ⟨.forward, #[flex, ride, walk, last]⟩
    arena.Built ∧ ∃ d, Terms.destination? ⟨⟨.forward, none⟩, none, 60⟩ arena 3 (.flex 4 300 0 1 false) = .ok (some d) ∧
      d.transfers = 3 := by
  intro flex ride walk last arena
  have built : arena.Built :=
    .step (.transit 2 4 3000 0 ⟨3, 2300, 8⟩) (.step (.transfer 1 3 2200 0) (.step (.transit 0 2 2000 0 ⟨1, 1100, 7⟩)
      (.step (.access 1000 (.flex 1 60 0 1 true)) (.empty .forward) rfl rfl) rfl rfl) rfl rfl) rfl rfl
  have hd : Terms.destination? ⟨⟨.forward, none⟩, none, 60⟩ arena 3 (.flex 4 300 0 1 false) =
      .ok (some ⟨3, .flex 4 300 0 1 false, 3060, 3360, 0, 6, 3⟩) := by decide +kernel
  have hwalked : arena.chain 3 = .ok [(3, last), (2, walk), (1, ride), (0, flex)] := by decide +kernel
  obtain ⟨steps, hops, root, leg, hchain, hsteps, hleg, -, -, -, halternates, -⟩ := transfers_of_built built hd
  cases hwalked.symm.trans hchain
  obtain ⟨rfl, hroot⟩ := List.append_inj' (show [last, walk, ride] ++ [flex] = hops ++ [root] from hsteps) rfl
  cases hroot
  cases hleg
  exact ⟨built, _, hd, (halternates (by decide)).trans (by decide)⟩

/-- The count is not one less than the rides in general, not even when no walk directly follows another: with a ride
straight after a ride, the journey of two rides counts no transfer. -/
theorem consecutive_rides_share_a_round : ¬ ∀ (arena : Arena), arena.Built →
    ∀ (terms : Terms) (id : Nat) (egress : Leg) (d : Destination) (steps : List (Nat × Arrival)) (hops : List Arrival)
      (root : Arrival) (leg : Leg), terms.destination? arena id egress = .ok (some d) → arena.chain id = .ok steps →
      steps.map (·.2) = hops ++ [root] → root.kind = .access leg →
      hops.IsChain (fun a b => (a.kind.isTransfer && b.kind.isTransfer) = false) →
      d.transfers = leg.rides + rides hops + egress.rides - 1 := by
  intro h
  let walk : Arrival := ⟨none, 0, 1, 1060, 60, 0, .access (.walk 1 60 0)⟩
  let first : Arrival := ⟨some 0, 1, 2, 2000, 1000, 0, .transit ⟨1, 1100, 7⟩⟩
  let second : Arrival := ⟨some 1, 2, 3, 3000, 2000, 0, .transit ⟨2, 2100, 8⟩⟩
  have built : Arena.Built ⟨.forward, #[walk, first, second]⟩ :=
    .step (.transit 1 3 3000 0 ⟨2, 2100, 8⟩) (.step (.transit 0 2 2000 0 ⟨1, 1100, 7⟩)
      (.step (.access 1000 (.walk 1 60 0)) (.empty .forward) rfl rfl) rfl rfl) rfl rfl
  have hclaim := h _ built ⟨⟨.forward, none⟩, none, 0⟩ 2 (.walk 3 100 0) ⟨2, .walk 3 100 0, 3000, 3100, 0, 3, 0⟩
    [(2, second), (1, first), (0, walk)] [second, first] walk (.walk 1 60 0) (by decide +kernel) (by decide +kernel)
    rfl rfl (by decide)
  revert hclaim
  decide

end TransitSearch
