import Ledger.Properties.HoldResolution
import Ledger.Runs.LockOrder

/-! # Do Money Movements Deadlock

    A movement keeps an advisory lock and the rows of the snapshots it has
    updated until it commits, and it updates the snapshots in the order of its
    legs.  Nothing makes two movements agree on that order.

    * **Condition**: `Ranked`, the accounts can be ranked so that every
      request of the run updates its snapshots in ascending order.
    * **Result**: `no_deadlock_of_ranked`, then no run deadlocks; two transfers
      in opposite directions do (`opposite_transfers_deadlock`).
-/

namespace Ledger

open ReadCommitted

section ranked

variable {ι κ : Type} [DecidableEq ι] [Preorder κ] [Runtime] {rank : UUID → κ}
  {requests : ι → Request} {d : Database} {clock : Time}

/-- **No deadlock**: money movements that update their snapshots in one order
    never wait for one another in a circle, however they interleave. -/
theorem no_deadlock_of_ranked (hattached : Attached d) (hmoves : ∀ i, (requests i).moves = true)
    (hranked : Ranked rank requests d) {s : Sys ι Database Write Resource Err Reply}
    (hr : Sys.Reachable Sys.all (serve requests d clock) s) : ¬ s.Deadlock Resource.blocking := by
  have hverified := (settled_of_reachable hattached hmoves hr).1
  have horderly : (serve requests d clock).Orderly (snapshotOrder rank requests d) := by
    intro i
    show Orderly _ (requests i).program _ [] []
    rw [Request.program, orderly_bind]
    exact asking_service hranked (hmoves i)
  exact hverified.no_deadlock (RG.logging_sound _ _) horderly
    (fun s hs => (settled_of_reachable hattached hmoves hs).2) hr

end ranked

/-- Two accounts in ascending order, as far as they have snapshots. -/
theorem ascending_pair {κ : Type} [LT κ] {rank : UUID → κ} {a b : UUID} (h : rank a < rank b)
    (p : UUID → Bool) : Ascending rank [] ([a, b].filter p) := by
  cases ha : p a <;> cases hb : p b <;> simp [Ascending, List.filter, ha, hb, h]

open Sample

/-- Alice pays Bob, her hold is captured for Bob, and her funding is reversed. -/
def downstream : Fin 3 → Request
  | 0 => pay bob 60 "k1" sixty_pos
  | 1 => capture 3005
  | 2 => reverse funding "r1"

/-- All three go from the conversion account to Alice, or from Alice to Bob. -/
theorem ranked_downstream {d : Database}
    (halice : (d.accounts.find? alice).map Account.currency = some .USD)
    (hbob : (d.accounts.find? bob).map Account.currency = some .USD)
    (hhold : (d.holds.find? 3005).map Hold.accountId = some alice)
    (hfunding : (d.transactions.find? funding).isSome)
    (hlegs : (d.selectPostings funding).map Posting.accountId = [usd, alice]) :
    Ranked BitVec.toNat downstream d := by
  constructor
  · intro i tenantId xss h
    match i with
    | 0 =>
      replace h : Touches d (pay bob 60 "k1" sixty_pos) tenantId xss := h
      cases h with
      | direct => exact ascending_pair (by decide) _
      | routed _ hsrc hdst hcur =>
        rw [hsrc.1] at halice
        rw [hdst.1] at hbob
        exact absurd (Option.some.inj (halice.trans hbob.symm)) hcur
    | 1 =>
      replace h : Touches d (capture 3005) tenantId xss := h
      cases h with
      | captured hfound =>
        rw [hfound] at hhold
        rw [Option.some.inj hhold]
        exact ascending_pair (by decide) _
    | 2 =>
      replace h : Touches d (reverse funding "r1") tenantId xss := h
      cases h with
      | reversed =>
        rw [hlegs]
        exact ascending_pair (by decide) _
  · intro i tenantId id req key hi hnone
    match i with
    | 2 =>
      replace hi : reverse funding "r1" = .reverse tenantId id req key := hi
      cases hi
      rw [hnone] at hfunding
      cases hfunding

/-- The hold waits for the payment, the payment for the reversal, and the
    reversal for nobody. -/
theorem movements_wait_in_line : ∃ s, Sys.Reachable Sys.all (serve downstream reserved 0) s ∧
    s.WaitsFor Resource.blocking 1 0 ∧ s.WaitsFor Resource.blocking 0 2 ∧
      ¬ s.Deadlock Resource.blocking := by
  obtain ⟨s, hr, hp⟩ := Sys.Reachable.of_exec (s := serve downstream reserved 0)
    (Sys.turns 2 4000 16 ++ Sys.turns 0 5000 13 ++ Sys.turns 1 6000 3)
    (fun s => s.wants 1 = [.advisory (lockKey alice)] ∧
      .advisory (lockKey alice) ∈ (s.sess 0).tx.held ∧
      s.wants 0 = [.row .balances alice] ∧ .row .balances alice ∈ (s.sess 2).tx.held)
    (by decide +kernel)
  obtain ⟨h1, h0, hw, h2⟩ := of_decide_eq_true hp
  have hattached : Attached reserved := by
    unfold Attached
    decide +kernel
  have hranked : Ranked BitVec.toNat downstream reserved :=
    ranked_downstream (by decide +kernel) (by decide +kernel) (by decide +kernel)
      (by decide +kernel) (by decide +kernel)
  refine ⟨s, hr, ⟨by decide, .advisory (lockKey alice), by simp [h1], trivial, h0⟩,
    ⟨by decide, .row .balances alice, by simp [hw], trivial, h2⟩, ?_⟩
  exact no_deadlock_of_ranked hattached (by decide) hranked hr

/-- An account whose advisory lock is not Alice's. -/
def dave : UUID := 73786976294838206464

/-- The sample ledger with an account for Dave, who has 60. -/
def withDave : Database := script
  [(opening "users.dave" "dave" .USD, envAt 0 (2 ^ 66)),
   (.post "acme" [⟨usd, -60, 0⟩, ⟨dave, 60, 0⟩] "funding", envAt 0 1100)] funded

/-- Alice pays Dave and Dave pays Alice. -/
def opposite : Fin 2 → Request
  | 0 => pay dave 50 "k1" fifty_pos
  | 1 => .transfer "acme" ⟨dave, alice, 50, "", none, fifty_pos⟩ "k2"

/-- Each transfer has updated its source and waits for its destination. -/
theorem opposite_transfers_deadlock :
    ¬ ∀ s, Sys.Reachable Sys.all (serve opposite withDave 0) s →
      ¬ s.Deadlock Resource.blocking := by
  intro hall
  obtain ⟨s, hr, hp⟩ := Sys.Reachable.of_exec (s := serve opposite withDave 0)
    (Sys.turns 0 3000 17 ++ Sys.turns 1 4000 17)
    (fun s => s.wants 0 = [.row .balances dave] ∧ .row .balances dave ∈ (s.sess 1).tx.held ∧
      s.wants 1 = [.row .balances alice] ∧ .row .balances alice ∈ (s.sess 0).tx.held)
    (by decide +kernel)
  obtain ⟨h0, hd, h1, ha⟩ := of_decide_eq_true hp
  have hthere : s.WaitsFor Resource.blocking 0 1 :=
    ⟨by decide, .row .balances dave, by simp [h0], trivial, hd⟩
  have hback : s.WaitsFor Resource.blocking 1 0 :=
    ⟨by decide, .row .balances alice, by simp [h1], trivial, ha⟩
  exact hall s hr ⟨0, (Relation.TransGen.single hthere).tail hback⟩

end Ledger
