import Ledger.Framework.Completion
import Ledger.Properties.Deadlocks

/-! # Does Every Money Movement Come to an End

    A movement that has to wait waits for an advisory lock, a snapshot, an
    idempotency record or a hold, and whoever keeps one of these has to come to
    its own commit first.

    * **No circle**: `no_circle_of_ranked`, ranked movements do not wait for one
      another in a circle, whatever it is they wait for.
    * **Result**: `completes_of_ranked`, no run of theirs goes on forever, and
      where nobody can move everyone has been answered.

    Two movements that draw the same identifier are the exception: nothing
    orders the rows they insert under it.
-/

namespace Ledger

open ReadCommitted

section ranked

variable {ι κ : Type} [DecidableEq ι] [Preorder κ] [Runtime] {rank : UUID → κ}
  {requests : ι → Request} {d : Database} {clock : Time}

/-- **No circle**: not through the records and the holds either. -/
theorem no_circle_of_ranked (hattached : Attached d) (hmoves : ∀ i, (requests i).moves = true)
    (hranked : Ranked rank requests d) {s : Sys ι Database Write Resource Err Reply}
    (hr : Sys.Reachable Sys.all (serve requests d clock) s) :
    ¬ s.Deadlock fun r => ¬ r.drawn := by
  have hverified := (settled_of_reachable hattached hmoves hr).1
  have horderly : (serve requests d clock).Orderly (movementOrder rank requests d) := by
    intro i
    show Orderly _ (requests i).program _ [] []
    rw [Request.program, orderly_bind]
    exact asking_movement hranked (hmoves i)
  exact hverified.no_deadlock (RG.logging_sound _ _) horderly
    (fun s hs => (settled_of_reachable hattached hmoves hs).2) hr

/-- **Completion**: finitely many ranked movements cannot move forever, and they
    stop only where all have ended, or where one waits for a row that another
    has inserted under the same identifier. -/
theorem completes_of_ranked [Finite ι] (hattached : Attached d)
    (hmoves : ∀ i, (requests i).moves = true) (hranked : Ranked rank requests d)
    {s : Sys ι Database Write Resource Err Reply}
    (hr : Sys.Reachable Sys.all (serve requests d clock) s) :
    (¬ ∃ run : ℕ → Sys ι Database Write Resource Err Reply, run 0 = s ∧
      ∀ n, (run n).Moves (run (n + 1))) ∧
    ∀ s', Relation.ReflTransGen Sys.Moves s s' → s'.Rests →
      (∀ i, s'.Ended i) ∨ ∃ i j, s'.WaitsFor Resource.drawn i j := by
  constructor
  · rintro ⟨run, -, hrun⟩
    have hends := wellFounded_iff_isEmpty_descending_chain.mp
      (Sys.moves_wellFounded (ι := ι) (D := Database) (ε := Err) (α := Reply))
    exact hends.elim ⟨run, hrun⟩
  · intro s' hrun hrests
    have hr' := hr.moves hrun
    rcases hrests.ended_or_deadlock with hended | hcircle
    · exact .inl hended
    -- a circle through locks in order is impossible, so one of them is not
    have hordered := no_circle_of_ranked hattached hmoves hranked hr'
    obtain ⟨i, j, hwaits⟩ := hcircle.narrow.resolve_left hordered
    simp only [not_not] at hwaits
    exact .inr ⟨i, j, hwaits⟩

end ranked

open Sample

/-- The payment waits for the reversal and the hold for the payment; their run
    ends all the same. -/
theorem completes_of_ranked_downstream :
    ∃ s, Sys.Reachable Sys.all (serve downstream reserved 0) s ∧ ¬ s.free 0 ∧ ¬ s.free 1 ∧
      (¬ ∃ run : ℕ → Sys (Fin 3) Database Write Resource Err Reply, run 0 = s ∧
        ∀ n, (run n).Moves (run (n + 1))) ∧
      ∀ s', Relation.ReflTransGen Sys.Moves s s' → s'.Rests →
        (∀ i, s'.Ended i) ∨ ∃ i j, s'.WaitsFor Resource.drawn i j := by
  obtain ⟨s, hr, hp⟩ := Sys.Reachable.of_exec (s := serve downstream reserved 0)
    (Sys.turns 2 4000 16 ++ Sys.turns 0 5000 13 ++ Sys.turns 1 6000 3)
    (fun s => ¬ s.free 0 ∧ ¬ s.free 1) (by decide +kernel)
  obtain ⟨h0, h1⟩ := of_decide_eq_true hp
  have hattached : Attached reserved := by
    unfold Attached
    decide +kernel
  have hranked : Ranked BitVec.toNat downstream reserved :=
    ranked_downstream (by decide +kernel) (by decide +kernel) (by decide +kernel)
      (by decide +kernel) (by decide +kernel)
  exact ⟨s, hr, h0, h1, completes_of_ranked hattached (by decide) hranked hr⟩

end Ledger
