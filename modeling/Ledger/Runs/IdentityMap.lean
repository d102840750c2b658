import Ledger.Runs.Outcomes

/-! # The Identity Map

    A session reads the snapshot of an account once.  After that it answers
    from the loaded object, which the bulk `UPDATE` of the engine also moves.

    * **Invariant**: `OrmSession.InStep`, every loaded snapshot is the row the
      transaction would see.
    * **Steps**: loading a snapshot, the engine's updates and the pending rows
      keep it, as long as no other session commits.
    * **Runs**: what a transfer, a placement and a capture that run alone
      answer with is what the database holds.
-/

namespace Ledger

open ReadCommitted

/-- The loaded snapshots are the rows of the database. -/
def OrmSession.InStep (o : OrmSession) (d : Database) : Prop :=
  ∀ account b, o.balances account = some b → d.balances.find? account = some b

variable {o o' : OrmSession} {d d' : Database} {tenantId : String} {account : UUID}

/-! ## Steps -/

/-- A session that has just been opened. -/
theorem inStep_fresh (d : Database) : ({} : OrmSession).InStep d := by
  intro _ _ h
  cases h

/-- Only the snapshots matter. -/
theorem OrmSession.InStep.congr (h : o.InStep d) (hbalances : d'.balances = d.balances) :
    o.InStep d' := by
  intro account b hb
  rw [hbalances]
  exact h account b hb

theorem OrmSession.InStep.replay (h : o.InStep d) (ws : List Write)
    (hws : ∀ w ∈ ws, w.table ≠ .balances) : o.InStep (replay d ws) :=
  h.congr (Database.replay_balances hws)

/-- A snapshot is the row, loaded before or now. -/
theorem Loaded.inStep {ι : Type} {g : Shared ι Database Write} {log : List Write}
    {sb : Option AccountBalance} (h : Loaded o account g log sb o')
    (ho : o.InStep (ReadCommitted.replay g.db log)) :
    sb = (ReadCommitted.replay g.db log).balances.find? account ∧
      o'.InStep (ReadCommitted.replay g.db log) := by
  cases h with
  | cached hb => exact ⟨(ho account _ hb).symm, ho⟩
  | read hnone =>
    refine ⟨rfl, fun i b hb => ?_⟩
    by_cases hi : i = account
    · subst hi
      simpa using hb
    · simp only [hi, if_false] at hb
      exact ho i b hb

/-- The bulk `UPDATE` moves the loaded object and the row alike. -/
theorem OrmSession.InStep.sync (h : o.InStep d) (amount : Int) (posting : UUID) :
    (Svc.sync o tenantId account amount posting).InStep
      (if Svc.matched d tenantId account then d.apply (.bump account amount posting) else d) := by
  intro i b hb
  by_cases hi : i = account
  · subst hi
    simp only [Svc.sync, if_true, Option.map_eq_some_iff] at hb
    obtain ⟨b₀, hload, hb⟩ := hb
    have hrow := h i b₀ hload
    by_cases ht : b₀.tenantId = tenantId
    · have hm : Svc.matched d tenantId i = true := by simp [Svc.matched, hrow, ht]
      rw [if_pos hm]
      show (d.balances.modify i _ (AccountBalance.key_fold amount posting)).find? i = some b
      rw [Table.find?_modify_self, hrow]
      simpa [ht] using hb
    · -- the row is another tenant's, and so is the object
      have hm : ¬ Svc.matched d tenantId i = true := by simp [Svc.matched, hrow, ht]
      rw [if_neg hm, hrow]
      simpa [ht] using hb
  · simp only [Svc.sync, hi, if_false] at hb
    have hrow := h i b hb
    split_ifs
    · show (d.balances.modify account _ (AccountBalance.key_fold amount posting)).find? i = some b
      rw [Table.find?_modify_of_ne _ _ _ hi, hrow]
    · exact hrow

/-- The updates of a list of legs. -/
theorem OrmSession.InStep.legs {legs : List Leg} (h : o.InStep d)
    (hfolded : ∀ l ∈ legs, l.folded = Svc.matched d tenantId l.posting.accountId) :
    (syncLegs tenantId legs o).InStep (ReadCommitted.replay d (legWrites legs)) := by
  induction legs generalizing o d with
  | nil => exact h
  | cons l legs ih =>
    have hleg : ReadCommitted.replay d l.writes =
        if Svc.matched (d.apply (.insPosting l.posting)) tenantId l.posting.accountId
        then (d.apply (.insPosting l.posting)).apply
          (.bump l.posting.accountId l.posting.amount l.posting.id)
        else d.apply (.insPosting l.posting) := by
      have hf : l.folded =
          Svc.matched (d.apply (.insPosting l.posting)) tenantId l.posting.accountId :=
        hfolded l (by simp)
      rw [← hf]
      cases hl : l.folded <;> simp [Leg.writes, hl, Database.dbms_apply]
    have hnew : NoNewSnapshot l.writes := by simpa using noNewSnapshot_legWrites [l]
    rw [legWrites_cons, replay_append]
    refine ih ?_ fun m hm => ?_
    · rw [hleg]
      exact (h.replay [.insPosting l.posting] (by simp [Write.table])).sync _ _
    · rw [matched_replay hnew]
      exact hfolded m (by simp [hm])

section engine

variable {specs : List PostingSpec} {c : Option UUID} {txn : Transaction} {legs : List Leg}

/-- One call of the engine, whose legs know the snapshots that match. -/
theorem OrmSession.InStep.emit (h : o.InStep d) (txn : Transaction)
    (hfolded : ∀ l ∈ legs, l.folded = Svc.matched d tenantId l.posting.accountId)
    (event : OutboxEvent) :
    (afterPost tenantId legs event o).InStep
      (ReadCommitted.replay d (.insTransaction txn :: legWrites legs)) := by
  have hrow : ({ o with pending := [] } : OrmSession).InStep (d.apply (.insTransaction txn)) :=
    h.replay [.insTransaction txn] (by simp [Write.table])
  exact hrow.legs hfolded

theorem OrmSession.InStep.post (h : o.InStep d) (hblock : Block d tenantId specs c txn legs)
    (event : OutboxEvent) :
    (afterPost tenantId legs event o).InStep
      (ReadCommitted.replay d (.insTransaction txn :: legWrites legs)) :=
  h.emit txn hblock.folded_eq event

end engine

/-! ## Runs -/

section runs

variable {env : Env} {S : Time → Prop} {g g' : Shared Unit Database Write}
  {tx tx' : Tx Write Resource}

/-- The figures that are read are those of the rows the transaction sees. -/
theorem AvailableRead.inStep {r : Option Balance}
    (h : AvailableRead (aloneAt env S) tenantId account o g tx r o' g' tx')
    (ho : o.InStep (replay g.db tx.log)) :
    r = (replay g.db tx.log).availableBalance tenantId account tx'.now ∧
      o'.InStep (replay g.db tx.log) := by
  cases h with
  | @unknown sb _ _ _ hp hl hb =>
    rw [← hp.rely.1] at ho ⊢
    obtain ⟨hrow, ho'⟩ := hl.inStep ho
    refine ⟨?_, ho'⟩
    unfold Database.availableBalance
    rw [← hrow]
    cases hsb : sb with
    | none => rfl
    | some b => simp [hb b hsb]
  | known hp hl ht hp' =>
    have hg₁ := hp.rely.1
    have hg' : g'.db = g.db := (hp.trans hp').rely.1
    rw [← hg₁] at ho
    obtain ⟨hrow, ho'⟩ := hl.inStep ho
    rw [hg₁] at hrow ho'
    refine ⟨?_, ho'⟩
    rw [hg']
    exact (availableBalance_eq_some.mpr ⟨_, hrow.symm, ht, rfl⟩).symm

theorem FundsChecked.inStep {amount : Int}
    (h : FundsChecked (aloneAt env S) tenantId account amount o g tx o' g' tx')
    (ho : o.InStep (replay g.db tx.log)) : o'.InStep (replay g.db tx.log) := by
  obtain ⟨lock, -, posted, loaded, -, -, -⟩ := h
  have hg₂ := (lock.trans posted).rely.1
  rw [← hg₂] at ho ⊢
  exact (loaded.inStep ho).2

variable [Runtime]

/-- The movement of a transfer. -/
theorem Moved.inStep {src dst : Account} {req : TransferRequest} {effectiveAt : Time}
    {ws : List Write} {id : UUID} {event : OutboxEvent}
    (h : Moved (Ledger.alone env) tenantId src dst req effectiveAt o g tx ws id event o' g' tx')
    (hlog : tx.log = []) (ho : o.InStep g.db) : o'.InStep (replay g.db ws) := by
  cases h with
  | direct _ hpost => exact ho.post (hpost.block (by simp [hlog])) _
  | @routed _ _ _ _ debit _ legs₁ _ event₁ _ _ _ _ _ g₃ tx₃ g₄ tx₄ _ _ _ hrate _ h₂ _ h₃ _ hdebit
      hcredit =>
    have hg₃ : g₃.db = g.db := ((hrate.progress.trans h₂).trans h₃).rely.1
    have hlog₃ : tx₃.log = [] := by
      simpa [hlog] using ((hrate.progress.trans h₂).trans h₃).log
    have hg₄ : g₄.db = g₃.db := hdebit.progress.rely.1
    have hlog₄ : tx₄.log = .insTransaction debit :: legWrites legs₁ := by
      simpa [hlog₃] using hdebit.progress.log
    have ho₁ := ho.post (hdebit.block (by simp [hlog₃, hg₃])) event₁
    -- the first event is flushed by the second call
    have ho₂ := (ho₁.replay [.insOutbox event₁] (by simp [Write.table])).post
      (hcredit.block (by rw [hlog₄, hg₄, hg₃, replay_append])) event
    rw [← replay_append, ← replay_append] at ho₂
    simpa [List.append_assoc] using ho₂

end runs

end Ledger
