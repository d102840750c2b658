import Ledger.Services.Requests

/-! # What the Shared Parts of a Request Do

    Rules for the functions that several services call.  Each says, for any
    interference by other sessions, what was read at which point and which
    writes were made.

    * **Reads**: `swp_lookup`, `swp_requireAccount`, `swp_availableBalance`.
    * **Engine**: `Posted`, everything one call of `postTransaction` does.
-/

namespace Ledger

open ReadCommitted

variable {ι : Type} {rg : RG ι Database Write Resource} {me : ι} {E : Raised ι}
  {o : OrmSession} {g : Shared ι Database Write} {tx : Tx Write Resource}

/-! ## Reads -/

/-- The record of the key is read first: either there is none, or it answers. -/
theorem swp_lookup [Runtime] {Q : Ret ι (Option Replay)} {tenantId endpoint key : String}
    {body : Json} (hE : MayRaise rg E g tx)
    (hnone : ∀ g' tx', Progress rg [] g tx g' tx' → tx' = tx.openAt g'.clock g'.wal.length →
      (replay g'.db tx.log).records.find? ⟨tenantId, endpoint, key⟩ = none → Q none o g' tx')
    (hsome : ∀ r p g' tx', Progress rg [] g tx g' tx' →
      (replay g'.db tx.log).records.find? ⟨tenantId, endpoint, key⟩ = some r →
      replayOf key body r = .ok p → Q (some p) o g' tx') :
    swp rg me (lookup tenantId endpoint key body) Q E o g tx := by
  rw [lookup, swp_bind]
  refine swp_select fun g' tx' hp htx => ?_
  cases hfind : (replay g'.db tx.log).records.find? ⟨tenantId, endpoint, key⟩ with
  | none => exact hnone g' tx' hp htx hfind
  | some r =>
    cases hr : replayOf key body r with
    | error e =>
      simp only [hr]
      exact swp_raise ((hE.step hp).here e)
    | ok p =>
      simp only [hr]
      exact hsome r p g' tx' hp hfind hr

/-- A replay is validated and nothing else happens. -/
theorem swp_replayed {α : Type} {Q : Ret ι (Nat × α)} {validate : Json → Option α} {p : Replay}
    (hE : MayRaise rg E g tx) (h : ∀ a, validate p.body = some a → Q (p.statusCode, a) o g tx) :
    swp rg me (replayed validate p) Q E o g tx := by
  unfold replayed
  cases hv : validate p.body with
  | none => exact swp_raise (hE.here _)
  | some a => exact h a hv

theorem swp_record [Runtime] {Q : Ret ι Unit} {tenantId endpoint key : String}
    {body response : Json}
    (h : ∀ r g', Progress rg [] g tx g' tx → r.createdAt = g'.clock →
      r = { id := ⟨tenantId, endpoint, key⟩, requestFingerprint := fingerprint body,
            responseJson := response.dumps .spaced, statusCode := 200, createdAt := g'.clock } →
      Q () { o with pending := o.pending ++ [.insRecord r] } g' tx) :
    swp rg me (record tenantId endpoint key body response) Q E o g tx := by
  rw [record, swp_bind]
  exact swp_now fun g' hp => swp_add (h _ g' hp rfl rfl)

/-- The acting tenant's open account. -/
def Database.HasAccount (d : Database) (tenantId : String) (id : UUID) (a : Account) : Prop :=
  d.accounts.find? id = some a ∧ a.tenantId = tenantId ∧ a.isOpen = true

theorem swp_requireAccount {Q : Ret ι Account} {tenantId : String} {id : UUID}
    (hE : MayRaise rg E g tx)
    (h : ∀ a g' tx', Progress rg [] g tx g' tx' →
      (replay g'.db tx.log).HasAccount tenantId id a → Q a o g' tx') :
    swp rg me (requireAccount tenantId id) Q E o g tx := by
  rw [requireAccount, swp_bind]
  refine swp_select fun g' tx' hp _ => ?_
  cases hfind : (replay g'.db tx.log).accounts.find? id with
  | none => exact swp_raise ((hE.step hp).here _)
  | some a =>
    by_cases hc : a.tenantId ≠ tenantId ∨ a.isOpen = false
    · simp only [hc, if_true]
      exact swp_raise ((hE.step hp).here _)
    · simp only [hc, if_false]
      simp only [not_or, not_not, Bool.not_eq_false] at hc
      exact h a g' tx' hp ⟨hfind, hc.1, hc.2⟩

/-- What a reading of the available balance went through. -/
inductive AvailableRead (rg : RG ι Database Write Resource) (tenantId : String) (account : UUID)
    (o : OrmSession) (g : Shared ι Database Write) (tx : Tx Write Resource) :
    Option Balance → OrmSession → Shared ι Database Write → Tx Write Resource → Prop where
  /-- No snapshot of this tenant. -/
  | unknown {sb : Option AccountBalance} {o' g' tx'} (hp : Progress rg [] g tx g' tx')
      (hl : Loaded o account g' tx.log sb o') (hb : ∀ b ∈ sb, b.tenantId ≠ tenantId) :
      AvailableRead rg tenantId account o g tx none o' g' tx'
  /-- The snapshot, then the holds at a later point. -/
  | known {b : AccountBalance} {o' g₁ tx₁ g' tx'} (hp : Progress rg [] g tx g₁ tx₁)
      (hl : Loaded o account g₁ tx.log (some b) o') (hb : b.tenantId = tenantId)
      (hp' : Progress rg [] g₁ tx₁ g' tx') (hopen : tx'.start.isSome = true) :
      AvailableRead rg tenantId account o g tx
        (some ⟨b.balance, (replay g'.db tx.log).heldTotal tenantId account tx'.now⟩) o' g' tx'

theorem AvailableRead.progress {tenantId : String} {account : UUID} {r : Option Balance}
    {o' : OrmSession} {g' : Shared ι Database Write} {tx' : Tx Write Resource}
    (h : AvailableRead rg tenantId account o g tx r o' g' tx') : Progress rg [] g tx g' tx' := by
  cases h with
  | unknown hp _ _ => exact hp
  | known hp _ _ hp' => exact hp.trans hp'

theorem AvailableRead.pending {tenantId : String} {account : UUID} {r : Option Balance}
    {o' : OrmSession} {g' : Shared ι Database Write} {tx' : Tx Write Resource}
    (h : AvailableRead rg tenantId account o g tx r o' g' tx') : o'.pending = o.pending := by
  cases h with
  | unknown _ hl _ => exact hl.pending
  | known _ hl _ _ => exact hl.pending

/-- Figures are read in a transaction that has started. -/
theorem AvailableRead.started {tenantId : String} {account : UUID} {b : Balance} {o' : OrmSession}
    {g' : Shared ι Database Write} {tx' : Tx Write Resource}
    (h : AvailableRead rg tenantId account o g tx (some b) o' g' tx') :
    tx'.start = some tx'.now := by
  cases h with
  | known _ _ _ _ hopen =>
    obtain ⟨t, ht⟩ := Option.isSome_iff_exists.mp hopen
    rw [Tx.now, ht]
    rfl

theorem swp_availableBalance {Q : Ret ι (Option Balance)} {tenantId : String} {account : UUID}
    (h : ∀ r o' g' tx', AvailableRead rg tenantId account o g tx r o' g' tx' → Q r o' g' tx') :
    swp rg me (availableBalance tenantId account) Q E o g tx := by
  rw [availableBalance, swp_bind, currentBalance, swp_bind]
  refine swp_getBalance fun sb o' g₁ tx₁ hp hl => ?_
  cases sb with
  | none => exact h none o' g₁ tx₁ (.unknown hp hl (by simp))
  | some b =>
    by_cases hb : b.tenantId = tenantId
    · simp only [hb, ne_eq, not_true_eq_false, if_false, swp_pure]
      rw [swp_bind]
      refine swp_select fun g₂ tx₂ hp' htx => ?_
      rw [hp.log, List.append_nil]
      exact h _ o' g₂ tx₂ (.known hp hl hb hp' (by rw [htx]; exact tx₁.isSome_openAt _ _))
    · simp only [ne_eq, hb, not_false_eq_true, if_true, swp_pure]
      exact h none o' g₁ tx₁ (.unknown hp hl (by simpa using hb))

/-! ## The Engine -/

/-- A posting the engine wrote, and whether the snapshot update matched a row. -/
structure Leg where
  posting : Posting
  folded : Bool

namespace Leg

/-- The writes of a leg. -/
def writes (l : Leg) : List Write :=
  .insPosting l.posting ::
    if l.folded then [.bump l.posting.accountId l.posting.amount l.posting.id] else []

/-- The leg carries out a requested one. -/
structure Of (txn : UUID) (spec : PostingSpec) (l : Leg) : Prop where
  transaction : l.posting.transactionId = txn
  account : l.posting.accountId = spec.accountId
  amount : l.posting.amount = spec.amount
  effective : l.posting.effectiveAt = spec.effectiveAt

end Leg

/-- The writes of a list of legs. -/
def legWrites (legs : List Leg) : List Write := legs.flatMap Leg.writes

@[simp] theorem legWrites_nil : legWrites [] = [] := rfl

@[simp] theorem legWrites_cons (l : Leg) (legs : List Leg) :
    legWrites (l :: legs) = l.writes ++ legWrites legs := by
  simp [legWrites]

/-- The loaded snapshots after the updates of a list of legs. -/
def syncLegs (tenantId : String) (legs : List Leg) (o : OrmSession) : OrmSession :=
  legs.foldl (fun o l => Svc.sync o tenantId l.posting.accountId l.posting.amount l.posting.id) o

theorem syncLegs_pending (tenantId : String) (legs : List Leg) (o : OrmSession) :
    (syncLegs tenantId legs o).pending = o.pending := by
  induction legs generalizing o with
  | nil => rfl
  | cons l legs ih => exact ih _

/-- What writing the legs of a transaction did. -/
structure LegsPosted (rg : RG ι Database Write Resource) (tenantId : String) (txn : UUID)
    (specs : List PostingSpec) (legs : List Leg) (g : Shared ι Database Write)
    (tx : Tx Write Resource) (g' : Shared ι Database Write) (tx' : Tx Write Resource) : Prop where
  carried : List.Forall₂ (Leg.Of txn) specs legs
  progress : Progress rg (legWrites legs) g tx g' tx'
  /-- The update of a snapshot matched iff its statement saw the row. -/
  folded : ∀ pre l post, legs = pre ++ l :: post → ∃ gs, rg.rely tx.held g gs ∧
    l.folded = Svc.matched
      (replay gs.db (tx.log ++ (legWrites pre ++ [.insPosting l.posting]))) tenantId
      l.posting.accountId

theorem swp_postLegs {Q : Ret ι Unit} {tenantId : String} {txn : UUID}
    (specs : List PostingSpec) (hE : MayRaise rg E g tx) (hpend : o.pending = [])
    (h : ∀ legs g' tx', LegsPosted rg tenantId txn specs legs g tx g' tx' →
      Q () (syncLegs tenantId legs o) g' tx') :
    swp rg me (postLegs tenantId txn specs) Q E o g tx := by
  induction specs generalizing o g tx with
  | nil =>
    -- no leg is left
    refine h [] g tx ⟨.nil, .refl g tx, ?_⟩
    intro pre l post heq
    simp at heq
  | cons spec specs ih =>
    rw [postLegs, swp_bind]
    refine swp_uuid4 fun g₁ id h₁ => ?_
    rw [swp_bind]
    refine swp_now fun g₂ h₂ => ?_
    have h12 := h₁.trans h₂
    rw [swp_bind]
    refine swp_add ?_
    rw [swp_bind]
    refine swp_flush (hE.step h12) fun g₃ tx₃ h₃ => ?_
    simp only [hpend, List.nil_append] at h₃
    have h13 := h12.trans h₃
    rw [swp_bind]
    refine swp_updateBalance (hE.step h13) fun g₄ tx₄ h₄ => ?_
    have h14 := h13.trans h₄
    refine ih (hE.step h14) (by simp [Svc.sync]) fun legs g' tx' hlegs => ?_
    -- the first leg and the rest
    let l : Leg := ⟨⟨id, txn, spec.accountId, spec.amount, spec.effectiveAt, g₂.clock⟩,
      Svc.matched (replay g₄.db tx₃.log) tenantId spec.accountId⟩
    have hws : ([] ++ [] ++ [.insPosting l.posting] ++
        (if Svc.matched (replay g₄.db tx₃.log) tenantId spec.accountId
          then [.bump spec.accountId spec.amount id] else [])) = l.writes := by
      simp [Leg.writes, l]
    have h14' : Progress rg l.writes g tx g₄ tx₄ := hws ▸ h14
    have hQ := h (l :: legs) g' tx' ⟨.cons ⟨rfl, rfl, rfl, rfl⟩ hlegs.carried, by
      rw [legWrites_cons]; exact h14'.trans hlegs.progress, ?_⟩
    · have hsync : syncLegs tenantId (l :: legs) o = syncLegs tenantId legs
          (Svc.sync { o with pending := [] } tenantId spec.accountId spec.amount id) := by
        simp [syncLegs, l, ← hpend]
      rw [hsync] at hQ
      exact hQ
    · intro pre l' post heq
      cases pre with
      | nil =>
        simp only [List.nil_append, List.cons.injEq] at heq
        obtain ⟨rfl, -⟩ := heq
        refine ⟨g₄, h14.rely, ?_⟩
        have hlog : tx₃.log = tx.log ++ [.insPosting l.posting] := by
          simpa [l] using h13.log
        simp only [legWrites_nil, List.nil_append]
        rw [← hlog]
      | cons x pre =>
        simp only [List.cons_append, List.cons.injEq] at heq
        obtain ⟨rfl, heq⟩ := heq
        -- a later leg: the induction hypothesis, after the rows of this one
        obtain ⟨gs, hr, hf⟩ := hlegs.folded pre l' post heq
        refine ⟨gs, rg.rely_trans h14.rely (rg.rely_mono h14.held hr), ?_⟩
        rw [hf, h14'.log]
        simp [List.append_assoc]

/-- Everything one call of `postTransaction` did, up to its return.  The rows
    that were pending when it was called were flushed first; its own outbox
    event is pending when it returns. -/
structure Posted [Runtime] (rg : RG ι Database Write Resource) (tenantId : String)
    (specs : List PostingSpec) (memo : String) (correctsId : Option UUID) (pend : List Write)
    (txn : Transaction) (legs : List Leg) (event : OutboxEvent)
    (g : Shared ι Database Write) (tx : Tx Write Resource)
    (g' : Shared ι Database Write) (tx' : Tx Write Resource) : Prop where
  two : 2 ≤ specs.length
  zero : (specs.map PostingSpec.amount).sum = 0
  tenant : txn.tenantId = tenantId
  memo : txn.memo = memo
  corrects : txn.correctsId = correctsId
  carried : List.Forall₂ (Leg.Of txn.id) specs legs
  progress : Progress rg (pend ++ .insTransaction txn :: legWrites legs) g tx g' tx'
  folded : ∀ pre l post, legs = pre ++ l :: post → ∃ gs, rg.rely tx.held g gs ∧
    l.folded = Svc.matched
      (replay gs.db (tx.log ++ (pend ++ .insTransaction txn ::
        (legWrites pre ++ [.insPosting l.posting])))) tenantId l.posting.accountId
  event_tenant : event.tenantId = tenantId
  event_transaction : event.transactionId = txn.id
  event_payload : event.payload = (outboxPayload tenantId txn specs).dumps .spaced
  event_pending : event.status = .PENDING
  event_created : event.createdAt = g'.clock

theorem swp_postTransaction [Runtime] {Q : Ret ι Transaction} {tenantId : String}
    {specs : List PostingSpec} {memo : String} {correctsId : Option UUID}
    (hE : MayRaise rg E g tx)
    (h : ∀ txn legs event g' tx',
      Posted rg tenantId specs memo correctsId o.pending txn legs event g tx g' tx' →
      Q txn { syncLegs tenantId legs { o with pending := [] } with pending := [.insOutbox event] }
        g' tx') :
    swp rg me (postTransaction tenantId specs memo correctsId) Q E o g tx := by
  unfold postTransaction
  split_ifs with htwo hzero
  · exact swp_raise (hE.here _)
  · exact swp_raise (hE.here _)
  · rw [swp_bind]
    refine swp_uuid4 fun g₁ id h₁ => ?_
    rw [swp_bind]
    refine swp_now fun g₂ h₂ => ?_
    have h12 := h₁.trans h₂
    rw [swp_bind]
    refine swp_add ?_
    rw [swp_bind]
    -- the transaction goes out before its postings, which refer to it
    refine swp_flush (hE.step h12) fun g₃ tx₃ h₃ => ?_
    have h13 := h12.trans h₃
    simp only [List.nil_append] at h13
    rw [swp_bind]
    refine swp_postLegs specs (hE.step h13) rfl fun legs g₄ tx₄ h₄ => ?_
    have h14 := h13.trans h₄.progress
    rw [swp_bind]
    unfold enqueueOutboxEvent
    rw [swp_bind]
    refine swp_uuid4 fun g₅ eid h₅ => ?_
    rw [swp_bind]
    refine swp_now fun g₆ h₆ => ?_
    have h16 := (h14.trans h₅).trans h₆
    refine swp_add ?_
    rw [swp_pure]
    -- the event is left pending for the commit of the caller
    have hQ := h ⟨id, tenantId, memo, correctsId, g₂.clock⟩ legs
      ⟨eid, tenantId, id, "transaction.posted",
        (outboxPayload tenantId ⟨id, tenantId, memo, correctsId, g₂.clock⟩ specs).dumps .spaced,
        .PENDING, g₆.clock, none⟩ g₆ tx₄
      { two := by omega
        zero := by simpa using hzero
        tenant := rfl
        memo := rfl
        corrects := rfl
        carried := h₄.carried
        progress := by simpa [List.append_assoc] using h16
        folded := fun pre l post heq => by
          obtain ⟨gs, hr, hf⟩ := h₄.folded pre l post heq
          refine ⟨gs, rg.rely_trans h13.rely (rg.rely_mono h13.held hr), ?_⟩
          rw [hf, h13.log]
          simp [List.append_assoc]
        event_tenant := rfl
        event_transaction := rfl
        event_payload := rfl
        event_pending := rfl
        event_created := rfl }
    simpa [syncLegs_pending] using hQ

end Ledger
