import Ledger.Runs.Engine

/-! # What a Transfer Does

    * **Funds check**: `FundsChecked`, the advisory lock, then the snapshot,
      then the holds.
    * **Movement**: `Moved`, one transaction, or two through conversion
      accounts.
    * **Run**: `TransferRun`, everything an executed transfer did up to its
      commit, and its rule `swp_executeTransfer`.
-/

namespace Ledger

open ReadCommitted

variable {ι : Type} {rg : RG ι Database Write Resource} {me : ι} {E : Raised ι}
  {o : OrmSession} {g : Shared ι Database Write} {tx : Tx Write Resource}

/-! ## Funds Check -/

/-- The check of an account's funds passed: under its lock, the snapshot minus
    the holds seen later covers the amount. -/
inductive FundsChecked (rg : RG ι Database Write Resource) (tenantId : String) (account : UUID)
    (amount : Int) (o : OrmSession) (g : Shared ι Database Write) (tx : Tx Write Resource) :
    OrmSession → Shared ι Database Write → Tx Write Resource → Prop where
  | intro {g₁ tx₁ g₂ tx₂ b o' g' tx'}
      (lock : Progress rg [] g tx g₁ tx₁) (held : .advisory (lockKey account) ∈ tx₁.held)
      (posted : Progress rg [] g₁ tx₁ g₂ tx₂) (loaded : Loaded o account g₂ tx.log (some b) o')
      (tenant : b.tenantId = tenantId) (holds : Progress rg [] g₂ tx₂ g' tx')
      (covers : amount ≤ b.balance - (replay g'.db tx.log).heldTotal tenantId account tx'.now) :
      FundsChecked rg tenantId account amount o g tx o' g' tx'

theorem FundsChecked.progress {tenantId : String} {account : UUID} {amount : Int}
    {o' : OrmSession} {g' : Shared ι Database Write} {tx' : Tx Write Resource}
    (h : FundsChecked rg tenantId account amount o g tx o' g' tx') :
    Progress rg [] g tx g' tx' := by
  obtain ⟨lock, -, posted, -, -, holds, -⟩ := h
  exact (lock.trans posted).trans holds

theorem FundsChecked.pending {tenantId : String} {account : UUID} {amount : Int}
    {o' : OrmSession} {g' : Shared ι Database Write} {tx' : Tx Write Resource}
    (h : FundsChecked rg tenantId account amount o g tx o' g' tx') : o'.pending = o.pending := by
  obtain ⟨-, -, -, loaded, -, -, -⟩ := h
  exact loaded.pending

theorem swp_accountLock {Q : Ret ι Unit} {account : UUID}
    (h : ∀ g' tx', Progress rg [] g tx g' tx' → .advisory (lockKey account) ∈ tx'.held →
      Q () o g' tx') : swp rg me (accountLock account) Q E o g tx :=
  swp_lock h

theorem swp_requireFunds {Q : Ret ι Unit} {tenantId : String} {account : UUID} {amount : Int}
    (hE : MayRaise rg E g tx)
    (h : ∀ o' g' tx', FundsChecked rg tenantId account amount o g tx o' g' tx' → Q () o' g' tx') :
    swp rg me (requireFunds tenantId account amount) Q E o g tx := by
  rw [requireFunds, swp_bind]
  refine swp_accountLock fun g₁ tx₁ h₁ hheld => ?_
  rw [swp_bind]
  refine swp_availableBalance fun r o' g' tx' hr => ?_
  have hE' := hE.step (h₁.trans hr.progress)
  have hlog : tx₁.log = tx.log := by simpa using h₁.log
  cases hr with
  | unknown hp hl hb => exact swp_raise (hE'.here _)
  | known hp hl hb hp' =>
    simp only
    split_ifs with hlt
    · exact swp_raise (hE'.here _)
    · rw [swp_pure]
      rw [hlog] at hl hlt
      refine h o' g' tx' (.intro h₁ hheld hp hl hb hp' ?_)
      simpa [Balance.available] using hlt

/-! ## Movement -/

/-- Where a resolved rate came from. -/
inductive RateRead (rg : RG ι Database Write Resource) (base quote : Currency) (asOf : Time)
    (g : Shared ι Database Write) (tx : Tx Write Resource) :
    ResolvedRate → Shared ι Database Write → Tx Write Resource → Prop where
  | identity (h : base = quote) :
      RateRead rg base quote asOf g tx ⟨ONE, "identity", none, asOf⟩ g tx
  | direct {r g' tx'} (h : base ≠ quote) (hp : Progress rg [] g tx g' tx')
      (hr : (replay g'.db tx.log).latest base quote asOf = some r) :
      RateRead rg base quote asOf g tx (Database.directRate r) g' tx'
  | inverse {r q g₁ tx₁ g' tx'} (h : base ≠ quote) (hp : Progress rg [] g tx g₁ tx₁)
      (hnone : (replay g₁.db tx.log).latest base quote asOf = none)
      (hp' : Progress rg [] g₁ tx₁ g' tx')
      (hr : (replay g'.db tx.log).latest quote base asOf = some r)
      (hq : Database.inverseRate r = some q) :
      RateRead rg base quote asOf g tx q g' tx'

theorem RateRead.progress {base quote : Currency} {asOf : Time} {r : ResolvedRate}
    {g' : Shared ι Database Write} {tx' : Tx Write Resource}
    (h : RateRead rg base quote asOf g tx r g' tx') : Progress rg [] g tx g' tx' := by
  cases h with
  | identity _ => exact .refl _ _
  | direct _ hp _ => exact hp
  | inverse _ hp _ hp' _ _ => exact hp.trans hp'

/-- A resolved rate has no minus sign. -/
theorem RateRead.neg {base quote : Currency} {asOf : Time} {r : ResolvedRate}
    {g' : Shared ι Database Write} {tx' : Tx Write Resource}
    (h : RateRead rg base quote asOf g tx r g' tx') : r.rate.neg = false := by
  cases h with
  | identity _ => rfl
  | direct _ _ _ => rfl
  | inverse _ _ _ _ _ hq =>
    simp only [Database.inverseRate, Option.map_eq_some_iff] at hq
    obtain ⟨q, hq, rfl⟩ := hq
    simpa [ONE, FxRate.rate] using Decimal.div_neg hq

theorem swp_resolveRate [Runtime] {Q : Ret ι ResolvedRate} {base quote : Currency} {asOf : Time}
    (hE : MayRaise rg E g tx)
    (h : ∀ r g' tx', RateRead rg base quote asOf g tx r g' tx' → Q r o g' tx') :
    swp rg me (resolveRate base quote asOf) Q E o g tx := by
  unfold resolveRate
  split_ifs with heq
  · exact h _ g tx (.identity heq)
  · rw [swp_bind]
    refine swp_select fun g₁ tx₁ h₁ _ => ?_
    cases hd : (replay g₁.db tx.log).latest base quote asOf with
    | some r => exact h _ g₁ tx₁ (.direct heq h₁ hd)
    | none =>
      simp only
      rw [swp_bind]
      refine swp_select fun g₂ tx₂ h₂ _ => ?_
      have hlog : tx₁.log = tx.log := by simpa using h₁.log
      rw [hlog]
      cases hi : ((replay g₂.db tx.log).latest quote base asOf).bind Database.inverseRate with
      | none => exact swp_raise ((hE.step (h₁.trans h₂)).here _)
      | some q =>
        obtain ⟨r, hr, hq⟩ := Option.bind_eq_some_iff.mp hi
        exact h _ g₂ tx₂ (.inverse heq h₁ hd h₂ hr hq)

theorem swp_conversionAccount {Q : Ret ι Account} {tenantId : String} {currency : Currency}
    (hE : MayRaise rg E g tx)
    (h : ∀ a g' tx', Progress rg [] g tx g' tx' →
      (replay g'.db tx.log).openAt tenantId (conversionPath currency) = [a] → Q a o g' tx') :
    swp rg me (conversionAccount tenantId currency) Q E o g tx := by
  rw [conversionAccount, swp_bind]
  refine swp_select fun g' tx' hp _ => ?_
  rcases hfound : (replay g'.db tx.log).openAt tenantId (conversionPath currency) with _ | ⟨a, as⟩
  · exact swp_raise ((hE.step hp).here _)
  · cases as with
    | nil => exact h a g' tx' hp hfound
    | cons b bs => exact swp_raise ((hE.step hp).here _)

/-- The session after the legs of a transaction, its event pending. -/
def afterPost (tenantId : String) (legs : List Leg) (event : OutboxEvent) (o : OrmSession) :
    OrmSession :=
  { syncLegs tenantId legs { o with pending := [] } with pending := [.insOutbox event] }

/-- The legs of a two-sided transaction. -/
def pair (source destination : UUID) (amount : Minor) (effectiveAt : Time) : List PostingSpec :=
  [⟨source, negate amount, effectiveAt⟩, ⟨destination, amount, effectiveAt⟩]

/-- What the movement of a transfer did: the writes it made, the transaction
    it reports and the event it left pending. -/
inductive Moved [Runtime] (rg : RG ι Database Write Resource) (tenantId : String)
    (src dst : Account) (req : TransferRequest) (effectiveAt : Time) (o : OrmSession)
    (g : Shared ι Database Write) (tx : Tx Write Resource) :
    List Write → UUID → OutboxEvent → OrmSession → Shared ι Database Write →
      Tx Write Resource → Prop where
  /-- One transaction. -/
  | direct {txn legs event g' tx'} (hcur : src.currency = dst.currency)
      (hpost : Posted rg tenantId
        (pair req.sourceAccountId req.destinationAccountId req.amount effectiveAt) req.memo none []
        txn legs event g tx g' tx') :
      Moved rg tenantId src dst req effectiveAt o g tx (.insTransaction txn :: legWrites legs)
        txn.id event (afterPost tenantId legs event o) g' tx'
  /-- Two transactions through the conversion accounts. -/
  | routed {rate target srcConv dstConv debit credit legs₁ legs₂ event₁ event₂ g₁ tx₁ g₂ tx₂ g₃ tx₃
        g₄ tx₄ g' tx'}
      (hcur : src.currency ≠ dst.currency)
      (hrate : RateRead rg src.currency dst.currency effectiveAt g tx rate g₁ tx₁)
      (hconv : convert req.amount src.currency dst.currency rate.rate = some target)
      (h₂ : Progress rg [] g₁ tx₁ g₂ tx₂)
      (hsrc : (replay g₂.db tx.log).openAt tenantId (conversionPath src.currency) = [srcConv])
      (h₃ : Progress rg [] g₂ tx₂ g₃ tx₃)
      (hdst : (replay g₃.db tx.log).openAt tenantId (conversionPath dst.currency) = [dstConv])
      (hdebit : Posted rg tenantId (pair src.id srcConv.id req.amount effectiveAt)
        (legMemo req.memo "debit" rate) none [] debit legs₁ event₁ g₃ tx₃ g₄ tx₄)
      (hcredit : Posted rg tenantId (pair dstConv.id dst.id target effectiveAt)
        (legMemo req.memo "credit" rate) none [.insOutbox event₁]
          credit legs₂ event₂ g₄ tx₄ g' tx') :
      Moved rg tenantId src dst req effectiveAt o g tx
        (.insTransaction debit :: legWrites legs₁ ++
          .insOutbox event₁ :: .insTransaction credit :: legWrites legs₂)
        debit.id event₂ (afterPost tenantId legs₂ event₂ (afterPost tenantId legs₁ event₁ o)) g' tx'

theorem Moved.progress [Runtime] {tenantId : String} {src dst : Account} {req : TransferRequest}
    {effectiveAt : Time} {ws : List Write} {id : UUID} {event : OutboxEvent} {o' : OrmSession}
    {g' : Shared ι Database Write} {tx' : Tx Write Resource}
    (h : Moved rg tenantId src dst req effectiveAt o g tx ws id event o' g' tx') :
    Progress rg ws g tx g' tx' := by
  cases h with
  | direct _ hpost => exact hpost.progress
  | routed _ hrate _ h₂ _ h₃ _ hdebit hcredit =>
    have := (((hrate.progress.trans h₂).trans h₃).trans hdebit.progress).trans hcredit.progress
    simpa [List.append_assoc] using this

theorem swp_moveFunds [Runtime] {Q : Ret ι UUID} {tenantId : String} {src dst : Account}
    {req : TransferRequest} {effectiveAt : Time} (hE : MayRaise rg E g tx) (hpend : o.pending = [])
    (h : ∀ ws id event o' g' tx',
      Moved rg tenantId src dst req effectiveAt o g tx ws id event o' g' tx' → Q id o' g' tx') :
    swp rg me (moveFunds tenantId src dst req effectiveAt) Q E o g tx := by
  unfold moveFunds
  split_ifs with hcur
  · rw [swp_bind, routeConversion, swp_bind]
    refine swp_resolveRate hE fun rate g₁ tx₁ hrate => ?_
    have h₁ := hrate.progress
    cases hconv : convert req.amount src.currency dst.currency rate.rate with
    | none => exact swp_raise ((hE.step h₁).here _)
    | some target =>
      simp only
      rw [swp_bind]
      refine swp_conversionAccount (hE.step h₁) fun srcConv g₂ tx₂ h₂ hsrc => ?_
      have h12 := h₁.trans h₂
      rw [swp_bind]
      refine swp_conversionAccount (hE.step h12) fun dstConv g₃ tx₃ h₃ hdst => ?_
      have h13 := h12.trans h₃
      have hlog₁ : tx₁.log = tx.log := by simpa using h₁.log
      have hlog₂ : tx₂.log = tx.log := by simpa using h12.log
      rw [swp_bind]
      refine swp_postTransaction (hE.step h13) fun debit legs₁ event₁ g₄ tx₄ hdebit => ?_
      have h14 := h13.trans hdebit.progress
      rw [swp_bind]
      refine swp_postTransaction (hE.step h14) fun credit legs₂ event₂ g₅ tx₅ hcredit => ?_
      rw [hlog₁] at hsrc
      rw [hlog₂] at hdst
      rw [hpend] at hdebit
      exact h _ _ _ _ g₅ tx₅
        (.routed hcur hrate hconv h₂ hsrc h₃ hdst hdebit hcredit)
  · rw [swp_bind]
    refine swp_postTransaction hE fun txn legs event g' tx' hpost => ?_
    rw [hpend] at hpost
    exact h _ _ _ _ g' tx' (.direct (not_not.mp hcur) hpost)

theorem swp_balanceOf {Q : Ret ι AccountBalance} {tenantId : String} {account : UUID}
    (hE : MayRaise rg E g tx)
    (h : ∀ b o' g' tx', Progress rg [] g tx g' tx' → Loaded o account g' tx.log (some b) o' →
      b.tenantId = tenantId → Q b o' g' tx') :
    swp rg me (balanceOf tenantId account) Q E o g tx := by
  rw [balanceOf, swp_bind]
  refine swp_getBalance fun sb o' g' tx' hp hl => ?_
  cases sb with
  | none => exact swp_raise ((hE.step hp).here _)
  | some b =>
    by_cases hb : b.tenantId = tenantId
    · simpa [hb] using h b o' g' tx' hp hl hb
    · simp only [ne_eq, hb, not_false_eq_true, if_true]
      exact swp_raise ((hE.step hp).here _)

/-! ## Run -/

/-- An executed transfer, from its first statement to its commit. -/
structure TransferRun [Runtime] (rg : RG ι Database Write Resource) (tenantId : String)
    (req : TransferRequest) (key : String) (g₀ : Shared ι Database Write) where
  /-- The lookup of the key, the first statement. -/
  {gL : Shared ι Database Write}
  {txL : Tx Write Resource}
  lookup : Progress rg [] g₀ {} gL txL
  began : txL = ({} : Tx Write Resource).openAt gL.clock gL.wal.length
  unseen : gL.db.records.find? ⟨tenantId, ENDPOINT, key⟩ = none
  /-- The two accounts. -/
  {src : Account}
  {gS : Shared ι Database Write}
  {txS : Tx Write Resource}
  readSrc : Progress rg [] gL txL gS txS
  src_eq : gS.db.HasAccount tenantId req.sourceAccountId src
  {dst : Account}
  {gD : Shared ι Database Write}
  {txD : Tx Write Resource}
  readDst : Progress rg [] gS txS gD txD
  dst_eq : gD.db.HasAccount tenantId req.destinationAccountId dst
  /-- The funds check. -/
  {oF : OrmSession}
  {gF : Shared ι Database Write}
  {txF : Tx Write Resource}
  funds : FundsChecked rg tenantId req.sourceAccountId req.amount {} gD txD oF gF txF
  /-- The movement. -/
  {effectiveAt : Time}
  {gM : Shared ι Database Write}
  {txM : Tx Write Resource}
  stamp : Progress rg [] gF txF gM txM
  effective : effectiveAt = req.effectiveAt.getD gM.clock
  {ws : List Write}
  {txnId : UUID}
  {event : OutboxEvent}
  {oA : OrmSession}
  {gA : Shared ι Database Write}
  {txA : Tx Write Resource}
  moved : Moved rg tenantId src dst req effectiveAt oF gM txM ws txnId event oA gA txA
  /-- The resulting balances. -/
  {srcAfter : AccountBalance}
  {oS : OrmSession}
  {gS' : Shared ι Database Write}
  {txS' : Tx Write Resource}
  readSrcAfter : Progress rg [] gA txA gS' txS'
  srcAfter_eq : Loaded oA req.sourceAccountId gS' txA.log (some srcAfter) oS
  {dstAfter : AccountBalance}
  {oD : OrmSession}
  {gD' : Shared ι Database Write}
  {txD' : Tx Write Resource}
  readDstAfter : Progress rg [] gS' txS' gD' txD'
  dstAfter_eq : Loaded oS req.destinationAccountId gD' txS'.log (some dstAfter) oD
  /-- The record, flushed with the event at the commit. -/
  {gR : Shared ι Database Write}
  stamped : Progress rg [] gD' txD' gR txD'
  {g : Shared ι Database Write}
  {tx : Tx Write Resource}
  finish : Progress rg [.insOutbox event, .insRecord
    { id := ⟨tenantId, ENDPOINT, key⟩, requestFingerprint := fingerprint req.modelDump,
      responseJson := (TransferResponse.modelDump ⟨txnId, srcAfter.balance, dstAfter.balance⟩).dumps
        .spaced,
      statusCode := 200, createdAt := gR.clock }] gR txD' g tx

namespace TransferRun

variable [Runtime] {tenantId key : String} {req : TransferRequest} {g₀ : Shared ι Database Write}

/-- The response. -/
def response (run : TransferRun rg tenantId req key g₀) : TransferResponse :=
  ⟨run.txnId, run.srcAfter.balance, run.dstAfter.balance⟩

/-- The record. -/
def stored (run : TransferRun rg tenantId req key g₀) : IdempotencyRecord :=
  { id := ⟨tenantId, ENDPOINT, key⟩, requestFingerprint := fingerprint req.modelDump,
    responseJson := run.response.modelDump.dumps .spaced, statusCode := 200,
    createdAt := run.gR.clock }

variable (run : TransferRun rg tenantId req key g₀)

theorem txL_log : run.txL.log = [] := by simpa using run.lookup.log

theorem txF_log : run.txF.log = [] := by
  have h := ((run.readSrc.trans run.readDst).trans run.funds.progress).log
  simpa [run.txL_log] using h

theorem txM_log : run.txM.log = [] := by
  simpa [run.txF_log] using run.stamp.log

/-- From the movement to the commit. -/
theorem tail : Progress rg (run.ws ++ [.insOutbox run.event, .insRecord run.stored])
    run.gM run.txM run.g run.tx := by
  have h := (((run.moved.progress.trans run.readSrcAfter).trans run.readDstAfter).trans
    run.stamped).trans run.finish
  simpa [List.append_assoc, stored, response] using h

/-- From the start to the movement. -/
theorem prelude : Progress rg [] g₀ {} run.gM run.txM := by
  have h := ((((run.lookup.trans run.readSrc).trans run.readDst).trans run.funds.progress).trans
    run.stamp)
  simpa using h

theorem whole : Progress rg (run.ws ++ [.insOutbox run.event, .insRecord run.stored])
    g₀ {} run.g run.tx := by
  simpa using run.prelude.trans run.tail

/-- The writes of an executed transfer. -/
theorem log : run.tx.log = run.ws ++ [.insOutbox run.event, .insRecord run.stored] := by
  simpa using run.whole.log

end TransferRun

theorem swp_orNow {Q : Ret ι Time} {t? : Option Time}
    (h : ∀ t g', Progress rg [] g tx g' tx → t = t?.getD g'.clock → Q t o g' tx) :
    swp rg me (orNow t?) Q E o g tx := by
  unfold orNow
  cases t? with
  | some t => exact h t g (.refl _ _) rfl
  | none => exact swp_now fun g' hp => h _ g' hp rfl

/-- **A transfer** replays a stored record, executes, or raises. -/
theorem swp_executeTransfer [Runtime] {Q : Ret ι (Nat × TransferResponse)} {tenantId key : String}
    {req : TransferRequest} (hE : MayRaise rg E g {})
    (hreplay : ∀ r p a g' tx', Progress rg [] g {} g' tx' →
      g'.db.records.find? ⟨tenantId, ENDPOINT, key⟩ = some r →
      replayOf key req.modelDump r = .ok p → TransferResponse.modelValidate p.body = some a →
      Q (p.statusCode, a) {} g' tx')
    (hrun : ∀ run : TransferRun rg tenantId req key g, rg.allow me run.tx run.g →
      rg.guar me run.tx run.g (run.g.commit me run.tx) ∧
        Q (200, run.response) { run.oD with pending := [] } (run.g.commit me run.tx) {}) :
    swp rg me (executeTransfer tenantId req key) Q E {} g {} := by
  simp only [executeTransfer]
  rw [swp_bind]
  refine swp_lookup hE (fun gL txL lookup began unseen => ?_) fun r p g' tx' hp hfind hr => ?_
  swap
  · -- the key was completed before
    exact swp_replayed (hE.step hp) fun a ha => hreplay r p a g' tx' hp hfind hr ha
  have hL : txL.log = [] := by simpa using lookup.log
  simp only
  rw [swp_bind]
  refine swp_requireAccount (hE.step lookup) fun src gS txS readSrc src_eq => ?_
  have h2 := lookup.trans readSrc
  have hS : txS.log = [] := by simpa [hL] using readSrc.log
  rw [swp_bind]
  refine swp_requireAccount (hE.step h2) fun dst gD txD readDst dst_eq => ?_
  have h3 := h2.trans readDst
  have hD : txD.log = [] := by simpa [hS] using readDst.log
  rw [swp_bind]
  refine swp_requireFunds (hE.step h3) fun oF gF txF funds => ?_
  have h4 := h3.trans funds.progress
  rw [swp_bind]
  refine swp_orNow fun effectiveAt gM stamp effective => ?_
  have h5 := h4.trans stamp
  rw [swp_bind]
  refine swp_moveFunds (hE.step h5) funds.pending fun ws txnId event oA gA txA moved => ?_
  have h6 := h5.trans moved.progress
  rw [swp_bind]
  refine swp_balanceOf (hE.step h6) fun srcAfter oS gS' txS' readSrcAfter srcAfter_eq _ => ?_
  have h7 := h6.trans readSrcAfter
  rw [swp_bind]
  refine swp_balanceOf (hE.step h7) fun dstAfter oD gD' txD' readDstAfter dstAfter_eq _ => ?_
  have h8 := h7.trans readDstAfter
  rw [swp_bind]
  refine swp_record fun stored gR stamped _ hstored => ?_
  have h9 := h8.trans stamped
  rw [swp_bind]
  refine swp_commit (hE.step h9) fun g' tx' finish hallow => ?_
  -- the commit flushes the event of the movement, then the record
  have hpend : oD.pending = [.insOutbox event] := by
    rw [dstAfter_eq.pending, srcAfter_eq.pending]
    cases moved <;> rfl
  simp only [hpend, hstored, List.cons_append, List.nil_append] at finish
  simp only [hL] at src_eq
  simp only [hS] at dst_eq
  exact hrun
    { lookup, began, unseen, readSrc, src_eq, readDst, dst_eq, funds, stamp, effective, moved,
      readSrcAfter, srcAfter_eq, readDstAfter, dstAfter_eq, stamped, finish } hallow

end Ledger
