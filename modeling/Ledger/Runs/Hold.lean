import Ledger.Runs.Transfer

/-! # What the Hold Requests Do

    * `PlaceRun`: an executed placement up to its commit.
    * `CaptureRun`: an executed capture up to its commit.
    * `ReleaseRun`: an executed release up to its commit.

    A capture or a release of a hold that is already resolved only reads.
-/

namespace Ledger

open ReadCommitted

variable {ι : Type} {rg : RG ι Database Write Resource} {me : ι} {E : Raised ι}
  {o : OrmSession} {g : Shared ι Database Write} {tx : Tx Write Resource}

/-! ## Placement -/

/-- An executed placement, from its first statement to its commit. -/
structure PlaceRun [Runtime] (rg : RG ι Database Write Resource) (tenantId : String)
    (req : PlaceHoldRequest) (key : String) (g₀ : Shared ι Database Write) where
  /-- The lookup of the key, the first statement. -/
  {gL : Shared ι Database Write}
  {txL : Tx Write Resource}
  lookup : Progress rg [] g₀ {} gL txL
  began : txL = ({} : Tx Write Resource).openAt gL.clock gL.wal.length
  unseen : gL.db.records.find? ⟨tenantId, PLACE_ENDPOINT, key⟩ = none
  /-- The account and its funds. -/
  {account : Account}
  {gS : Shared ι Database Write}
  {txS : Tx Write Resource}
  readAccount : Progress rg [] gL txL gS txS
  account_eq : gS.db.HasAccount tenantId req.accountId account
  {oF : OrmSession}
  {gF : Shared ι Database Write}
  {txF : Tx Write Resource}
  funds : FundsChecked rg tenantId req.accountId req.amount {} gS txS oF gF txF
  /-- The hold. -/
  {hold : Hold}
  {gM : Shared ι Database Write}
  stamp : Progress rg [] gF txF gM txF
  hold_tenant : hold.tenantId = tenantId
  hold_account : hold.accountId = req.accountId
  hold_amount : hold.amount = req.amount
  hold_state : hold.state = .ACTIVE
  hold_open : hold.capturedTransactionId = none ∧ hold.capturedAmount = none ∧
    hold.resolvedAt = none
  {gE : Shared ι Database Write}
  readExpiry : Progress rg [] gF txF gE txF
  hold_expires : hold.expiresAt = req.expiresAt.getD (gE.clock + HOLD_DEFAULT_TTL)
  {gI : Shared ι Database Write}
  {txI : Tx Write Resource}
  inserted : Progress rg [.insHold hold] gM txF gI txI
  /-- The resulting balances. -/
  {after : Balance}
  {oA : OrmSession}
  {gA : Shared ι Database Write}
  {txA : Tx Write Resource}
  readAfter : AvailableRead rg tenantId req.accountId { oF with pending := [] } gI txI (some after)
    oA gA txA
  /-- The record, flushed at the commit. -/
  {gR : Shared ι Database Write}
  stamped : Progress rg [] gA txA gR txA
  {g : Shared ι Database Write}
  {tx : Tx Write Resource}
  finish : Progress rg [.insRecord
    { id := ⟨tenantId, PLACE_ENDPOINT, key⟩, requestFingerprint := fingerprint req.modelDump,
      responseJson := (toResponse hold after.posted after.available).modelDump.dumps .spaced,
      statusCode := 200, createdAt := gR.clock }] gR txA g tx

namespace PlaceRun

variable [Runtime] {tenantId key : String} {req : PlaceHoldRequest} {g₀ : Shared ι Database Write}

/-- The response. -/
def response (run : PlaceRun rg tenantId req key g₀) : HoldResponse :=
  toResponse run.hold run.after.posted run.after.available

/-- The record. -/
def stored (run : PlaceRun rg tenantId req key g₀) : IdempotencyRecord :=
  { id := ⟨tenantId, PLACE_ENDPOINT, key⟩, requestFingerprint := fingerprint req.modelDump,
    responseJson := run.response.modelDump.dumps .spaced, statusCode := 200,
    createdAt := run.gR.clock }

variable (run : PlaceRun rg tenantId req key g₀)

theorem txS_log : run.txS.log = [] := by
  simpa using (run.lookup.trans run.readAccount).log

/-- From the funds check to the commit. -/
theorem tail : Progress rg [.insHold run.hold, .insRecord run.stored]
    run.gF run.txF run.g run.tx := by
  have h := (((run.stamp.trans run.inserted).trans run.readAfter.progress).trans run.stamped).trans
    run.finish
  simpa [stored, response] using h

theorem whole : Progress rg [.insHold run.hold, .insRecord run.stored] g₀ {} run.g run.tx := by
  simpa using ((run.lookup.trans run.readAccount).trans run.funds.progress).trans run.tail

/-- The writes of an executed placement. -/
theorem log : run.tx.log = [.insHold run.hold, .insRecord run.stored] := by
  simpa using run.whole.log

end PlaceRun

theorem swp_expiryOf [Runtime] {Q : Ret ι Time} {t? : Option Time}
    (h : ∀ t g', Progress rg [] g tx g' tx → t = t?.getD (g'.clock + HOLD_DEFAULT_TTL) →
      Q t o g' tx) :
    swp rg me (expiryOf t?) Q E o g tx := by
  unfold expiryOf
  cases t? with
  | some t => exact h t g (.refl _ _) rfl
  | none =>
    simp only
    rw [swp_bind]
    exact swp_now fun g' hp => h _ g' hp rfl

/-- **A placement** replays a stored record, executes, or raises. -/
theorem swp_placeHold [Runtime] {Q : Ret ι (Nat × HoldResponse)} {tenantId key : String}
    {req : PlaceHoldRequest} (hE : MayRaise rg E g {})
    (hreplay : ∀ r p a g' tx', Progress rg [] g {} g' tx' →
      g'.db.records.find? ⟨tenantId, PLACE_ENDPOINT, key⟩ = some r →
      replayOf key req.modelDump r = .ok p → HoldResponse.modelValidate p.body = some a →
      Q (p.statusCode, a) {} g' tx')
    (hrun : ∀ run : PlaceRun rg tenantId req key g, rg.allow me run.tx run.g →
      rg.guar me run.tx run.g (run.g.commit me run.tx) ∧
        Q (200, run.response) { run.oA with pending := [] } (run.g.commit me run.tx) {}) :
    swp rg me (placeHold tenantId req key) Q E {} g {} := by
  simp only [placeHold]
  rw [swp_bind]
  refine swp_lookup hE (fun gL txL lookup began unseen => ?_) fun r p g' tx' hp hfind hr => ?_
  swap
  · -- the key was completed before
    exact swp_replayed (hE.step hp) fun a ha => hreplay r p a g' tx' hp hfind hr ha
  have hL : txL.log = [] := by simpa using lookup.log
  simp only
  rw [swp_bind]
  refine swp_requireAccount (hE.step lookup) fun account gS txS readAccount account_eq => ?_
  have h2 := lookup.trans readAccount
  have hS : txS.log = [] := by simpa [hL] using readAccount.log
  rw [swp_bind]
  refine swp_requireFunds (hE.step h2) fun oF gF txF funds => ?_
  have h3 := h2.trans funds.progress
  rw [swp_bind]
  refine swp_expiryOf fun expiresAt gE readExpiry hexpires => ?_
  rw [swp_bind]
  refine swp_uuid4 fun g₁ id h₁ => ?_
  rw [swp_bind]
  refine swp_now fun g₂ h₂ => ?_
  have stamp := (readExpiry.trans h₁).trans h₂
  simp only [List.append_nil] at stamp
  have h4 := h3.trans stamp
  rw [swp_bind]
  refine swp_add ?_
  rw [swp_bind]
  -- the hold is in the database when the balances are read
  refine swp_flush (hE.step h4) fun gI txI inserted => ?_
  have h5 := h4.trans inserted
  rw [swp_bind]
  refine swp_availableBalance fun r oA gA txA readAfter => ?_
  have h6 := h5.trans readAfter.progress
  cases r with
  | none => exact swp_raise ((hE.step h6).here _)
  | some after =>
    simp only
    rw [swp_bind]
    refine swp_record fun stored gR stamped _ hstored => ?_
    have h7 := h6.trans stamped
    rw [swp_bind]
    refine swp_commit (hE.step h7) fun g' tx' finish hallow => ?_
    -- only the record waits for the commit
    have hpend : oA.pending = [] := readAfter.pending
    have hpendF : oF.pending = [] := funds.pending
    simp only [hpend, hstored, List.nil_append] at finish
    simp only [hpendF, List.nil_append] at inserted
    simp only [hL] at account_eq
    exact hrun
      { lookup, began, unseen, readAccount, account_eq, funds, stamp, hold_tenant := rfl,
        hold_account := rfl, hold_amount := rfl, hold_state := rfl, hold_open := ⟨rfl, rfl, rfl⟩,
        readExpiry, hold_expires := hexpires, inserted, readAfter, stamped, finish } hallow

/-! ## Resolution -/

/-- The response about a hold with the account's current balances. -/
def responseWith (hold : Hold) : Option Balance → HoldResponse
  | some b => toResponse hold b.posted b.available
  | none => toResponse hold 0 0

theorem swp_currentResponse {Q : Ret ι HoldResponse} {tenantId : String} {hold : Hold}
    (h : ∀ r o' g' tx', AvailableRead rg tenantId hold.accountId o g tx r o' g' tx' →
      Q (responseWith hold r) o' g' tx') :
    swp rg me (currentResponse tenantId hold) Q E o g tx := by
  rw [currentResponse, swp_bind]
  refine swp_availableBalance fun r o' g' tx' hr => ?_
  cases r <;> exact h _ o' g' tx' hr

theorem swp_requireHold {Q : Ret ι Hold} {tenantId : String} {holdId : UUID}
    (hE : MayRaise rg E g tx)
    (h : ∀ hold g' tx', Progress rg [] g tx g' tx' → tx' = tx.openAt g'.clock g'.wal.length →
      (replay g'.db tx.log).holds.find? holdId = some hold → hold.tenantId = tenantId →
      Q hold o g' tx') :
    swp rg me (requireHold tenantId holdId) Q E o g tx := by
  rw [requireHold, swp_bind]
  refine swp_select fun g' tx' hp htx => ?_
  cases hfind : (replay g'.db tx.log).holds.find? holdId with
  | none => exact swp_raise ((hE.step hp).here _)
  | some hold =>
    by_cases ht : hold.tenantId = tenantId
    · simpa [ht] using h hold g' tx' hp htx hfind ht
    · simp only [ne_eq, ht, not_false_eq_true, if_true]
      exact swp_raise ((hE.step hp).here _)

/-- An executed capture, from its first statement to its commit. -/
structure CaptureRun [Runtime] (rg : RG ι Database Write Resource) (tenantId : String)
    (holdId : UUID) (req : CaptureHoldRequest) (g₀ : Shared ι Database Write) where
  /-- The hold, read by the first statement and never again. -/
  {hold : Hold}
  {gH : Shared ι Database Write}
  {txH : Tx Write Resource}
  read : Progress rg [] g₀ {} gH txH
  began : txH = ({} : Tx Write Resource).openAt gH.clock gH.wal.length
  found : gH.db.holds.find? holdId = some hold
  hold_tenant : hold.tenantId = tenantId
  active : hold.state = .ACTIVE
  /-- The two accounts. -/
  {src : Account}
  {gS : Shared ι Database Write}
  {txS : Tx Write Resource}
  readSrc : Progress rg [] gH txH gS txS
  src_eq : gS.db.HasAccount tenantId hold.accountId src
  {dst : Account}
  {gD : Shared ι Database Write}
  {txD : Tx Write Resource}
  readDst : Progress rg [] gS txS gD txD
  dst_eq : gD.db.HasAccount tenantId req.destinationAccountId dst
  currency : src.currency = dst.currency
  within : captureAmount hold req ≤ hold.amount
  /-- The check of the posted balance, under the lock. -/
  {gK : Shared ι Database Write}
  {txK : Tx Write Resource}
  lock : Progress rg [] gD txD gK txK
  held : .advisory (lockKey hold.accountId) ∈ txK.held
  {before : Balance}
  {oB : OrmSession}
  {gB : Shared ι Database Write}
  {txB : Tx Write Resource}
  readBefore : AvailableRead rg tenantId hold.accountId {} gK txK (some before) oB gB txB
  covers : captureAmount hold req ≤ before.posted
  /-- The transaction. -/
  {gM : Shared ι Database Write}
  stamp : Progress rg [] gB txB gM txB
  {txn : Transaction}
  {legs : List Leg}
  {event : OutboxEvent}
  {gP : Shared ι Database Write}
  {txP : Tx Write Resource}
  posted : Posted rg tenantId
    (pair hold.accountId req.destinationAccountId (captureAmount hold req) gM.clock)
    (if req.memo = "" then hold.memo else req.memo) none [] txn legs event gM txB gP txP
  /-- The resulting balances. -/
  {after : Balance}
  {oA : OrmSession}
  {gA : Shared ι Database Write}
  {txA : Tx Write Resource}
  readAfter : AvailableRead rg tenantId hold.accountId
    { afterPost tenantId legs event oB with
      pending := [.insOutbox event,
        .captureHold hold.id txn.id (captureAmount hold req) gM.clock] }
    gP txP (some after) oA gA txA
  {g : Shared ι Database Write}
  {tx : Tx Write Resource}
  finish : Progress rg [.insOutbox event,
    .captureHold hold.id txn.id (captureAmount hold req) gM.clock] gA txA g tx

namespace CaptureRun

variable [Runtime] {tenantId : String} {holdId : UUID} {req : CaptureHoldRequest}
  {g₀ : Shared ι Database Write}

/-- The amount captured. -/
def amount (run : CaptureRun rg tenantId holdId req g₀) : Int := captureAmount run.hold req

/-- The response. -/
def response (run : CaptureRun rg tenantId holdId req g₀) : HoldResponse :=
  toResponse (run.hold.capture run.txn.id run.amount run.gM.clock) run.after.posted
    run.after.available

variable (run : CaptureRun rg tenantId holdId req g₀)

/-- The writes of an executed capture. -/
def ws : List Write :=
  .insTransaction run.txn :: legWrites run.legs ++
    [.insOutbox run.event, .captureHold run.hold.id run.txn.id run.amount run.gM.clock]

theorem amount_pos : 0 < run.amount := by
  unfold amount captureAmount
  cases h : req.amount with
  | none => exact run.hold.amount_pos
  | some a => exact req.amount_pos a h

theorem hold_id : run.hold.id = holdId := Table.key_of_find? run.found

theorem txB_log : run.txB.log = [] := by
  have h := ((((run.read.trans run.readSrc).trans run.readDst).trans run.lock).trans
    run.readBefore.progress).log
  simpa using h

/-- From the reading of the hold to the movement. -/
theorem prelude : Progress rg [] run.gH run.txH run.gM run.txB := by
  simpa using (((run.readSrc.trans run.readDst).trans run.lock).trans
    run.readBefore.progress).trans run.stamp

/-- From the movement to the commit. -/
theorem tail : Progress rg run.ws run.gM run.txB run.g run.tx := by
  have h := (run.posted.progress.trans run.readAfter.progress).trans run.finish
  simpa [ws, amount, List.append_assoc] using h

theorem whole : Progress rg run.ws g₀ {} run.g run.tx := by
  simpa using (run.read.trans run.prelude).trans run.tail

theorem log : run.tx.log = run.ws := by simpa using run.whole.log

end CaptureRun

/-- **A capture** replays a captured hold, executes, or raises. -/
theorem swp_captureHold [Runtime] {Q : Ret ι HoldResponse} {tenantId : String} {holdId : UUID}
    {req : CaptureHoldRequest} (hE : MayRaise rg E g {})
    (hreplay : ∀ hold r o' g₁ tx₁ g' tx', Progress rg [] g {} g₁ tx₁ →
      g₁.db.holds.find? holdId = some hold → hold.tenantId = tenantId → hold.state = .CAPTURED →
      AvailableRead rg tenantId hold.accountId {} g₁ tx₁ r o' g' tx' →
      Q (responseWith hold r) o' g' tx')
    (hrun : ∀ run : CaptureRun rg tenantId holdId req g, rg.allow me run.tx run.g →
      rg.guar me run.tx run.g (run.g.commit me run.tx) ∧
        Q run.response { run.oA with pending := [] } (run.g.commit me run.tx) {}) :
    swp rg me (captureHold tenantId holdId req) Q E {} g {} := by
  rw [captureHold, swp_bind]
  refine swp_requireHold hE fun hold gH txH read began found hold_tenant => ?_
  have hH : txH.log = [] := by simpa using read.log
  -- a captured hold is answered, any other that is not active is refused
  by_cases hcaptured : hold.state = .CAPTURED
  · rw [if_pos hcaptured]
    exact swp_currentResponse fun r o' g' tx' hr =>
      hreplay hold r o' gH txH g' tx' read found hold_tenant hcaptured hr
  rw [if_neg hcaptured]
  by_cases hactive : hold.state ≠ .ACTIVE
  · rw [if_pos hactive]
    exact swp_raise ((hE.step read).here _)
  rw [if_neg hactive, swp_bind]
  refine swp_requireAccount (hE.step read) fun src gS txS readSrc src_eq => ?_
  have h2 := read.trans readSrc
  have hS : txS.log = [] := by simpa [hH] using readSrc.log
  rw [swp_bind]
  refine swp_requireAccount (hE.step h2) fun dst gD txD readDst dst_eq => ?_
  have h3 := h2.trans readDst
  by_cases hcur : src.currency ≠ dst.currency
  · rw [if_pos hcur]
    exact swp_raise ((hE.step h3).here _)
  rw [if_neg hcur]
  by_cases hwithin : hold.amount < captureAmount hold req
  · rw [if_pos hwithin]
    exact swp_raise ((hE.step h3).here _)
  rw [if_neg hwithin]
  simp only [captureFunds]
  rw [swp_bind, swp_bind]
  -- from here on the account is locked
  refine swp_accountLock fun gK txK lock held => ?_
  have h4 := h3.trans lock
  rw [swp_bind]
  refine swp_availableBalance fun r oB gB txB readBefore => ?_
  have h5 := h4.trans readBefore.progress
  cases r with
  | none => exact swp_raise ((hE.step h5).here _)
  | some before =>
    simp only
    by_cases hcovers : before.posted < captureAmount hold req
    · rw [if_pos hcovers]
      exact swp_raise ((hE.step h5).here _)
    rw [if_neg hcovers, swp_bind]
    refine swp_now fun gM stamp => ?_
    have h6 := h5.trans stamp
    rw [swp_bind]
    refine swp_postTransaction (hE.step h6) fun txn legs event gP txP posted => ?_
    have h7 := h6.trans posted.progress
    have hpend : oB.pending = [] := readBefore.pending
    -- the hold's update is pending when the balances are read
    rw [swp_pure, swp_bind]
    refine swp_add ?_
    rw [swp_bind]
    refine swp_availableBalance fun r oA gA txA readAfter => ?_
    have h8 := h7.trans readAfter.progress
    cases r with
    | none => exact swp_raise ((hE.step h8).here _)
    | some after =>
      simp only
      rw [swp_bind]
      refine swp_commit (hE.step h8) fun g' tx' finish hallow => ?_
      -- what the commit flushes: the event and the update of the hold
      rw [readAfter.pending] at finish
      rw [hpend] at posted
      simp only [hH] at src_eq
      simp only [hS] at dst_eq
      exact hrun
        { read, began, found, hold_tenant, active := not_not.mp hactive, readSrc, src_eq,
          readDst, dst_eq, currency := not_not.mp hcur, within := not_lt.mp hwithin, lock,
          held, readBefore, covers := not_lt.mp hcovers, stamp, posted, readAfter, finish }
        hallow

/-- An executed release, from its first statement to its commit. -/
structure ReleaseRun (rg : RG ι Database Write Resource) (tenantId : String) (holdId : UUID)
    (g₀ : Shared ι Database Write) where
  {hold : Hold}
  {gH : Shared ι Database Write}
  {txH : Tx Write Resource}
  read : Progress rg [] g₀ {} gH txH
  began : txH = ({} : Tx Write Resource).openAt gH.clock gH.wal.length
  found : gH.db.holds.find? holdId = some hold
  hold_tenant : hold.tenantId = tenantId
  active : hold.state = .ACTIVE
  {gM : Shared ι Database Write}
  stamp : Progress rg [] gH txH gM txH
  {g : Shared ι Database Write}
  {tx : Tx Write Resource}
  finish : Progress rg [.releaseHold hold.id gM.clock] gM txH g tx

namespace ReleaseRun

variable {tenantId : String} {holdId : UUID} {g₀ : Shared ι Database Write}
  (run : ReleaseRun rg tenantId holdId g₀)

theorem hold_id : run.hold.id = holdId := Table.key_of_find? run.found

/-- From the reading of the hold to the commit. -/
theorem tail : Progress rg [.releaseHold run.hold.id run.gM.clock] run.gH run.txH run.g run.tx := by
  simpa using run.stamp.trans run.finish

theorem whole : Progress rg [.releaseHold run.hold.id run.gM.clock] g₀ {} run.g run.tx := by
  simpa using run.read.trans run.tail

theorem log : run.tx.log = [.releaseHold run.hold.id run.gM.clock] := by
  simpa using run.whole.log

end ReleaseRun

/-- **A release** answers for a released hold, executes, or raises. -/
theorem swp_releaseHold {Q : Ret ι HoldResponse} {tenantId : String} {holdId : UUID}
    (hE : MayRaise rg E g {})
    (hreplay : ∀ hold r o' g₁ tx₁ g' tx', Progress rg [] g {} g₁ tx₁ →
      g₁.db.holds.find? holdId = some hold → hold.tenantId = tenantId → hold.state = .RELEASED →
      AvailableRead rg tenantId hold.accountId {} g₁ tx₁ r o' g' tx' →
      Q (responseWith hold r) o' g' tx')
    (hrun : ∀ run : ReleaseRun rg tenantId holdId g, rg.allow me run.tx run.g →
      rg.guar me run.tx run.g (run.g.commit me run.tx) ∧
        ∀ r o' g' tx',
          AvailableRead rg tenantId run.hold.accountId {} (run.g.commit me run.tx) {} r o' g' tx' →
          Q (responseWith (run.hold.release run.gM.clock) r) o' g' tx') :
    swp rg me (releaseHold tenantId holdId) Q E {} g {} := by
  rw [releaseHold, swp_bind]
  refine swp_requireHold hE fun hold gH txH read began found hold_tenant => ?_
  cases hstate : hold.state with
  | ACTIVE =>
    simp only
    rw [swp_bind]
    refine swp_now fun gM stamp => ?_
    have h2 := read.trans stamp
    rw [swp_bind]
    refine swp_add ?_
    rw [swp_bind]
    refine swp_commit (hE.step h2) fun g' tx' finish hallow => ?_
    simp only [List.nil_append] at finish
    obtain ⟨hguar, hQ⟩ :=
      hrun { read, began, found, hold_tenant, active := hstate, stamp, finish } hallow
    refine ⟨hguar, swp_currentResponse fun r o' g'' tx'' hr => ?_⟩
    exact hQ r o' g'' tx'' hr
  | CAPTURED => exact swp_raise ((hE.step read).here _)
  | RELEASED =>
    exact swp_currentResponse fun r o' g' tx' hr =>
      hreplay hold r o' gH txH g' tx' read found hold_tenant hstate hr

end Ledger
