import Ledger.Runs.Transfer

/-! # What the Remaining Requests Do

    * `ReverseRun`: an executed reversal up to its commit.
    * The rules of account opening, direct posting, rate publishing, dispatch,
      statement import and the sweep: the writes of each commit.
-/

namespace Ledger

open ReadCommitted

variable {ι : Type} {rg : RG ι Database Write Resource} {me : ι} {E : Raised ι}
  {o : OrmSession} {g : Shared ι Database Write} {tx : Tx Write Resource}

/-! ## Reversal -/

/-- The memo of a reversal. -/
def reversalMemo (req : ReverseTransactionRequest) (transactionId : UUID) : String :=
  if req.memo = "" then s!"reversal of {transactionId.str}" else req.memo

/-- An executed reversal, from its first statement to its commit. -/
structure ReverseRun [Runtime] (rg : RG ι Database Write Resource) (tenantId : String)
    (transactionId : UUID) (req : ReverseTransactionRequest) (key : String)
    (g₀ : Shared ι Database Write) where
  /-- The lookup of the key, the first statement. -/
  {gL : Shared ι Database Write}
  {txL : Tx Write Resource}
  lookup : Progress rg [] g₀ {} gL txL
  began : txL = ({} : Tx Write Resource).openAt gL.clock gL.wal.length
  unseen : gL.db.records.find? ⟨tenantId, REVERSE_ENDPOINT, key⟩ = none
  /-- The transaction to reverse. -/
  {original : Transaction}
  {gT : Shared ι Database Write}
  {txT : Tx Write Resource}
  readOriginal : Progress rg [] gL txL gT txT
  found : gT.db.transactions.find? transactionId = some original
  original_tenant : original.tenantId = tenantId
  original_plain : original.correctsId = none
  /-- There is no reversal of it yet. -/
  {gX : Shared ι Database Write}
  {txX : Tx Write Resource}
  readExisting : Progress rg [] gT txT gX txX
  unreversed : gX.db.reversalsOf tenantId transactionId = []
  /-- Its legs. -/
  {postings : List Posting}
  {gQ : Shared ι Database Write}
  {txQ : Tx Write Resource}
  readPostings : Progress rg [] gX txX gQ txQ
  postings_eq : gQ.db.selectPostings transactionId = postings
  /-- The compensating transaction. -/
  {gM : Shared ι Database Write}
  stamp : Progress rg [] gQ txQ gM txQ
  {txn : Transaction}
  {legs : List Leg}
  {event : OutboxEvent}
  {gP : Shared ι Database Write}
  {txP : Tx Write Resource}
  posted : Posted rg tenantId (reversed postings gM.clock) (reversalMemo req transactionId)
    (some transactionId) [] txn legs event gM txQ gP txP
  /-- The record, flushed with the event at the commit. -/
  {gR : Shared ι Database Write}
  stamped : Progress rg [] gP txP gR txP
  {g : Shared ι Database Write}
  {tx : Tx Write Resource}
  finish : Progress rg [.insOutbox event, .insRecord
    { id := ⟨tenantId, REVERSE_ENDPOINT, key⟩,
      requestFingerprint := fingerprint (req.modelDump transactionId),
      responseJson := (ReversalResponse.modelDump
        ⟨txn.id, transactionId, txn.memo, txn.createdAt⟩).dumps .spaced,
      statusCode := 200, createdAt := gR.clock }] gR txP g tx

namespace ReverseRun

variable [Runtime] {tenantId key : String} {transactionId : UUID} {req : ReverseTransactionRequest}
  {g₀ : Shared ι Database Write}

/-- The response. -/
def response (run : ReverseRun rg tenantId transactionId req key g₀) : ReversalResponse :=
  ⟨run.txn.id, transactionId, run.txn.memo, run.txn.createdAt⟩

/-- The record. -/
def stored (run : ReverseRun rg tenantId transactionId req key g₀) : IdempotencyRecord :=
  { id := ⟨tenantId, REVERSE_ENDPOINT, key⟩,
    requestFingerprint := fingerprint (req.modelDump transactionId),
    responseJson := run.response.modelDump.dumps .spaced, statusCode := 200,
    createdAt := run.gR.clock }

variable (run : ReverseRun rg tenantId transactionId req key g₀)

/-- The writes of an executed reversal. -/
def ws : List Write :=
  .insTransaction run.txn :: legWrites run.legs ++
    [.insOutbox run.event, .insRecord run.stored]

theorem txQ_log : run.txQ.log = [] := by
  simpa using (((run.lookup.trans run.readOriginal).trans run.readExisting).trans
    run.readPostings).log

/-- From the movement to the commit. -/
theorem tail : Progress rg run.ws run.gM run.txQ run.g run.tx := by
  have h := (run.posted.progress.trans run.stamped).trans run.finish
  simpa [ws, stored, response, List.append_assoc] using h

/-- From the existence check to the commit. -/
theorem sinceCheck : Progress rg run.ws run.gX run.txX run.g run.tx := by
  simpa using (run.readPostings.trans run.stamp).trans run.tail

theorem whole : Progress rg run.ws g₀ {} run.g run.tx := by
  simpa using ((run.lookup.trans run.readOriginal).trans run.readExisting).trans run.sinceCheck

theorem log : run.tx.log = run.ws := by simpa using run.whole.log

end ReverseRun

theorem swp_requireTransaction {Q : Ret ι Transaction} {tenantId : String} {transactionId : UUID}
    (hE : MayRaise rg E g tx)
    (h : ∀ t g' tx', Progress rg [] g tx g' tx' →
      (replay g'.db tx.log).transactions.find? transactionId = some t → t.tenantId = tenantId →
      Q t o g' tx') :
    swp rg me (requireTransaction tenantId transactionId) Q E o g tx := by
  rw [requireTransaction, swp_bind]
  refine swp_select fun g' tx' hp _ => ?_
  cases hfind : (replay g'.db tx.log).transactions.find? transactionId with
  | none => exact swp_raise ((hE.step hp).here _)
  | some t =>
    by_cases ht : t.tenantId = tenantId
    · simpa [ht] using h t g' tx' hp hfind ht
    · simp only [ne_eq, ht, not_false_eq_true, if_true]
      exact swp_raise ((hE.step hp).here _)

/-- **A reversal** replays a stored record, executes, or raises. -/
theorem swp_reverseTransaction [Runtime] {Q : Ret ι (Nat × ReversalResponse)}
    {tenantId key : String} {transactionId : UUID} {req : ReverseTransactionRequest}
    (hE : MayRaise rg E g {})
    (hreplay : ∀ r p a g' tx', Progress rg [] g {} g' tx' →
      g'.db.records.find? ⟨tenantId, REVERSE_ENDPOINT, key⟩ = some r →
      replayOf key (req.modelDump transactionId) r = .ok p →
      ReversalResponse.modelValidate p.body = some a → Q (p.statusCode, a) {} g' tx')
    (hrun : ∀ run : ReverseRun rg tenantId transactionId req key g, rg.allow me run.tx run.g →
      rg.guar me run.tx run.g (run.g.commit me run.tx) ∧
        ∀ o', Q (200, run.response) o' (run.g.commit me run.tx) {}) :
    swp rg me (reverseTransaction tenantId transactionId req key) Q E {} g {} := by
  simp only [reverseTransaction]
  rw [swp_bind]
  refine swp_lookup hE (fun gL txL lookup began unseen => ?_) fun r p g' tx' hp hfind hr => ?_
  swap
  · -- the key was completed before
    exact swp_replayed (hE.step hp) fun a ha => hreplay r p a g' tx' hp hfind hr ha
  have hL : txL.log = [] := by simpa using lookup.log
  simp only
  rw [swp_bind]
  refine swp_requireTransaction (hE.step lookup) fun original gT txT readOriginal found ht => ?_
  have h2 := lookup.trans readOriginal
  have hT : txT.log = [] := by simpa [hL] using readOriginal.log
  -- the three refusals, in the order of the code
  by_cases hplain : original.correctsId ≠ none
  · rw [if_pos hplain]
    exact swp_raise ((hE.step h2).here _)
  rw [if_neg hplain, swp_bind]
  refine swp_select fun gX txX readExisting _ => ?_
  have h3 := h2.trans readExisting
  have hX : txX.log = [] := by simpa [hT] using readExisting.log
  simp only [hT, replay_nil]
  by_cases hexisting : gX.db.reversalsOf tenantId transactionId ≠ []
  · rw [if_pos hexisting]
    exact swp_raise ((hE.step h3).here _)
  rw [if_neg hexisting, swp_bind]
  refine swp_select fun gQ txQ readPostings _ => ?_
  have h4 := h3.trans readPostings
  simp only [hX, replay_nil]
  by_cases hempty : gQ.db.selectPostings transactionId = []
  · rw [if_pos hempty]
    exact swp_raise ((hE.step h4).here _)
  rw [if_neg hempty, swp_bind]
  refine swp_now fun gM stamp => ?_
  have h5 := h4.trans stamp
  rw [swp_bind]
  refine swp_postTransaction (hE.step h5) fun txn legs event gP txP posted => ?_
  have h6 := h5.trans posted.progress
  rw [swp_bind]
  refine swp_record fun stored gR stamped _ hstored => ?_
  have h7 := h6.trans stamped
  rw [swp_bind]
  refine swp_commit (hE.step h7) fun g' tx' finish hallow => ?_
  -- the event and the record are flushed by the commit
  simp only [hstored, List.cons_append, List.nil_append] at finish
  simp only [hL] at found
  obtain ⟨hguar, hQ⟩ := hrun
    { lookup, began, unseen, readOriginal, found, original_tenant := ht,
      original_plain := not_not.mp hplain, readExisting, unreversed := not_not.mp hexisting,
      readPostings, postings_eq := rfl, stamp, posted, stamped, finish } hallow
  exact ⟨hguar, hQ _⟩

/-! ## The Other Writers -/

/-- The row of a new account. -/
structure Opened (tenantId : String) (req : OpenAccountRequest) (a : Account) : Prop where
  tenant : a.tenantId = tenantId
  path : a.path = req.path
  currency : a.currency = req.currency
  isOpen : a.isOpen = true

/-- **An opening** executes or raises, and answers with the account it wrote. -/
theorem swp_openAccount_told {Q : Ret ι AccountResponse} {tenantId : String}
    {req : OpenAccountRequest} (hE : MayRaise rg E g {})
    (hrun : ∀ a g' tx', Opened tenantId req a →
      Progress rg [.insAccount a, .insBalance ⟨a.id, tenantId, 0, 0, none⟩] g {} g' tx' →
      rg.allow me tx' g' → rg.guar me tx' g' (g'.commit me tx') ∧
        ∀ o', Q ⟨a.id, a.path, a.name, a.normalBalance, a.currency, 0, a.isOpen⟩ o'
          (g'.commit me tx') {}) :
    swp rg me (openAccount tenantId req) Q E {} g {} := by
  rw [openAccount, swp_bind]
  refine swp_uuid4 fun g₁ id h₁ => ?_
  rw [swp_bind]
  refine swp_now fun g₂ h₂ => ?_
  have h12 := h₁.trans h₂
  rw [swp_bind]
  refine swp_add ?_
  rw [swp_bind]
  refine swp_flush (hE.step h12) fun g₃ tx₃ h₃ => ?_
  have h13 := h12.trans h₃
  rw [swp_bind]
  refine swp_add ?_
  rw [swp_bind]
  refine swp_commit (hE.step h13) fun g' tx' finish hallow => ?_
  obtain ⟨hguar, hQ⟩ := hrun _ g' tx' ⟨rfl, rfl, rfl, rfl⟩ (by simpa using h13.trans finish) hallow
  exact ⟨hguar, hQ _⟩

theorem swp_openAccount {Q : Ret ι AccountResponse} {tenantId : String} {req : OpenAccountRequest}
    (hE : MayRaise rg E g {})
    (hrun : ∀ a g' tx', Opened tenantId req a →
      Progress rg [.insAccount a, .insBalance ⟨a.id, tenantId, 0, 0, none⟩] g {} g' tx' →
      rg.allow me tx' g' → rg.guar me tx' g' (g'.commit me tx') ∧
        ∀ r o', Q r o' (g'.commit me tx') {}) :
    swp rg me (openAccount tenantId req) Q E {} g {} :=
  swp_openAccount_told hE fun a g' tx' ha hp hallow =>
    ⟨(hrun a g' tx' ha hp hallow).1, fun o' => (hrun a g' tx' ha hp hallow).2 _ o'⟩

theorem swp_postAndCommit [Runtime] {Q : Ret ι Transaction} {tenantId : String}
    {specs : List PostingSpec} {memo : String} (hE : MayRaise rg E g {})
    (hrun : ∀ txn legs event g₁ tx₁ g' tx',
      Posted rg tenantId specs memo none [] txn legs event g {} g₁ tx₁ →
      Progress rg [.insOutbox event] g₁ tx₁ g' tx' → rg.allow me tx' g' →
      rg.guar me tx' g' (g'.commit me tx') ∧ ∀ o', Q txn o' (g'.commit me tx') {}) :
    swp rg me (postAndCommit tenantId specs memo) Q E {} g {} := by
  rw [postAndCommit, swp_bind]
  refine swp_postTransaction hE fun txn legs event g₁ tx₁ posted => ?_
  rw [swp_bind]
  refine swp_commit (hE.step posted.progress) fun g' tx' finish hallow => ?_
  obtain ⟨hguar, hQ⟩ := hrun txn legs event g₁ tx₁ g' tx' posted finish hallow
  exact ⟨hguar, hQ _⟩

theorem swp_upsertRate {Q : Ret ι UUID} {tenantId : String} {req : UpsertRateRequest}
    (hE : MayRaise rg E g {})
    (hrun : ∀ r g' tx', r.tenantId = tenantId → Progress rg [.insRate r] g {} g' tx' →
      rg.allow me tx' g' →
        rg.guar me tx' g' (g'.commit me tx') ∧ ∀ o', Q r.id o' (g'.commit me tx') {}) :
    swp rg me (upsertRate tenantId req) Q E {} g {} := by
  rw [upsertRate, swp_bind]
  refine swp_orNow fun effectiveAt g₁ h₁ _ => ?_
  rw [swp_bind]
  refine swp_uuid4 fun g₂ id h₂ => ?_
  rw [swp_bind]
  refine swp_now fun g₃ h₃ => ?_
  have h13 := (h₁.trans h₂).trans h₃
  rw [swp_bind]
  refine swp_add ?_
  rw [swp_bind]
  refine swp_commit (hE.step h13) fun g' tx' finish hallow => ?_
  obtain ⟨hguar, hQ⟩ := hrun _ g' tx' rfl (by simpa using h13.trans finish) hallow
  exact ⟨hguar, hQ _⟩

theorem swp_markPublished {Q : Ret ι Unit} {time : Time} (events : List OutboxEvent)
    (h : Q () { o with pending := o.pending ++ events.map fun e => .publish e.id time } g tx) :
    swp rg me (markPublished time events) Q E o g tx := by
  induction events generalizing o with
  | nil => simpa [markPublished] using h
  | cons e es ih =>
    rw [markPublished, swp_bind]
    refine swp_add (ih ?_)
    simpa [List.append_assoc] using h

theorem swp_dispatchPending {Q : Ret ι (List OutboxEvent)} {tenantId : String} {limit : Int}
    (hE : MayRaise rg E g {})
    (hnone : ∀ o' g' tx', Progress rg [] g {} g' tx' → Q [] o' g' tx')
    (hrun : ∀ g₁ tx₁ time g' tx', Progress rg [] g {} g₁ tx₁ →
      tx₁ = ({} : Tx Write Resource).openAt g₁.clock g₁.wal.length →
      Progress rg ((g₁.db.events tenantId (some .PENDING) limit.toNat).map
        fun e => .publish e.id time) g₁ tx₁ g' tx' → rg.allow me tx' g' →
      rg.guar me tx' g' (g'.commit me tx') ∧
        ∀ o', Q ((g₁.db.events tenantId (some .PENDING) limit.toNat).map fun e => e.publish time) o'
          (g'.commit me tx') {}) :
    swp rg me (dispatchPending tenantId limit) Q E {} g {} := by
  rw [dispatchPending, swp_bind, listEvents]
  by_cases hlimit : limit < 0
  · rw [if_pos hlimit]
    exact swp_raise (hE.here _)
  rw [if_neg hlimit]
  refine swp_select fun g₁ tx₁ h₁ began => ?_
  generalize hevents : (replay g₁.db ({} : Tx Write Resource).log).events tenantId
    (some .PENDING) limit.toNat = events
  rw [swp_bind]
  refine swp_now fun g₂ h₂ => ?_
  rw [swp_bind]
  refine swp_markPublished _ ?_
  by_cases hempty : events = []
  · rw [if_pos hempty]
    exact hnone _ _ _ (by simpa using h₁.trans h₂)
  rw [if_neg hempty, swp_bind]
  refine swp_commit (hE.step (h₁.trans h₂)) fun g' tx' finish hallow => ?_
  subst hevents
  obtain ⟨hguar, hQ⟩ := hrun g₁ tx₁ g₂.clock g' tx' h₁ began (by simpa using h₂.trans finish)
    hallow
  exact ⟨hguar, hQ _⟩

/-- The columns of a line that come from the file. -/
def StatementLine.parsed (l : StatementLine) : ParsedLine := ⟨l.amount, l.valueDate, l.externalRef⟩

theorem swp_addLines {Q : Ret ι Unit} {importId : UUID} (lines : List ParsedLine)
    (h : ∀ (rows : List StatementLine) g', (∀ row ∈ rows, row.importId = importId) →
      rows.map StatementLine.parsed = lines → Progress rg [] g tx g' tx →
      Q () { o with pending := o.pending ++ rows.map .insLine } g' tx) :
    swp rg me (addLines importId lines) Q E o g tx := by
  induction lines generalizing o g with
  | nil => simpa [addLines] using h [] g (by simp) rfl (.refl g tx)
  | cons line lines ih =>
    rw [addLines, swp_bind]
    refine swp_uuid4 fun g₁ id h₁ => ?_
    rw [swp_bind]
    refine swp_add (ih fun rows g' hrows hlines hp => ?_)
    have h' := h (⟨id, importId, line.amount, line.valueDate, line.externalRef, none⟩ :: rows) g'
      (by simpa using hrows) (by rw [List.map_cons, hlines]; rfl) (by simpa using h₁.trans hp)
    simpa [List.append_assoc] using h'

/-- An import that found no earlier one, from its first statement to its commit. -/
structure ImportRun [Runtime] (rg : RG ι Database Write Resource) (tenantId raw : String)
    (lines : List ParsedLine) (g₀ : Shared ι Database Write) where
  /-- The search for an earlier import. -/
  {gS : Shared ι Database Write}
  {txS : Tx Write Resource}
  search : Progress rg [] g₀ {} gS txS
  began : txS = ({} : Tx Write Resource).openAt gS.clock gS.wal.length
  unseen : gS.db.importsOf tenantId (Runtime.sha256 raw) = []
  /-- The new import and its lines. -/
  row : StatementImport
  tenant : row.tenantId = tenantId
  hash : row.fileHash = Runtime.sha256 raw
  rows : List StatementLine
  rows_import : ∀ r ∈ rows, r.importId = row.id
  rows_lines : rows.map StatementLine.parsed = lines
  {g : Shared ι Database Write}
  {tx : Tx Write Resource}
  finish : Progress rg (.insImport row :: rows.map .insLine) gS txS g tx

namespace ImportRun

variable [Runtime] {tenantId raw : String} {lines : List ParsedLine} {g₀ : Shared ι Database Write}
  (run : ImportRun rg tenantId raw lines g₀)

theorem whole : Progress rg (.insImport run.row :: run.rows.map .insLine) g₀ {} run.g run.tx := by
  simpa using run.search.trans run.finish

theorem log : run.tx.log = .insImport run.row :: run.rows.map .insLine := by
  simpa using run.whole.log

end ImportRun

/-- **An import** returns the first one it finds, or commits its own. -/
theorem swp_importStatement [Runtime] {Q : Ret ι ImportResult} {tenantId : String} {account : UUID}
    {raw : String} {lines : List ParsedLine} (hE : MayRaise rg E g {})
    (hfound : ∀ (found : StatementImport) rest o' g' tx', Progress rg [] g {} g' tx' →
      g'.db.importsOf tenantId (Runtime.sha256 raw) = found :: rest →
      Q ⟨found.id, false, 0⟩ o' g' tx')
    (hrun : ∀ run : ImportRun rg tenantId raw lines g, rg.allow me run.tx run.g →
      rg.guar me run.tx run.g (run.g.commit me run.tx) ∧
        ∀ o', Q ⟨run.row.id, true, lines.length⟩ o' (run.g.commit me run.tx) {}) :
    swp rg me (importStatement tenantId account raw lines) Q E {} g {} := by
  simp only [importStatement]
  rw [swp_bind]
  refine swp_select fun gS txS search began => ?_
  simp only [replay_nil]
  cases himports : gS.db.importsOf tenantId (Runtime.sha256 raw) with
  | cons found rest => exact hfound found rest _ _ _ search himports
  | nil =>
    simp only
    rw [swp_bind]
    refine swp_uuid4 fun g₂ id h₂ => ?_
    rw [swp_bind]
    refine swp_now fun g₃ h₃ => ?_
    have h23 := h₂.trans h₃
    rw [swp_bind]
    refine swp_add ?_
    rw [swp_bind]
    refine swp_flush (hE.step (search.trans h23)) fun g₄ tx₄ h₄ => ?_
    have h24 := h23.trans h₄
    rw [swp_bind]
    refine swp_addLines lines fun rows g₅ hrows hlines h₅ => ?_
    have h25 := h24.trans h₅
    rw [swp_bind]
    refine swp_commit (hE.step (search.trans h25)) fun g' tx' finish hallow => ?_
    let row : StatementImport := ⟨id, tenantId, account, Runtime.sha256 raw, g₃.clock⟩
    have written : Progress rg (.insImport row :: rows.map .insLine) gS txS g' tx' := by
      simpa [row] using h25.trans finish
    obtain ⟨hguar, hQ⟩ := hrun
      { search, began, unseen := himports, row, tenant := rfl, hash := rfl, rows,
        rows_import := hrows, rows_lines := hlines, finish := written } hallow
    exact ⟨hguar, hQ {}⟩

/-- A sweep, from its first statement to its commit. -/
structure SweepRun (rg : RG ι Database Write Resource) (minAge : Time)
    (g₀ : Shared ι Database Write) where
  /-- The clock the cutoff is taken from. -/
  {gN : Shared ι Database Write}
  stamp : Progress rg [] g₀ {} gN {}
  /-- The deletion. -/
  {gS : Shared ι Database Write}
  {txS : Tx Write Resource}
  deleted : Progress rg [.deleteRecords (gS.db.swept (gN.clock - minAge))] gN {} gS txS
  locked : ∀ k ∈ gS.db.swept (gN.clock - minAge), .record k ∈ txS.held
  {g : Shared ι Database Write}
  {tx : Tx Write Resource}
  finish : Progress rg [] gS txS g tx

namespace SweepRun

variable {minAge : Time} {g₀ : Shared ι Database Write} (run : SweepRun rg minAge g₀)

/-- The keys the sweep deletes. -/
def keys : List RecordKey := run.gS.db.swept (run.gN.clock - minAge)

theorem whole : Progress rg [.deleteRecords run.keys] g₀ {} run.g run.tx := by
  simpa [keys] using (run.stamp.trans run.deleted).trans run.finish

theorem log : run.tx.log = [.deleteRecords run.keys] := by simpa using run.whole.log

end SweepRun

/-- **A sweep** deletes the records its own snapshot shows to be old. -/
theorem swp_sweepOnce {Q : Ret ι SweepResult} {minAge : Time} (hE : MayRaise rg E g {})
    (hrun : ∀ run : SweepRun rg minAge g, rg.allow me run.tx run.g →
      rg.guar me run.tx run.g (run.g.commit me run.tx) ∧
        ∀ r o', Q r o' (run.g.commit me run.tx) {}) :
    swp rg me (sweepOnce minAge) Q E {} g {} := by
  rw [sweepOnce, swp_bind]
  refine swp_now fun gN stamp => ?_
  rw [swp_bind]
  simp only [swp, deleteBefore, wp, Ret.post]
  intro gS hr
  -- the cutoff is older than the snapshot of the deletion
  let w : Write := .deleteRecords (gS.db.swept (gN.clock - minAge))
  let txS : Tx Write Resource :=
    Tx.write (D := Database) (({} : Tx Write Resource).openAt gS.clock gS.wal.length) [w]
  have deleted : Progress rg [w] gN {} gS txS := .write hr w rfl
  have locked : ∀ k ∈ gS.db.swept (gN.clock - minAge), .record k ∈ txS.held := by
    intro k hk
    simpa [txS, w, Tx.write, Dbms.locks, Write.locks] using hk
  show swp rg me _ Q E {} gS txS
  rw [swp_bind]
  refine swp_select fun g₂ tx₂ h₂ _ => ?_
  rw [swp_bind]
  refine swp_commit (hE.step ((stamp.trans deleted).trans h₂)) fun g' tx' finish hallow => ?_
  obtain ⟨hguar, hQ⟩ := hrun { stamp, deleted, locked, finish := h₂.trans finish } hallow
  exact ⟨hguar, hQ _ _⟩

end Ledger
