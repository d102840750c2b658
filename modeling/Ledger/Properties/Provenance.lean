import Ledger.Properties.Durability
import Ledger.Properties.Rates
import Ledger.Runs.Movements

/-! # What Every Entry of the Journal Was Asked For

    Money moves only because a request asks for it, and every commit moves
    what its request asks for, whatever the others do.

    * **Entries**: `entriesIn`, the entries that a list of writes adds to the
      journal; `Bookkeeping.journal`.
    * **Requests**: `Asked`, the entries a request asks for.
    * **Runs**: `keeps_asked`, what a commit adds its request has asked for.
    * **Result**: `asked_of_reachable`.
-/

namespace Ledger

open ReadCommitted

/-! ## Entries -/

section entries

/-- The legs under a transaction id among some postings. -/
def legsUnder (ps : List Posting) (id : UUID) : List (UUID × Int) :=
  (ps.filter fun p => p.transactionId = id).map fun p => (p.accountId, p.amount)

/-- The entries that a list of writes adds to the journal. -/
def entriesIn (ws : List Write) : List (DoubleEntry.Entry String UUID Int) :=
  (insertedTransactions ws).map fun t => ⟨t.tenantId, legsUnder (insertedPostings ws) t.id⟩

/-- The postings of the writes are those of their transactions. -/
def Closed (ws : List Write) : Prop :=
  ∀ p ∈ insertedPostings ws, ∃ t ∈ insertedTransactions ws, t.id = p.transactionId

variable {d : Database} {ws vs : List Write} {txn : Transaction} {specs : List PostingSpec}
  {legs : List Leg}

/-- What is let through inserts new rows. -/
theorem Admitted.fresh (h : Admitted d ws) : Fresh d ws := by
  have hins : ∀ pre w post, ws = pre ++ w :: post → ∀ t id, w.inserts = some (t, id) →
      d.has id t = false ∧ ∀ v ∈ pre, v.inserts ≠ some (t, id) := fun pre w post heq t id hw =>
    not_has_replay.mp (not_has_of_constrain (h pre w post heq) hw)
  constructor
  · intro w hw t id hid
    obtain ⟨pre, post, heq⟩ := List.append_of_mem hw
    exact (hins pre w post heq t id hid).1
  · rw [List.pairwise_iff_getElem]
    intro i j hi hj hij t id hid hjd
    have heq : ws = ws.take j ++ ws[j] :: ws.drop (j + 1) := by simp
    have hmem : ws[i] ∈ ws.take j := List.mem_take_iff_getElem.mpr ⟨i, by omega, rfl⟩
    exact (hins _ _ _ heq t id hjd).2 _ hmem hid

theorem legsUnder_append (ps qs : List Posting) (id : UUID) :
    legsUnder (ps ++ qs) id = legsUnder ps id ++ legsUnder qs id := by
  simp [legsUnder]

/-- A transaction other than those the postings belong to has none of them. -/
theorem legsUnder_eq_nil {ps : List Posting} {id : UUID} (h : ∀ p ∈ ps, p.transactionId ≠ id) :
    legsUnder ps id = [] := by
  simpa [legsUnder] using h

theorem insertedTransactions_legWrites (legs : List Leg) :
    insertedTransactions (legWrites legs) = [] := by
  unfold insertedTransactions
  rw [List.filterMap_eq_nil_iff]
  intro w hw
  rcases table_legWrites hw with h | h <;> cases w <;> first | rfl | cases h

/-- Writes that post nothing. -/
theorem inserted_plain (h : ∀ w ∈ ws, w.table ≠ .transactions ∧ w.table ≠ .postings) :
    insertedTransactions ws = [] ∧ insertedPostings ws = [] := by
  unfold insertedTransactions insertedPostings
  rw [List.filterMap_eq_nil_iff, List.filterMap_eq_nil_iff]
  constructor <;> intro w hw <;> obtain ⟨htransaction, hposting⟩ := h w hw <;> cases w <;>
    first | rfl | exact absurd rfl htransaction | exact absurd rfl hposting

/-- The legs a call of the engine carries out. -/
theorem legs_carried {id : UUID} (h : List.Forall₂ (Leg.Of id) specs legs) :
    legsUnder (legs.map Leg.posting) id = specs.map fun s => (s.accountId, s.amount) := by
  have hall : (legs.map Leg.posting).filter (fun p => p.transactionId = id) =
      legs.map Leg.posting := by
    rw [List.filter_eq_self]
    simpa using Leg.Of.transactions h
  rw [legsUnder, hall]
  clear hall
  induction h with
  | nil => rfl
  | cons hof _ ih => simp [hof.account, hof.amount, ih]

/-- One call of the engine. -/
theorem block_inserts (txn : Transaction) (legs : List Leg) :
    insertedTransactions (.insTransaction txn :: legWrites legs) = [txn] ∧
      insertedPostings (.insTransaction txn :: legWrites legs) = legs.map Leg.posting :=
  ⟨congrArg (txn :: ·) (insertedTransactions_legWrites legs), insertedPostings_legWrites legs⟩

theorem closed_block (h : List.Forall₂ (Leg.Of txn.id) specs legs) :
    Closed (.insTransaction txn :: legWrites legs) := by
  obtain ⟨htransactions, hpostings⟩ := block_inserts txn legs
  unfold Closed
  rw [htransactions, hpostings]
  intro p hp
  obtain ⟨l, hl, rfl⟩ := List.mem_map.mp hp
  exact ⟨txn, by simp, (Leg.Of.transactions h l hl).symm⟩

theorem entries_block (h : List.Forall₂ (Leg.Of txn.id) specs legs) :
    entriesIn (.insTransaction txn :: legWrites legs) =
      [⟨txn.tenantId, specs.map fun s => (s.accountId, s.amount)⟩] := by
  obtain ⟨htransactions, hpostings⟩ := block_inserts txn legs
  rw [entriesIn, htransactions, hpostings, List.map_singleton, legs_carried h]

theorem closed_plain (h : insertedTransactions ws = [] ∧ insertedPostings ws = []) :
    Closed ws := by
  simp [Closed, h.2]

theorem Closed.append (h : Closed ws) (h' : Closed vs) : Closed (ws ++ vs) := by
  unfold Closed
  rw [insertedTransactions_append, insertedPostings_append]
  exact owned_append h h'

/-- One part after the other, of different transactions. -/
theorem entries_append (h : Closed ws) (h' : Closed vs) (hfresh : Fresh d (ws ++ vs)) :
    entriesIn (ws ++ vs) = entriesIn ws ++ entriesIn vs := by
  have hne := hfresh.distinct
  unfold entriesIn
  rw [insertedTransactions_append, insertedPostings_append, List.map_append]
  refine congrArg₂ (· ++ ·) (List.map_congr_left fun t ht => ?_)
    (List.map_congr_left fun t ht => ?_)
  · have hnone : legsUnder (insertedPostings vs) t.id = [] := legsUnder_eq_nil fun p hp heq => by
      obtain ⟨u, hu, hid⟩ := h' p hp
      exact hne t ht u hu (heq.symm.trans hid.symm)
    rw [legsUnder_append, hnone, List.append_nil]
  · have hnone : legsUnder (insertedPostings ws) t.id = [] := legsUnder_eq_nil fun p hp heq => by
      obtain ⟨u, hu, hid⟩ := h p hp
      exact hne u hu t ht (hid.trans heq)
    rw [legsUnder_append, hnone, List.nil_append]

/-- Rows written beside the transactions. -/
theorem entries_then (hvs : insertedTransactions vs = [] ∧ insertedPostings vs = []) :
    entriesIn (ws ++ vs) = entriesIn ws := by
  unfold entriesIn
  rw [insertedTransactions_append, insertedPostings_append, hvs.1, hvs.2, List.append_nil,
    List.append_nil]

end entries

/-! ## Journal -/

section journal

variable [Runtime] {tenant : Option String} {d : Database} {ws : List Write}

/-- The postings of a commit are those of its transactions. -/
theorem Bookkeeping.closed (h : Bookkeeping tenant d ws) : Closed ws := by
  induction h with
  | nil => exact closed_plain ⟨rfl, rfl⟩
  | @quiet d w ws hquiet _ _ ih =>
    have hplain : Closed [w] := closed_plain (inserted_plain fun v hv => by
      rw [List.mem_singleton.mp hv]
      exact hquiet.plain.2.2)
    exact hplain.append ih
  | @published d id time ws _ _ ih =>
    have hplain : Closed [.publish id time] := closed_plain ⟨rfl, rfl⟩
    exact hplain.append ih
  | @opened d ws a _ _ _ ih =>
    have hplain : Closed [.insAccount a, .insBalance ⟨a.id, a.tenantId, 0, 0, none⟩] :=
      closed_plain ⟨rfl, rfl⟩
    exact hplain.append ih
  | @emitted d t specs memo c txn legs event ws _ hpost _ _ _ ih =>
    have hplain : Closed [.insOutbox event] := closed_plain ⟨rfl, rfl⟩
    exact ((closed_block hpost.block.carried).append hplain).append ih

/-- A commit leaves the postings of the transactions that are there. -/
theorem Bookkeeping.postingsOf_old (h : Bookkeeping tenant d ws) (hfresh : Fresh d ws)
    {t : Transaction} (ht : t ∈ d.transactions.rows) :
    (replay d ws).postingsOf t.id = d.postingsOf t.id := by
  have hnone : (insertedPostings ws).filter (fun p => p.transactionId = t.id) = [] := by
    rw [List.filter_eq_nil_iff]
    intro p hp heq
    obtain ⟨u, hu, hid⟩ := h.closed p hp
    exact hfresh.unstored hu ht ((decide_eq_true_eq.mp heq).symm.trans hid.symm)
  unfold Database.postingsOf
  rw [hfresh.postings, List.filter_append, hnone, List.append_nil]

/-- A commit leaves a transaction with its postings. -/
theorem Bookkeeping.transaction_kept (h : Bookkeeping tenant d ws) (hadm : Admitted d ws)
    {id : UUID} {t : Transaction} (ht : d.transactions.find? id = some t) :
    (replay d ws).transactions.find? id = some t ∧
      (replay d ws).postingsOf id = d.postingsOf id := by
  obtain rfl : t.id = id := Table.key_of_find? ht
  exact ⟨replay_induction d ht fun d w _ hd => transaction_stays d w hd,
    h.postingsOf_old (Admitted.fresh hadm) (Table.mem_of_find? ht)⟩

/-- **The journal** grows by the entries of the commit. -/
theorem Bookkeeping.journal (h : Bookkeeping tenant d ws) (hadm : Admitted d ws)
    (hbooks : Books d) :
    (replay d ws).ledger.journal = d.ledger.journal ++ entriesIn ws := by
  have hfresh := Admitted.fresh hadm
  unfold Database.ledger entriesIn
  rw [hfresh.transactions, List.map_append]
  refine congrArg₂ (· ++ ·) (List.map_congr_left fun t ht => ?_)
    (List.map_congr_left fun t ht => ?_)
  · rw [h.postingsOf_old hfresh ht]
  · -- a posting that was there belongs to a transaction that was there
    have hnone : d.postings.rows.filter (fun p => p.transactionId = t.id) = [] := by
      rw [List.filter_eq_nil_iff]
      intro p hp heq
      obtain ⟨u, hu, hid⟩ := hbooks.attached p hp
      exact hfresh.unstored ht hu (hid.trans (decide_eq_true_eq.mp heq))
    unfold Database.postingsOf legsUnder
    rw [hfresh.postings, List.filter_append, hnone, List.nil_append]

end journal

/-! ## Requests -/

/-- The request asks for a movement of money. -/
def Request.posts : Request → Bool
  | .post .. => true
  | r => r.moves

/-- An amount from one account to another. -/
def movement (tenantId : String) (source destination : UUID) (amount : Int) :
    DoubleEntry.Entry String UUID Int :=
  ⟨tenantId, [(source, -amount), (destination, amount)]⟩

/-- A row quotes the rate of the ordered pair by the instant, or its reciprocal. -/
def Database.Quotes (d : Database) (base quote : Currency) (asOf : Time) (rate : ResolvedRate) :
    Prop :=
  ∃ id row, d.rates.find? id = some row ∧
    (quotedBy base quote asOf row = true ∧ rate = directRate row ∨
      quotedBy quote base asOf row = true ∧ inverseRate row = some rate)

/-- The entries a request asks for, by the rows of the database. -/
inductive Asked [Runtime] (d : Database) : Request → List (DoubleEntry.Entry String UUID Int) → Prop
    where
  | nothing {r} (h : r.posts = false) : Asked d r []
  | posted {tenantId specs memo} :
      Asked d (.post tenantId specs memo)
        [⟨tenantId, specs.map fun s => (s.accountId, s.amount)⟩]
  | direct {tenantId req key src dst}
      (hsrc : d.HasAccount tenantId req.sourceAccountId src)
      (hdst : d.HasAccount tenantId req.destinationAccountId dst)
      (hcur : src.currency = dst.currency) :
      Asked d (.transfer tenantId req key)
        [movement tenantId req.sourceAccountId req.destinationAccountId req.amount]
  /-- Through the conversion accounts, at a quoted rate. -/
  | routed {tenantId req key src dst srcConv dstConv asOf rate target}
      (hsrc : d.HasAccount tenantId req.sourceAccountId src)
      (hdst : d.HasAccount tenantId req.destinationAccountId dst)
      (hcur : src.currency ≠ dst.currency)
      (hsrcConv : d.HasAccount tenantId srcConv.id srcConv)
      (hsrcPath : srcConv.path = conversionPath src.currency)
      (hdstConv : d.HasAccount tenantId dstConv.id dstConv)
      (hdstPath : dstConv.path = conversionPath dst.currency)
      (hasOf : ∀ t, req.effectiveAt = some t → asOf = t)
      (hrate : d.Quotes src.currency dst.currency asOf rate)
      (hconv : convert req.amount src.currency dst.currency rate.rate = some target) :
      Asked d (.transfer tenantId req key)
        [movement tenantId req.sourceAccountId srcConv.id req.amount,
          movement tenantId dstConv.id req.destinationAccountId target]
  | captured {tenantId id req hold src dst} (hfound : d.holds.find? id = some hold)
      (htenant : hold.tenantId = tenantId) (hsrc : d.HasAccount tenantId hold.accountId src)
      (hdst : d.HasAccount tenantId req.destinationAccountId dst)
      (hcur : src.currency = dst.currency) (hwithin : captureAmount hold req ≤ hold.amount) :
      Asked d (.captureHold tenantId id req)
        [movement tenantId hold.accountId req.destinationAccountId (captureAmount hold req)]
  /-- Every leg of the original, negated. -/
  | reversed {tenantId id req key original} (hfound : d.transactions.find? id = some original)
      (htenant : original.tenantId = tenantId) (hplain : original.correctsId = none) :
      Asked d (.reverse tenantId id req key)
        [⟨tenantId, (d.selectPostings id).map fun p => (p.accountId, -p.amount)⟩]

/-! ## Runs -/

section rows

variable {ι : Type} {allow P : OfCommit ι Database Write Resource} {rs : List Resource}
  {g g' : Shared ι Database Write} {d : Database} {tenantId : String} {id : UUID} {a : Account}
  {base quote : Currency} {asOf : Time} {rate : ResolvedRate}

/-- An account found by its path. -/
theorem hasAccount_of_openAt {path : String} (h : d.openAt tenantId path = [a]) :
    d.HasAccount tenantId a.id a ∧ a.path = path := by
  have hmem : a ∈ d.openAt tenantId path := by simp [h]
  simp only [Database.openAt, List.mem_filter, Bool.and_eq_true, decide_eq_true_eq] at hmem
  exact ⟨⟨Table.find?_of_mem hmem.1, hmem.2.1.1, hmem.2.2⟩, hmem.2.1.2⟩

theorem rely_hasAccount (hr : (RG.logging allow P).rely rs g g')
    (h : g.db.HasAccount tenantId id a) : g'.db.HasAccount tenantId id a :=
  ⟨rely_write (I := fun d => d.accounts.find? id = some a) (fun d w hd => account_stays d w hd)
    hr h.1, h.2⟩

/-- The rate of two different currencies is quoted. -/
theorem quotes_of_latest {row : FxRate} (h : d.latest base quote asOf = some row) :
    ∃ id, d.rates.find? id = some row ∧ Database.quotedBy base quote asOf row = true :=
  have hnewest := newest_of_latest h
  ⟨row.id, Table.find?_of_mem hnewest.stored, hnewest.quoted⟩

/-- No write takes a rate away. -/
theorem quotes_stay (d : Database) (w : Write) (h : d.Quotes base quote asOf rate) :
    (d.apply w).Quotes base quote asOf rate := by
  obtain ⟨id, row, hrow, hquoted⟩ := h
  exact ⟨id, row, rate_stays d w hrow, hquoted⟩

/-- The rate of a conversion is quoted when it is read. -/
theorem RateRead.quotes {rg : RG ι Database Write Resource} {tx tx' : Tx Write Resource}
    (h : RateRead rg base quote asOf g tx rate g' tx') (hlog : tx.log = []) (hne : base ≠ quote) :
    g'.db.Quotes base quote asOf rate := by
  cases h with
  | identity heq => exact absurd heq hne
  | @direct row _ _ _ _ hrow =>
    rw [hlog] at hrow
    obtain ⟨id, hfind, hquoted⟩ := quotes_of_latest hrow
    exact ⟨id, row, hfind, .inl ⟨hquoted, rfl⟩⟩
  | @inverse row _ _ _ _ _ _ _ _ _ hrow hq =>
    rw [hlog] at hrow
    obtain ⟨id, hfind, hquoted⟩ := quotes_of_latest hrow
    exact ⟨id, row, hfind, .inr ⟨hquoted, hq⟩⟩

end rows

section requests

variable [Runtime] {ι : Type} {allow : OfCommit ι Database Write Resource}
  {tenants : ι → Option String} {asks : ι → Option Request} {rs : List Resource}
  {g g' : Shared ι Database Write} {tenantId : String} {id : UUID}

/-- A session counts on the others to keep the books, and adds what its own
    request has asked for. -/
abbrev asking (allow : OfCommit ι Database Write Resource) (tenants : ι → Option String)
    (asks : ι → Option Request) : RG ι Database Write Resource :=
  .promising allow (fun i tx g => Bookkeeping (tenants i) g.db tx.log ∧ Admitted g.db tx.log)
    fun i tx g => ∀ r ∈ asks i, Asked g.db r (entriesIn tx.log)

/-- The postings of a transaction that is there do not change. -/
theorem rely_postingsOf {t : Transaction} (hr : (bookkeeping allow tenants).rely rs g g')
    (ht : g.db.transactions.find? id = some t) :
    g'.db.postingsOf id = g.db.postingsOf id := by
  obtain ⟨cs, hlogged, -⟩ := hr
  have hkept : g'.db.transactions.find? id = some t ∧
      g'.db.postingsOf id = g.db.postingsOf id := by
    refine hlogged.invariant (I := fun d => d.transactions.find? id = some t ∧
      d.postingsOf id = g.db.postingsOf id) ⟨ht, rfl⟩ fun i tx g hP hI => ?_
    obtain ⟨hfind, hpostings⟩ := hP.1.transaction_kept hP.2 hI.1
    exact ⟨hfind, hpostings.trans hI.2⟩
  exact hkept.2

/-- One call of the engine with two legs. -/
theorem entries_pair {rg : RG ι Database Write Resource} {source destination : UUID}
    {amount : Minor} {effectiveAt : Time} {memo : String} {c : Option UUID} {pend : List Write}
    {txn : Transaction} {legs : List Leg} {event : OutboxEvent} {tx tx' : Tx Write Resource}
    (h : Posted rg tenantId (pair source destination amount effectiveAt) memo c pend txn legs event
      g tx g' tx') :
    entriesIn (.insTransaction txn :: legWrites legs) =
      [movement tenantId source destination amount] := by
  rw [entries_block h.carried, h.tenant]
  rfl

/-- **The movement of a transfer** is the one it asks for. -/
theorem Moved.asked {src dst : Account} {req : TransferRequest} {key : String} {effectiveAt : Time}
    {o o' : OrmSession} {gC : Shared ι Database Write} {tx tx' : Tx Write Resource}
    {ws : List Write} {event : OutboxEvent}
    (h : Moved (asking allow tenants asks) tenantId src dst req effectiveAt o g tx ws id event o'
      g' tx')
    (hlog : tx.log = []) (hsrc : g.db.HasAccount tenantId req.sourceAccountId src)
    (hdst : g.db.HasAccount tenantId req.destinationAccountId dst)
    (hasOf : ∀ t, req.effectiveAt = some t → effectiveAt = t)
    (hr : (bookkeeping allow tenants).rely [] g' gC) (hfresh : Fresh gC.db ws) :
    Asked gC.db (.transfer tenantId req key) (entriesIn ws) := by
  have hall := RG.rely_trans _ (RG.rely_mono _ (List.nil_subset _) h.progress.counted.rely) hr
  have hsrcC := rely_hasAccount hall hsrc
  have hdstC := rely_hasAccount hall hdst
  cases h with
  | direct hcur hpost =>
    rw [entries_pair hpost]
    exact .direct hsrcC hdstC hcur
  | @routed rate target srcConv dstConv debit credit legs₁ legs₂ event₁ _ g₁ tx₁ g₂ tx₂ g₃ tx₃ g₄
      tx₄ _ _ hcur hrate hconv h₂ hsrcConv h₃ hdstConv hdebit hcredit =>
    rw [hlog, replay_nil] at hsrcConv hdstConv
    -- from the reading of the destination's conversion account to the commit
    have hrely₃ := RG.rely_trans _
      (RG.rely_mono _ (List.nil_subset _) (hdebit.progress.trans hcredit.progress).counted.rely) hr
    have hrely₂ := RG.rely_trans _ (RG.rely_mono _ (List.nil_subset _) h₃.counted.rely) hrely₃
    have hrely₁ := RG.rely_trans _ (RG.rely_mono _ (List.nil_subset _) h₂.counted.rely) hrely₂
    obtain ⟨hsrcOpen, hsrcPath⟩ := hasAccount_of_openAt hsrcConv
    obtain ⟨hdstOpen, hdstPath⟩ := hasAccount_of_openAt hdstConv
    have hevent : insertedTransactions [.insOutbox event₁] = [] ∧
        insertedPostings [.insOutbox event₁] = [] := ⟨rfl, rfl⟩
    have hws : .insTransaction debit :: legWrites legs₁ ++
        .insOutbox event₁ :: .insTransaction credit :: legWrites legs₂ =
        .insTransaction debit :: legWrites legs₁ ++ [.insOutbox event₁] ++
          .insTransaction credit :: legWrites legs₂ := by simp
    rw [hws] at hfresh ⊢
    have hdebits := (closed_block hdebit.carried).append (closed_plain hevent)
    have hsrcId : src.id = req.sourceAccountId := Table.key_of_find? hsrc.1
    have hdstId : dst.id = req.destinationAccountId := Table.key_of_find? hdst.1
    rw [entries_append hdebits (closed_block hcredit.carried) hfresh, entries_then hevent,
      entries_pair hdebit, entries_pair hcredit, hsrcId, hdstId]
    have hquotes := rely_write quotes_stay hrely₁ (hrate.quotes hlog hcur)
    exact .routed hsrcC hdstC hcur (rely_hasAccount hrely₂ hsrcOpen) hsrcPath
      (rely_hasAccount hrely₃ hdstOpen) hdstPath hasOf hquotes hconv

variable {key : String} {g₀ : Shared ι Database Write}

theorem TransferRun.asked {req : TransferRequest}
    (run : TransferRun (asking allow tenants asks) tenantId req key g₀) :
    Asked run.g.db (.transfer tenantId req key) (entriesIn run.tx.log) := by
  have hadm := run.whole.counted.admitted_at_commit stable
  have hchecked := (run.readDst.trans run.funds.progress).trans run.stamp
  have hrest := ((run.readSrcAfter.trans run.readDstAfter).trans run.stamped).trans run.finish
  rw [run.log, entries_then ⟨rfl, rfl⟩]
  refine run.moved.asked run.txM_log (rely_hasAccount hchecked.counted.rely run.src_eq)
    (rely_hasAccount (run.funds.progress.trans run.stamp).counted.rely run.dst_eq)
    (fun t ht => ?_) (RG.rely_mono _ (List.nil_subset _) hrest.counted.rely)
    (Admitted.fresh hadm.left)
  rw [run.effective, ht]
  rfl

theorem CaptureRun.asked {req : CaptureHoldRequest}
    (run : CaptureRun (asking allow tenants asks) tenantId id req g₀) :
    Asked run.g.db (.captureHold tenantId id req) (entriesIn run.tx.log) := by
  have hrest := run.prelude.trans run.tail
  have hsrc := ((run.readDst.trans run.lock).trans run.readBefore.progress).trans run.stamp
  have hdst := (run.lock.trans run.readBefore.progress).trans run.stamp
  -- the hold may be resolved meanwhile, but not changed
  have hthere : run.g.db.ReportsHold tenantId (responseWith run.hold none) :=
    rely_write hold_stays hrest.counted.rely
      (reportsHold_of_find run.found run.hold_tenant none)
  obtain ⟨hold, hfound, htenant, haccount, hamount, -⟩ := hthere
  have hcapture : captureAmount run.hold req = captureAmount hold req := by
    rw [captureAmount, captureAmount, hamount]
    rfl
  have haccount' : run.hold.accountId = hold.accountId := haccount.symm
  have hid : (responseWith run.hold none).id = id := run.hold_id
  rw [hid] at hfound
  rw [run.log, CaptureRun.ws, entries_then ⟨rfl, rfl⟩, entries_pair run.posted, hcapture,
    haccount']
  refine .captured hfound htenant ?_
    (rely_hasAccount (hdst.trans run.tail).counted.rely run.dst_eq) run.currency ?_
  · rw [← haccount']
    exact rely_hasAccount (hsrc.trans run.tail).counted.rely run.src_eq
  · rw [← hcapture, hamount]
    exact run.within

theorem ReverseRun.asked {req : ReverseTransactionRequest}
    (run : ReverseRun (asking allow tenants asks) tenantId id req key g₀) :
    Asked run.g.db (.reverse tenantId id req key) (entriesIn run.tx.log) := by
  have hread := run.readExisting.trans run.readPostings
  have hrest := run.stamp.trans run.tail
  have hfoundQ : run.gQ.db.transactions.find? id = some run.original :=
    rely_write (fun d w hd => transaction_stays d w hd) hread.counted.rely run.found
  have hfound : run.g.db.transactions.find? id = some run.original :=
    rely_write (fun d w hd => transaction_stays d w hd) hrest.counted.rely hfoundQ
  -- the legs that were read are those at the commit
  have hpostings : run.postings = run.g.db.selectPostings id := by
    rw [Database.selectPostings, rely_postingsOf hrest.counted.rely hfoundQ, ← run.postings_eq]
    rfl
  rw [run.log, ReverseRun.ws, entries_then ⟨rfl, rfl⟩, entries_block run.posted.carried,
    run.posted.tenant, reversed, hpostings, List.map_map]
  exact .reversed hfound run.original_tenant run.original_plain

/-- **Every commit** adds the entries its request asks for, whatever the
    others do. -/
theorem keeps_asked (me : ι) (r : Request) (hasks : asks me = some r) :
    Keeps (asking allow tenants asks) me r g₀ := by
  have hcommit : ∀ {g' : Shared ι Database Write} {tx'}, Asked g'.db r (entriesIn tx'.log) →
      (asking allow tenants asks).guar me tx' g' (g'.commit me tx') := by
    intro g' tx' h r' hr'
    rw [Option.mem_def, hasks] at hr'
    exact Option.some.inj hr' ▸ h
  have hnothing : ∀ {ws g' tx'}, Progress (asking allow tenants asks) ws g₀ {} g' tx' →
      r.posts = false → (∀ w ∈ ws, w.table ≠ .transactions ∧ w.table ≠ .postings) →
        (asking allow tenants asks).guar me tx' g' (g'.commit me tx') := by
    intro ws g' tx' hp hposts hws
    have hlog : tx'.log = ws := by simpa using hp.log
    obtain ⟨htransactions, -⟩ := inserted_plain hws
    refine hcommit ?_
    rw [hlog, entriesIn, htransactions]
    exact .nothing hposts
  unfold Keeps
  cases r with
  | openAccount tenantId req =>
    rw [Request.service, swp_map]
    exact swp_openAccount (mayRaise_trivial _ _) fun a g' tx' ha hp _ =>
      ⟨hnothing hp rfl (by simp [Write.table]), fun _ _ => trivial⟩
  | post tenantId specs memo =>
    rw [Request.service, swp_map]
    refine swp_postAndCommit (mayRaise_trivial _ _) fun txn legs event g₁ tx₁ g' tx' posted hp _ =>
      ⟨hcommit ?_, fun _ => trivial⟩
    have hlog : tx'.log = .insTransaction txn :: legWrites legs ++ [.insOutbox event] := by
      simpa using (posted.progress.trans hp).log
    rw [hlog, entries_then ⟨rfl, rfl⟩, entries_block posted.carried, posted.tenant]
    exact .posted
  | transfer tenantId req key =>
    rw [Request.service, swp_map]
    exact swp_executeTransfer (mayRaise_trivial _ _) (fun _ _ _ _ _ _ _ _ _ => trivial)
      fun run _ => ⟨hcommit run.asked, trivial⟩
  | placeHold tenantId req key =>
    rw [Request.service, swp_map]
    exact swp_placeHold (mayRaise_trivial _ _) (fun _ _ _ _ _ _ _ _ _ => trivial)
      fun run _ => ⟨hnothing run.whole rfl (by simp [Write.table]), trivial⟩
  | captureHold tenantId id req =>
    rw [Request.service, swp_map]
    exact swp_captureHold (mayRaise_trivial _ _) (fun _ _ _ _ _ _ _ _ _ _ _ _ => trivial)
      fun run _ => ⟨hcommit run.asked, trivial⟩
  | releaseHold tenantId id =>
    rw [Request.service, swp_map]
    exact swp_releaseHold (mayRaise_trivial _ _) (fun _ _ _ _ _ _ _ _ _ _ _ _ => trivial)
      fun run _ => ⟨hnothing run.whole rfl (by simp [Write.table]),
        fun _ _ _ _ _ => trivial⟩
  | reverse tenantId id req key =>
    rw [Request.service, swp_map]
    exact swp_reverseTransaction (mayRaise_trivial _ _) (fun _ _ _ _ _ _ _ _ _ => trivial)
      fun run _ => ⟨hcommit run.asked, fun _ => trivial⟩
  | upsertRate tenantId req =>
    rw [Request.service, swp_map]
    exact swp_upsertRate (mayRaise_trivial _ _) fun row g' tx' _ hp _ =>
      ⟨hnothing hp rfl (by simp [Write.table]), fun _ => trivial⟩
  | dispatch tenantId limit =>
    rw [Request.service, swp_map]
    exact swp_dispatchPending (mayRaise_trivial _ _) (fun _ _ _ _ => trivial)
      fun g₁ tx₁ time g' tx' hp _ hp' _ =>
        ⟨hnothing (hp.trans hp') rfl (by simp [Write.table]), fun _ => trivial⟩
  | importStatement tenantId account raw lines =>
    rw [Request.service, swp_map]
    exact swp_importStatement (mayRaise_trivial _ _) (fun _ _ _ _ _ _ _ => trivial)
      fun run _ => ⟨hnothing run.whole rfl (by simp [Write.table]), fun _ => trivial⟩
  | sweep minAge =>
    rw [Request.service, swp_map]
    exact swp_sweepOnce (mayRaise_trivial _ _) fun run _ =>
      ⟨hnothing run.whole rfl (by simp [Write.table]), fun _ _ => trivial⟩

end requests

/-! ## Results -/

section results

variable {ι : Type} [DecidableEq ι] {d : Database}

/-- **Every commit** in the commit log of verified sessions. -/
theorem Verified.asked [Runtime] {α : Type} {tenants : ι → Option String}
    {asks : ι → Option Request} {s₀ s : Sys ι Database Write Resource Err α}
    (hv : Verified (bookkeeping Sys.all tenants) s₀)
    (hasking : Verified (asking Sys.all tenants asks) s₀) (hwal : s₀.shared.wal = [])
    (h : Books s₀.shared.db) (hr : Sys.Reachable Sys.all s₀ s) {es es' : List (Entry ι Write)}
    {e : Entry ι Write} (heq : s.shared.wal = es ++ e :: es') {r : Request}
    (hasks : asks e.who = some r) :
    ∃ entries, Asked (afterCommits s₀.shared.db es) r entries ∧
      (afterCommits s₀.shared.db (es ++ [e])).ledger.journal =
        (afterCommits s₀.shared.db es).ledger.journal ++ entries := by
  obtain ⟨-, hcommits⟩ := commits_of_reachable (hv.promising hasking) hwal h
    (fun _ _ _ hP hb => hP.1.1.books hb) hr
  obtain ⟨hbooks, tx, g, hlog, hg, ⟨hkept, hadm⟩, hasked⟩ := hcommits es e es' heq
  rw [hlog, hg] at hkept hadm hasked
  refine ⟨_, hasked r hasks, ?_⟩
  rw [afterCommits_append, afterCommits_cons, afterCommits_nil]
  exact hkept.journal hadm hbooks

variable {requests : ι → Request} {clock : Time} {s : Sys ι Database Write Resource Err Reply}

omit [DecidableEq ι] in
/-- The requests move what they ask for. -/
theorem verified_asking [Runtime] :
    Verified (asking Sys.all (fun i => (requests i).tenant) fun i => requests i)
      (serve requests d clock) :=
  .initial ⟨rfl, fun _ => rfl⟩ fun i =>
    wp_program (P := fun _ _ _ => True) (keeps_asked i (requests i) rfl)

/-- **Provenance**: in any interleaving, each commit extends the journal by the
    entries its own request asks for, by the rows of the database it is
    published to. -/
theorem asked_of_reachable [Runtime] (h : Books d) (hproper : ∀ i, (requests i).Proper d)
    (hr : Sys.Reachable Sys.all (serve requests d clock) s) :
    ∀ es e es', s.shared.wal = es ++ e :: es' → ∃ entries,
      Asked (afterCommits d es) (requests e.who) entries ∧
        (afterCommits d (es ++ [e])).ledger.journal =
          (afterCommits d es).ledger.journal ++ entries := by
  intro es e es' heq
  exact Verified.asked (verified_bookkeeping h hproper) verified_asking rfl h hr heq rfl

open Sample

/-- The first of the three commits is the reversal, which negates what funded
    the payment. -/
theorem asked_of_reachable_crossing : ∃ s e es',
    Sys.Reachable Sys.all (serve crossing funded 0) s ∧ s.shared.wal = e :: es' ∧ e.who = 1 ∧
      (afterCommits funded [e]).ledger.journal = funded.ledger.journal ++
        [⟨"acme", (funded.postingsOf funding).map fun p => (p.accountId, -p.amount)⟩] := by
  obtain ⟨s, hr, hwho⟩ := crossing_run
  obtain ⟨e, es', hwal, he, -⟩ := List.map_eq_cons_iff.mp hwho
  obtain ⟨entries, hasked, hjournal⟩ :=
    asked_of_reachable books_funded crossing_proper hr [] e es' hwal
  refine ⟨s, e, es', hr, hwal, he, ?_⟩
  rw [he] at hasked
  -- a reversal asks for nothing else
  cases hasked with
  | nothing h => cases h
  | reversed _ _ _ => exact hjournal

end results

end Ledger
