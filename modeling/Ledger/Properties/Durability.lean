import Ledger.Properties.CleanFailures
import Ledger.Properties.Interleavings
import Ledger.Properties.StatementImports
import Ledger.Runs.Replays

/-! # What Is Acknowledged Is Committed

    A request that returned has told its caller of rows: an account, a
    transaction, a hold.  They are in the committed database, and stay there,
    whatever the other sessions do, also when the answer is the replay of an
    earlier one.

    * **Replies**: `Reply.Recorded`, the rows a reply reports are there; no
      write takes them away.
    * **Backing**: `Backed`, what the idempotency store answers is recorded,
      and a captured hold has its transaction.
    * **Requests**: `swp_recorded`, every request returns what is recorded.
    * **Result**: `recorded_of_reachable`, and `backed_of_reachable` for the
      state that the requests start from.
-/

namespace Ledger

open ReadCommitted

/-! ## Replies -/

/-- The hold is as the response reports it; once resolved it is not active again. -/
def Database.ReportsHold (d : Database) (tenantId : String) (r : HoldResponse) : Prop :=
  ∃ h, d.holds.find? r.id = some h ∧ h.tenantId = tenantId ∧ h.accountId = r.accountId ∧
    h.amount = r.amount ∧ h.expiresAt = r.expiresAt ∧ (r.state ≠ .ACTIVE → h.state ≠ .ACTIVE)

/-- The tenant has the transaction. -/
def Database.HasTransaction (d : Database) (tenantId : String) (id : UUID) : Prop :=
  ∃ t, d.transactions.find? id = some t ∧ t.tenantId = tenantId

/-- The hold is there, and so is the transaction that is reported to have
    captured it.  It need not be the one the hold names: two captures of one
    hold may both be answered. -/
def Database.AnswersHold (d : Database) (tenantId : String) (r : HoldResponse) : Prop :=
  d.ReportsHold tenantId r ∧
    ∀ id, r.capturedTransactionId = some id → d.HasTransaction tenantId id

/-- The rows that a reply to the tenant reports are there. -/
def Reply.Recorded (tenantId : String) (d : Database) : Reply → Prop
  | .account r => ∃ a, d.accounts.find? r.id = some a ∧ a.tenantId = tenantId ∧
      a.path = r.path ∧ a.name = r.name ∧ a.normalBalance = r.normalBalance ∧
      a.currency = r.currency
  | .posted txn => d.transactions.find? txn.id = some txn ∧ txn.tenantId = tenantId
  | .transfer _ r => d.HasTransaction tenantId r.transactionId
  | .placed _ r => d.AnswersHold tenantId r
  | .hold r => d.AnswersHold tenantId r
  | .reversal _ r => ∃ t, d.transactions.find? r.id = some t ∧ t.tenantId = tenantId ∧
      t.correctsId = some r.correctsId ∧ t.memo = r.memo ∧ t.createdAt = r.createdAt
  | .rate id => ∃ r, d.rates.find? id = some r ∧ r.tenantId = tenantId
  | .dispatched es => ∀ e ∈ es, ∃ e', d.outbox.find? e.id = some e' ∧ e'.tenantId = tenantId ∧
      e'.status = .PUBLISHED
  | .imported r => (∃ i, d.imports.find? r.importId = some i ∧ i.tenantId = tenantId) ∧
      r.lineCount ≤ (d.linesOf r.importId).length
  | .swept _ => True

section rows

variable {d : Database} {ws : List Write} {tenantId : String} {id : UUID}

/-! No write takes a row away, or changes one that is not a hold or an event. -/

theorem account_stays {a : Account} (d : Database) (w : Write)
    (h : d.accounts.find? id = some a) : (d.apply w).accounts.find? id = some a := by
  cases w with
  | insAccount r => exact Table.find?_insert_of_some h
  | _ => exact h

theorem transaction_stays {t : Transaction} (d : Database) (w : Write)
    (h : d.transactions.find? id = some t) : (d.apply w).transactions.find? id = some t := by
  cases w with
  | insTransaction r => exact Table.find?_insert_of_some h
  | _ => exact h

theorem rate_stays {r : FxRate} (d : Database) (w : Write) (h : d.rates.find? id = some r) :
    (d.apply w).rates.find? id = some r := by
  cases w with
  | insRate r => exact Table.find?_insert_of_some h
  | _ => exact h

theorem import_stays {i : StatementImport} (d : Database) (w : Write)
    (h : d.imports.find? id = some i) : (d.apply w).imports.find? id = some i := by
  cases w with
  | insImport r => exact Table.find?_insert_of_some h
  | _ => exact h

theorem hasTransaction_stays (d : Database) (w : Write) (h : d.HasTransaction tenantId id) :
    (d.apply w).HasTransaction tenantId id := by
  obtain ⟨t, ht, htenant⟩ := h
  exact ⟨t, transaction_stays d w ht, htenant⟩

theorem lines_grow (d : Database) (w : Write) (importId : UUID) :
    d.linesOf importId <+: (d.apply w).linesOf importId := by
  cases w with
  | insLine r => exact (Table.rows_insert_grow d.lines r).filter _
  | _ => exact List.prefix_refl _

/-- A hold is only ever resolved. -/
theorem hold_stays {r : HoldResponse} (d : Database) (w : Write) (h : d.ReportsHold tenantId r) :
    (d.apply w).ReportsHold tenantId r := by
  obtain ⟨x, hx, htenant, haccount, hamount, hexpires, hstate⟩ := h
  cases w with
  | insHold y =>
    exact ⟨x, Table.find?_insert_of_some hx, htenant, haccount, hamount, hexpires, hstate⟩
  | captureHold id txn amount time =>
    refine ⟨if r.id = id then x.capture txn amount time else x, ?_, ?_⟩
    · exact (Table.find?_modify _ _ _ _ (Hold.key_capture txn amount time)).trans (by rw [hx]; rfl)
    · split
      · exact ⟨htenant, haccount, hamount, hexpires, fun _ => by simp [Hold.capture]⟩
      · exact ⟨htenant, haccount, hamount, hexpires, hstate⟩
  | releaseHold id time =>
    refine ⟨if r.id = id then x.release time else x, ?_, ?_⟩
    · exact (Table.find?_modify _ _ _ _ (Hold.key_release time)).trans (by rw [hx]; rfl)
    · split
      · exact ⟨htenant, haccount, hamount, hexpires, fun _ => by simp [Hold.release]⟩
      · exact ⟨htenant, haccount, hamount, hexpires, hstate⟩
  | _ => exact ⟨x, hx, htenant, haccount, hamount, hexpires, hstate⟩

theorem answersHold_stays {r : HoldResponse} (d : Database) (w : Write)
    (h : d.AnswersHold tenantId r) : (d.apply w).AnswersHold tenantId r :=
  ⟨hold_stays d w h.1, fun id hid => hasTransaction_stays d w (h.2 id hid)⟩

/-- The response about a hold that was found. -/
theorem reportsHold_of_find {x : Hold} (hx : d.holds.find? id = some x)
    (htenant : x.tenantId = tenantId) (b : Option Balance) :
    d.ReportsHold tenantId (responseWith x b) := by
  obtain rfl : x.id = id := Table.key_of_find? hx
  cases b <;> exact ⟨x, hx, htenant, rfl, rfl, rfl, fun h => h⟩

/-- The response about a hold that was there when it was captured, -/
theorem Database.ReportsHold.captured {x : Hold} {txn : UUID} {amount : Int} {time : Time}
    (h : d.ReportsHold tenantId (responseWith x none)) (b : Option Balance) :
    (d.apply (.captureHold x.id txn amount time)).ReportsHold tenantId
      (responseWith (x.capture txn amount time) b) := by
  obtain ⟨y, hy, htenant, haccount, hamount, hexpires, -⟩ := h
  have hfind : (d.apply (.captureHold x.id txn amount time)).holds.find? x.id =
      some (y.capture txn amount time) :=
    (Table.find?_modify_self _ _ _ (Hold.key_capture txn amount time)).trans
      (congrArg (Option.map _) hy)
  cases b <;>
    exact ⟨_, hfind, htenant, haccount, hamount, hexpires, fun _ => by simp [Hold.capture]⟩

/-- and when it was released. -/
theorem Database.ReportsHold.released {x : Hold} {time : Time}
    (h : d.ReportsHold tenantId (responseWith x none)) (b : Option Balance) :
    (d.apply (.releaseHold x.id time)).ReportsHold tenantId
      (responseWith (x.release time) b) := by
  obtain ⟨y, hy, htenant, haccount, hamount, hexpires, -⟩ := h
  have hfind : (d.apply (.releaseHold x.id time)).holds.find? x.id = some (y.release time) :=
    (Table.find?_modify_self _ _ _ (Hold.key_release time)).trans (congrArg (Option.map _) hy)
  cases b <;>
    exact ⟨_, hfind, htenant, haccount, hamount, hexpires, fun _ => by simp [Hold.release]⟩

/-- **What is recorded** stays recorded. -/
theorem Reply.Recorded.apply {reply : Reply} (d : Database) (w : Write)
    (h : reply.Recorded tenantId d) : reply.Recorded tenantId (d.apply w) := by
  cases reply with
  | account r =>
    obtain ⟨a, ha, hrow⟩ := h
    exact ⟨a, account_stays d w ha, hrow⟩
  | posted txn => exact ⟨transaction_stays d w h.1, h.2⟩
  | transfer status r => exact hasTransaction_stays d w h
  | placed status r => exact answersHold_stays d w h
  | hold r => exact answersHold_stays d w h
  | reversal status r =>
    obtain ⟨t, ht, hrow⟩ := h
    exact ⟨t, transaction_stays d w ht, hrow⟩
  | rate id =>
    obtain ⟨r, hr, htenant⟩ := h
    exact ⟨r, rate_stays d w hr, htenant⟩
  | dispatched es =>
    intro e he
    obtain ⟨e', he', htenant, hstatus⟩ := h e he
    obtain ⟨e'', he'', hlater, -⟩ := outbox_kept [w] he'
    exact ⟨e'', he'', hlater.tenant.trans htenant, hlater.status hstatus⟩
  | imported r =>
    obtain ⟨⟨i, hi, htenant⟩, hlines⟩ := h
    exact ⟨⟨i, import_stays d w hi, htenant⟩, hlines.trans (lines_grow d w r.importId).length_le⟩
  | swept r => trivial

theorem Reply.Recorded.replay {reply : Reply} (ws : List Write)
    (h : reply.Recorded tenantId d) : reply.Recorded tenantId (replay d ws) :=
  replay_induction (P := fun d => reply.Recorded tenantId d) d h fun d w _ hd =>
    Reply.Recorded.apply d w hd

/-- A transaction that was inserted is there. -/
theorem transaction_inserted {txn : Transaction} (hadm : Admitted d ws)
    (hw : .insTransaction txn ∈ ws) : (replay d ws).transactions.find? txn.id = some txn :=
  hadm.establishes (I := fun d => d.transactions.find? txn.id = some txn) (J := fun _ => True) hw
    (fun d w h => transaction_stays d w h) (fun _ _ h => h) trivial
    fun _ _ hok => Table.find?_insert_self (r := txn) (Database.fresh_transaction hok)

/-- Lines that are let through are all new. -/
theorem rows_insert_lines {rows : List StatementLine} (hadm : Admitted d (rows.map .insLine)) :
    (replay d (rows.map .insLine)).lines.rows = d.lines.rows ++ rows := by
  induction rows generalizing d with
  | nil => simp
  | cons r rows ih =>
    rw [List.map_cons] at hadm ⊢
    have hfirst : (d.apply (.insLine r)).lines.rows = d.lines.rows ++ [r] :=
      Table.insert_of_fresh (Database.fresh_line hadm.head)
    rw [replay_cons, ih hadm.tail, Database.dbms_apply, hfirst, List.append_assoc]
    rfl

/-- Lines that were inserted are there. -/
theorem lines_inserted {importId : UUID} {rows : List StatementLine}
    (hadm : Admitted d (rows.map .insLine)) (hrows : ∀ r ∈ rows, r.importId = importId) :
    rows.length ≤ ((replay d (rows.map .insLine)).linesOf importId).length := by
  have hkept : rows.filter (fun l => l.importId = importId) = rows := by simpa using hrows
  rw [Database.linesOf, rows_insert_lines hadm, List.filter_append, hkept, List.length_append]
  omega

/-- A captured hold was captured before, or by one of the writes. -/
theorem captured_replay {x : Hold} (hx : x ∈ (replay d ws).holds.rows)
    (hcaptured : x.capturedTransactionId = some id) :
    (∃ y ∈ d.holds.rows, y.tenantId = x.tenantId ∧ y.capturedTransactionId = some id) ∨
      (∃ y, .insHold y ∈ ws ∧ y.capturedTransactionId = some id) ∨
        ∃ amount time, .captureHold x.id id amount time ∈ ws := by
  revert x
  refine replay_induction (P := fun d' => ∀ {x : Hold}, x ∈ d'.holds.rows →
    x.capturedTransactionId = some id →
    (∃ y ∈ d.holds.rows, y.tenantId = x.tenantId ∧ y.capturedTransactionId = some id) ∨
      (∃ y, .insHold y ∈ ws ∧ y.capturedTransactionId = some id) ∨
        ∃ amount time, .captureHold x.id id amount time ∈ ws) d
    (fun hx hc => .inl ⟨_, hx, rfl, hc⟩) fun d' w hw ih => ?_
  cases w with
  | insHold y =>
    intro x hx hc
    rcases Table.mem_insert.mp hx with hx | ⟨rfl, -⟩
    · exact ih hx hc
    · exact .inr (.inl ⟨x, hw, hc⟩)
  | captureHold k txn amount time =>
    intro x hx hc
    obtain ⟨y, hy, rfl⟩ := List.mem_map.mp hx
    by_cases hk : Keyed.key y = k
    · rw [if_pos hk] at hc ⊢
      cases hc
      cases hk
      exact .inr (.inr ⟨amount, time, hw⟩)
    · rw [if_neg hk] at hc ⊢
      exact ih hy hc
  | releaseHold k time =>
    intro x hx hc
    obtain ⟨y, hy, rfl⟩ := List.mem_map.mp hx
    by_cases hk : Keyed.key y = k
    · rw [if_pos hk] at hc ⊢
      exact ih (x := y) hy hc
    · rw [if_neg hk] at hc ⊢
      exact ih hy hc
  | _ => exact ih

end rows

/-! ## Backing -/

section records

variable [Runtime] {d : Database} {ws : List Write} {stored : IdempotencyRecord}

/-- What a record answers a request with its key is recorded. -/
def Backs (d : Database) (stored : IdempotencyRecord) : Prop :=
  ∀ (r : Request) body p reply, r.keyed = some (stored.id, body) →
    replayOf stored.id.key body stored = .ok p → r.answer p = some reply →
      reply.Recorded stored.id.tenantId d

/-- Every record is backed by rows, and every captured hold by a transaction. -/
structure Backed (d : Database) : Prop where
  records : ∀ stored ∈ d.records.rows, Backs d stored
  holds : ∀ x ∈ d.holds.rows, ∀ id, x.capturedTransactionId = some id →
    d.HasTransaction x.tenantId id

/-- A request that is answered by a record is told what is recorded. -/
theorem Backed.answered {r : Request} {k : RecordKey} {body : Json} {p : Replay} {reply : Reply}
    (h : Backed d) (hkeyed : r.keyed = some (k, body)) (hfind : d.records.find? k = some stored)
    (hp : replayOf k.key body stored = .ok p) (hreply : r.answer p = some reply) :
    reply.Recorded k.tenantId d := by
  obtain rfl : stored.id = k := Table.key_of_find? hfind
  exact h.records stored (Table.mem_of_find? hfind) r body p reply hkeyed hp hreply

/-- What is answered about a hold that was found is recorded. -/
theorem Backed.answersHold {x : Hold} {tenantId : String} {id : UUID} (h : Backed d)
    (hx : d.holds.find? id = some x) (htenant : x.tenantId = tenantId) (b : Option Balance) :
    d.AnswersHold tenantId (responseWith x b) := by
  refine ⟨reportsHold_of_find hx htenant b, fun txn htxn => ?_⟩
  have hcaptured : x.capturedTransactionId = some txn := by
    cases b <;> exact htxn
  exact htenant ▸ h.holds x (Table.mem_of_find? hx) txn hcaptured

theorem Backs.replay (ws : List Write) (h : Backs d stored) : Backs (replay d ws) stored :=
  fun r body p reply hkeyed hp hreply => (h r body p reply hkeyed hp hreply).replay ws

/-- The record of an executed request answers with the reply. -/
theorem Backs.of_stores (htimes : Runtime.TimesRoundTrip) {r : Request} {reply : Reply}
    (hstores : r.Stores reply stored) (hrecorded : reply.Recorded stored.id.tenantId d) :
    Backs d stored := by
  intro r' body' p reply' hkeyed hp hreply
  obtain ⟨response, hloads, hanswer⟩ := hstores.answer htimes hkeyed
  unfold replayOf at hp
  split at hp
  · cases hp
  · rw [hloads] at hp
    cases hp
    rw [hanswer] at hreply
    cases hreply
    exact hrecorded

/-- What a write adds is backed by the rows that its commit leaves. -/
def Write.Backed (d : Database) : Write → Prop
  | .insRecord r => Backs d r
  | .insHold x => x.capturedTransactionId = none
  | .captureHold id txn _ _ => ∀ x, d.holds.find? id = some x → d.HasTransaction x.tenantId txn
  | _ => True

/-- Only a record and a hold need backing. -/
theorem Write.backed_of_table {w : Write} (hrecords : w.table ≠ .records)
    (hholds : w.table ≠ .holds) : w.Backed d := by
  cases w with
  | insRecord r => exact absurd rfl hrecords
  | insHold x => exact absurd rfl hholds
  | captureHold id txn amount time => exact absurd rfl hholds
  | _ => trivial

theorem Write.backed_of_emission {txn : Transaction} {legs : List Leg} {event : OutboxEvent}
    {w : Write} (hw : w ∈ emission txn legs event) : w.Backed d := by
  rcases table_emission hw with h | h | h | h <;>
    exact backed_of_table (by simp [h]) (by simp [h])

/-- A commit that backs what it adds keeps the rest backed. -/
theorem Backed.replay (h : Backed d) (hnew : ∀ w ∈ ws, w.Backed (ReadCommitted.replay d ws)) :
    Backed (ReadCommitted.replay d ws) where
  records stored hmem := by
    rcases mem_records_replay hmem with hold | hw
    · exact (h.records stored hold).replay ws
    · exact hnew _ hw
  holds x hx id hid := by
    rcases captured_replay hx hid with ⟨y, hy, htenant, hcaptured⟩ | ⟨y, hw, hcaptured⟩ |
      ⟨amount, time, hw⟩
    · rw [← htenant]
      exact replay_induction (P := fun d => d.HasTransaction y.tenantId id) d
        (h.holds y hy id hcaptured) fun d w _ hd => hasTransaction_stays d w hd
    · have hnone : y.capturedTransactionId = none := hnew _ hw
      rw [hnone] at hcaptured
      cases hcaptured
    · exact hnew _ hw x (Table.find?_of_mem hx)

variable {ι : Type}

/-- Each commit backs what it adds. -/
def Backing : OfCommit ι Database Write Resource :=
  fun _ tx g => ∀ w ∈ tx.log, w.Backed (ReadCommitted.replay g.db tx.log)

/-- The others commit what is backed. -/
abbrev recording (allow : OfCommit ι Database Write Resource) : RG ι Database Write Resource :=
  .logging allow Backing

theorem rely_backed {allow : OfCommit ι Database Write Resource} {rs : List Resource}
    {g g' : Shared ι Database Write} (hr : (recording allow).rely rs g g') (h : Backed g.db) :
    Backed g'.db := by
  obtain ⟨cs, hlogged, -⟩ := hr
  exact hlogged.invariant h fun _ _ _ hnew hd => hd.replay hnew

theorem rely_recorded {allow : OfCommit ι Database Write Resource} {rs : List Resource}
    {g g' : Shared ι Database Write} {tenantId : String} {reply : Reply}
    (hr : (recording allow).rely rs g g') (h : reply.Recorded tenantId g.db) :
    reply.Recorded tenantId g'.db :=
  rely_write (I := fun d => reply.Recorded tenantId d) Reply.Recorded.apply hr h

end records

/-! ## Requests -/

section requests

variable [Runtime] {ι : Type} {allow : OfCommit ι Database Write Resource} {me : ι}
  {g₀ : Shared ι Database Write} {tenantId key : String} {id : UUID}

/-- The transaction a movement answers with is among its writes. -/
theorem Moved.transaction {rg : RG ι Database Write Resource} {src dst : Account}
    {req : TransferRequest} {effectiveAt : Time} {o o' : OrmSession}
    {g g' : Shared ι Database Write} {tx tx' : Tx Write Resource} {ws : List Write}
    {event : OutboxEvent}
    (h : Moved rg tenantId src dst req effectiveAt o g tx ws id event o' g' tx') :
    ∃ txn, .insTransaction txn ∈ ws ∧ txn.id = id ∧ txn.tenantId = tenantId := by
  cases h with
  | direct _ hpost => exact ⟨_, by simp, rfl, hpost.tenant⟩
  | routed _ _ _ _ _ _ _ hdebit _ => exact ⟨_, by simp, rfl, hdebit.tenant⟩

theorem TransferRun.recorded {req : TransferRequest}
    (run : TransferRun (recording allow) tenantId req key g₀) :
    (Reply.transfer 200 run.response).Recorded tenantId (replay run.g.db run.tx.log) := by
  obtain ⟨txn, hmem, hid, htenant⟩ := run.moved.transaction
  have hadm := run.whole.admitted_at_commit stable
  rw [run.log]
  have hinserts : .insTransaction txn ∈
      run.ws ++ [.insOutbox run.event, .insRecord run.stored] := by
    simp [hmem]
  have hfind := transaction_inserted hadm hinserts
  rw [hid] at hfind
  exact ⟨txn, hfind, htenant⟩

theorem PlaceRun.recorded {req : PlaceHoldRequest}
    (run : PlaceRun (recording allow) tenantId req key g₀) :
    (Reply.placed 200 run.response).Recorded tenantId (replay run.g.db run.tx.log) := by
  have hadm := run.whole.admitted_at_commit stable
  rw [run.log]
  have hreports := hadm.establishes (I := fun d => d.ReportsHold tenantId run.response)
    (J := fun _ => True) (w := .insHold run.hold) (by simp) hold_stays (fun _ _ h => h) trivial
    fun d _ hok => reportsHold_of_find
      (Table.find?_insert_self (r := run.hold) (Database.fresh_hold hok)) run.hold_tenant
      (some run.after)
  have hopen : run.response.capturedTransactionId = none := run.hold_open.1
  exact ⟨hreports, fun txn htxn => by simp [hopen] at htxn⟩

theorem CaptureRun.recorded {req : CaptureHoldRequest}
    (run : CaptureRun (recording allow) tenantId id req g₀) :
    (Reply.hold run.response).Recorded tenantId (replay run.g.db run.tx.log) := by
  have hadm := run.whole.admitted_at_commit stable
  -- the hold that was read is there at the commit
  have hread := reportsHold_of_find run.found run.hold_tenant none
  have hthere := rely_write hold_stays (run.prelude.trans run.tail).rely hread
  rw [run.log]
  have hreports := hadm.establishes (I := fun d => d.ReportsHold tenantId run.response)
    (w := .captureHold run.hold.id run.txn.id run.amount run.gM.clock) (by simp [CaptureRun.ws])
    hold_stays hold_stays hthere fun d hd _ => hd.captured (some run.after)
  refine ⟨hreports, fun txn htxn => ?_⟩
  cases htxn
  exact ⟨run.txn, transaction_inserted hadm (by simp [CaptureRun.ws]), run.posted.tenant⟩

theorem ReleaseRun.recorded (run : ReleaseRun (recording allow) tenantId id g₀)
    (hbacked : Backed g₀.db) (b : Option Balance) :
    (Reply.hold (responseWith (run.hold.release run.gM.clock) b)).Recorded tenantId
      (replay run.g.db run.tx.log) := by
  have hadm := run.whole.admitted_at_commit stable
  have hread := (rely_backed run.read.rely hbacked).answersHold run.found run.hold_tenant none
  have hthere : run.g.db.AnswersHold tenantId (responseWith run.hold none) :=
    rely_write answersHold_stays run.tail.rely hread
  have hreports := hadm.establishes
    (I := fun d => d.ReportsHold tenantId (responseWith (run.hold.release run.gM.clock) b))
    (w := .releaseHold run.hold.id run.gM.clock) (by simp) hold_stays hold_stays hthere.1
    fun d hd _ => hd.released b
  rw [run.log]
  refine ⟨hreports, fun txn htxn => hasTransaction_stays _ (.releaseHold _ _) (hthere.2 txn ?_)⟩
  cases b <;> exact htxn

/-- The events of a dispatch were selected, and are marked by its commit. -/
theorem dispatched_recorded {g₁ g' : Shared ι Database Write} {tx' : Tx Write Resource}
    {rs : List Resource} {limit : Nat} {time : Time} (hr : (recording allow).rely rs g₁ g')
    (hlog : tx'.log = (g₁.db.events tenantId (some .PENDING) limit).map
      fun e => .publish e.id time) :
    (Reply.dispatched ((g₁.db.events tenantId (some .PENDING) limit).map
      fun e => e.publish time)).Recorded tenantId (replay g'.db tx'.log) := by
  intro e he
  obtain ⟨e₀, he₀, rfl⟩ := List.mem_map.mp he
  obtain ⟨hmem, hselected⟩ := mem_events he₀
  obtain ⟨e₁, he₁, htenant⟩ := rely_write (I := fun d => d.EventOf tenantId e₀.id)
    (fun d w hd => eventOf_replay [w] hd) hr ⟨e₀, Table.find?_of_mem hmem, hselected.1⟩
  obtain ⟨e₂, he₂, hlater, hmarked, -⟩ := outbox_kept tx'.log he₁
  refine ⟨e₂, he₂, hlater.tenant.trans htenant, hmarked ?_⟩
  rw [hlog, published_publish]
  exact List.mem_map_of_mem he₀

/-- A reply to a session for the tenant is recorded. -/
abbrev Acknowledged (tenant : Option String) (reply : Reply) (g : Shared ι Database Write) : Prop :=
  ∀ t, tenant = some t → reply.Recorded t g.db

omit [Runtime] in
theorem Reply.Recorded.acknowledged {reply : Reply} {g : Shared ι Database Write}
    (h : reply.Recorded tenantId g.db) : Acknowledged (some tenantId) reply g := by
  intro t ht
  cases ht
  exact h

/-- **Every request** returns what is recorded, and backs its records. -/
theorem swp_recorded (htimes : Runtime.TimesRoundTrip) (r : Request) (hbacked : Backed g₀.db) :
    swp (recording allow) me r.service (fun reply _ g _ => Acknowledged r.tenant reply g)
      (fun _ _ _ => True) {} g₀ {} := by
  have hraise : MayRaise (recording allow) (fun _ (_ : Shared ι Database Write) _ => True) g₀ {} :=
    mayRaise_trivial _ _
  -- a commit without records, and one with the record of its reply
  have hplain : ∀ {ws g' tx'}, Progress (recording allow) ws g₀ {} g' tx' →
      (∀ w ∈ ws, w.Backed (replay g'.db tx'.log)) →
        (recording allow).guar me tx' g' (g'.commit me tx') := by
    intro ws g' tx' hp hws
    have hlog : tx'.log = ws := by simpa using hp.log
    exact ⟨fun w hw => hws w (hlog ▸ hw), hp.locked⟩
  have hstored : ∀ {ws g' tx' rec reply}, Progress (recording allow) ws g₀ {} g' tx' →
      (∀ w ∈ tx'.log, w = .insRecord rec ∨ w.Backed (replay g'.db tx'.log)) →
        r.Stores reply rec → reply.Recorded rec.id.tenantId (replay g'.db tx'.log) →
          (recording allow).guar me tx' g' (g'.commit me tx') := by
    intro ws g' tx' rec reply hp hws hstores hrecorded
    refine ⟨fun w hw => ?_, hp.locked⟩
    rcases hws w hw with rfl | hbacked
    · exact .of_stores htimes hstores hrecorded
    · exact hbacked
  cases r with
  | openAccount tenantId req =>
    rw [Request.service, swp_map]
    refine swp_openAccount_told hraise fun a g' tx' ha hp _ =>
      ⟨hplain hp (by simp [Write.Backed]), fun o' => Reply.Recorded.acknowledged ?_⟩
    have hlog : tx'.log = [.insAccount a, .insBalance ⟨a.id, tenantId, 0, 0, none⟩] := by
      simpa using hp.log
    have hadm := hp.admitted_at_commit stable
    show Reply.Recorded tenantId (replay g'.db tx'.log) _
    rw [hlog]
    have hfind : (g'.db.apply (.insAccount a)).accounts.find? a.id = some a :=
      Table.find?_insert_self (r := a) (Database.fresh_account hadm.head)
    exact ⟨a, account_stays _ (.insBalance ⟨a.id, tenantId, 0, 0, none⟩) hfind, ha.tenant, rfl, rfl,
      rfl, rfl⟩
  | post tenantId specs memo =>
    rw [Request.service, swp_map]
    refine swp_postAndCommit hraise fun txn legs event g₁ tx₁ g' tx' posted hp _ => ?_
    have hwhole := posted.progress.trans hp
    have hlog : tx'.log = emission txn legs event := by simpa [emission] using hwhole.log
    have hadm := hwhole.admitted_at_commit stable
    refine ⟨hplain hwhole fun w hw => Write.backed_of_emission (by simpa [emission] using hw),
      fun o' => Reply.Recorded.acknowledged ?_⟩
    show Reply.Recorded tenantId (replay g'.db tx'.log) _
    rw [hlog]
    exact ⟨transaction_inserted (by simpa [emission] using hadm) (by simp [emission]),
      posted.tenant⟩
  | transfer tenantId req key =>
    rw [Request.service, swp_map]
    refine swp_executeTransfer hraise (fun rec p a g' tx' hp hfind hr ha => ?_) fun run _ =>
      ⟨hstored run.whole ?_ (.transfer tenantId req key run.response run.gR.clock) run.recorded,
        run.recorded.acknowledged⟩
    · exact Reply.Recorded.acknowledged ((rely_backed hp.rely hbacked).answered (r := .transfer
        tenantId req key) rfl hfind hr (by simp [Request.answer, ha]))
    · intro w hw
      rw [run.log, List.mem_append] at hw
      rcases hw with hw | hw
      · refine .inr ?_
        rcases run.moved.tables.2 _ hw with h | h | h | h <;>
          exact Write.backed_of_table (by simp [h]) (by simp [h])
      · simp only [List.mem_cons, List.not_mem_nil, or_false] at hw
        rcases hw with rfl | rfl
        · exact .inr trivial
        · exact .inl rfl
  | placeHold tenantId req key =>
    rw [Request.service, swp_map]
    refine swp_placeHold hraise (fun rec p a g' tx' hp hfind hr ha => ?_) fun run _ =>
      ⟨hstored run.whole ?_ (.placeHold tenantId req key run.response run.gR.clock) run.recorded,
        run.recorded.acknowledged⟩
    · exact Reply.Recorded.acknowledged ((rely_backed hp.rely hbacked).answered (r := .placeHold
        tenantId req key) rfl hfind hr (by simp [Request.answer, ha]))
    · intro w hw
      rw [run.log] at hw
      simp only [List.mem_cons, List.not_mem_nil, or_false] at hw
      rcases hw with rfl | rfl
      · exact .inr run.hold_open.1
      · exact .inl rfl
  | captureHold tenantId id req =>
    rw [Request.service, swp_map]
    refine swp_captureHold hraise
      (fun hold b o' g₁ tx₁ g' tx' hp hfound htenant _ hr => ?_) fun run _ =>
      ⟨hplain run.whole ?_, run.recorded.acknowledged⟩
    · have hthere : (Reply.hold (responseWith hold b)).Recorded tenantId g₁.db :=
        (rely_backed hp.rely hbacked).answersHold hfound htenant b
      exact Reply.Recorded.acknowledged (rely_recorded hr.progress.rely hthere)
    · have hws : run.ws = emission run.txn run.legs run.event ++
          [.captureHold run.hold.id run.txn.id run.amount run.gM.clock] := by
        simp [CaptureRun.ws, emission]
      intro w hw
      rw [hws] at hw
      rcases List.mem_append.mp hw with hw | hw
      · exact Write.backed_of_emission hw
      · -- the hold that the capture resolves is the tenant's
        rw [List.mem_singleton.mp hw]
        intro x hx
        obtain ⟨⟨y, hy, htenant, -⟩, hthere⟩ := run.recorded
        obtain rfl : y = x := Option.some_injective _ (hy.symm.trans hx)
        rw [htenant]
        exact hthere run.txn.id rfl
  | releaseHold tenantId id =>
    rw [Request.service, swp_map]
    refine swp_releaseHold hraise
      (fun hold b o' g₁ tx₁ g' tx' hp hfound htenant _ hr => ?_) fun run _ =>
      ⟨hplain run.whole (by simp [Write.Backed]), fun b o' g' tx' hr => ?_⟩
    · have hthere : (Reply.hold (responseWith hold b)).Recorded tenantId g₁.db :=
        (rely_backed hp.rely hbacked).answersHold hfound htenant b
      exact Reply.Recorded.acknowledged (rely_recorded hr.progress.rely hthere)
    · -- the balances are read after the commit
      have hthere := run.recorded hbacked b
      exact Reply.Recorded.acknowledged (rely_recorded hr.progress.rely hthere)
  | reverse tenantId id req key =>
    rw [Request.service, swp_map]
    refine swp_reverseTransaction hraise (fun rec p a g' tx' hp hfind hr ha => ?_) fun run _ => ?_
    · exact Reply.Recorded.acknowledged ((rely_backed hp.rely hbacked).answered (r := .reverse
        tenantId id req key) rfl hfind hr (by simp [Request.answer, ha]))
    · have hrecorded : (Reply.reversal 200 run.response).Recorded tenantId
          (replay run.g.db run.tx.log) := by
        have hadm := run.whole.admitted_at_commit stable
        rw [run.log]
        exact ⟨run.txn, transaction_inserted hadm (by simp [ReverseRun.ws]), run.posted.tenant,
          run.posted.corrects, rfl, rfl⟩
      refine ⟨hstored run.whole ?_ (.reverse tenantId id req key run.response run.gR.clock)
        hrecorded, fun o' => hrecorded.acknowledged⟩
      intro w hw
      have hws : run.ws = emission run.txn run.legs run.event ++ [.insRecord run.stored] := by
        simp [ReverseRun.ws, emission]
      rw [run.log, hws] at hw
      rcases List.mem_append.mp hw with hw | hw
      · exact .inr (Write.backed_of_emission hw)
      · exact .inl (List.mem_singleton.mp hw)
  | upsertRate tenantId req =>
    rw [Request.service, swp_map]
    refine swp_upsertRate hraise fun row g' tx' htenant hp _ =>
      ⟨hplain hp (by simp [Write.Backed]), fun o' => Reply.Recorded.acknowledged ?_⟩
    have hlog : tx'.log = [.insRate row] := by simpa using hp.log
    have hadm := hp.admitted_at_commit stable
    show Reply.Recorded tenantId (replay g'.db tx'.log) _
    rw [hlog]
    exact ⟨row, Table.find?_insert_self (Database.fresh_rate hadm.head), htenant⟩
  | dispatch tenantId limit =>
    rw [Request.service, swp_map]
    refine swp_dispatchPending hraise (fun o' g' tx' _ => ?_)
      fun g₁ tx₁ time g' tx' hp _ hp' _ => ?_
    · have hnone : (Reply.dispatched []).Recorded tenantId g'.db := fun e he => by cases he
      exact hnone.acknowledged
    · have hwhole := hp.trans hp'
      have hlog := hwhole.log
      rw [List.nil_append, List.nil_append] at hlog
      exact ⟨hplain hwhole (by simp [Write.Backed]),
        fun o' => (dispatched_recorded hp'.rely hlog).acknowledged⟩
  | importStatement tenantId account raw lines =>
    rw [Request.service, swp_map]
    refine swp_importStatement hraise (fun found rest o' g' tx' _ himports => ?_) fun run _ =>
      ⟨hplain run.whole (by simp [Write.Backed]), fun o' => Reply.Recorded.acknowledged ?_⟩
    · have hmem : found ∈ g'.db.importsOf tenantId (Runtime.sha256 raw) := by simp [himports]
      simp only [Database.importsOf, List.mem_filter, Bool.and_eq_true, decide_eq_true_eq] at hmem
      have hthere : (Reply.imported ⟨found.id, false, 0⟩).Recorded tenantId g'.db :=
        ⟨⟨found, Table.find?_of_mem hmem.1, hmem.2.1⟩, Nat.zero_le _⟩
      exact hthere.acknowledged
    · have hadm := run.whole.admitted_at_commit stable
      have hfind := hadm.establishes (w := .insImport run.row) (J := fun _ => True)
        (I := fun d => d.imports.find? run.row.id = some run.row) (by simp)
        (fun d w h => import_stays d w h) (fun _ _ h => h) trivial
        fun d _ hok => Table.find?_insert_self (r := run.row) (Database.fresh_import hok)
      have hlines : lines.length = run.rows.length := by
        simpa using (congrArg List.length run.rows_lines).symm
      show Reply.Recorded tenantId (replay run.g.db run.tx.log) _
      rw [run.log]
      have hin := lines_inserted hadm.tail run.rows_import
      exact ⟨⟨run.row, hfind, run.tenant⟩, hlines.trans_le hin⟩
  | sweep minAge =>
    rw [Request.service, swp_map]
    refine swp_sweepOnce hraise fun run _ => ⟨hplain run.whole (by simp [Write.Backed]), ?_⟩
    intro _ _ _ _
    trivial

end requests

/-! ## Result -/

section result

variable {ι : Type} [DecidableEq ι] {requests : ι → Request} {d : Database} {clock : Time}
  {s s' : Sys ι Database Write Resource Err Reply}

theorem backed_empty [Runtime] : Backed .empty where
  records stored hmem := by cases hmem
  holds x hx := by cases hx

omit [DecidableEq ι] in
/-- The promise of the requests to each other. -/
theorem verified_serve [Runtime] (htimes : Runtime.TimesRoundTrip) (hbacked : Backed d) :
    Verified (recording Sys.all) (serve requests d clock) :=
  .initial ⟨rfl, fun _ => rfl⟩ fun j => wp_program (P := fun _ _ _ => True)
    (swp_mono (fun _ _ _ _ _ => trivial) (fun _ _ _ _ => trivial)
      (swp_recorded htimes (requests j) hbacked))

/-- What is there stays backed. -/
theorem backed_of_reachable [Runtime] (htimes : Runtime.TimesRoundTrip) (hbacked : Backed d)
    (hr : Sys.Reachable Sys.all (serve requests d clock) s) : Backed s.shared.db :=
  rely_backed ((verified_serve htimes hbacked).reachable
    (RG.logging_sound Sys.all (Backing (ι := ι))) hr).2 hbacked

/-- **Durability**: what a session has returned is recorded, in the state in
    which it is found and in every later one. -/
theorem recorded_of_reachable [Runtime] (htimes : Runtime.TimesRoundTrip) (hbacked : Backed d)
    (hr : Sys.Reachable Sys.all (serve requests d clock) s) {i : ι} {reply : Reply}
    (hret : (s.sess i).prog = .ret reply) {t : String} (ht : (requests i).tenant = some t)
    (hr' : Sys.Reachable Sys.all s s') : reply.Recorded t s'.shared.db := by
  have hsound := RG.logging_sound Sys.all (Backing (ι := ι))
  have hv : Verified (recording Sys.all) (serve requests d clock) := verified_serve htimes hbacked
  have hthen : reply.Recorded t s.shared.db := by
    refine hv.returned hsound (K := fun g reply => Acknowledged (requests i).tenant reply g)
      (fun g g' a hrely hK t ht => rely_recorded hrely (hK t ht)) (wp_program ?_) hr hret t ht
    refine swp_mono (fun reply _ g _ hreply a ha => ?_) (fun _ _ _ _ a ha => by cases ha)
      (swp_recorded htimes (requests i) hbacked)
    cases ha
    exact hreply
  obtain ⟨hv', -⟩ := hv.reachable hsound hr
  exact rely_recorded (hv'.reachable hsound hr').2 hthen

end result

/-! ## A Sample Run -/

open Sample

/-- A hold, and two captures of it. -/
def capturedTwice : Fin 3 → Request
  | 0 => reserve 100 60000000 "h1" hundred_pos
  | _ => capture 3005

/-- The transaction that a session was told has captured its hold. -/
def capturedFor {ι : Type} (s : Sys ι Database Write Resource Err Reply) (i : ι) : Option UUID :=
  match s.returned i with
  | some (.hold r) => r.capturedTransactionId
  | _ => none

theorem hold_of_capturedFor {ι : Type} {s : Sys ι Database Write Resource Err Reply} {i : ι}
    {id : UUID} (h : capturedFor s i = some id) :
    ∃ r, (s.sess i).prog = .ret (.hold r) ∧ r.capturedTransactionId = some id := by
  unfold capturedFor at h
  split at h
  · rename_i r hreturned
    exact ⟨r, Sys.prog_of_returned hreturned, h⟩
  · cases h

theorem backed_funded : Backed funded := by
  have hnone : funded.records.rows = [] ∧ funded.holds.rows = [] := by decide +kernel
  exact ⟨fun stored hmem => by simp [hnone.1] at hmem, fun x hx => by simp [hnone.2] at hx⟩

/-- Both captures are answered, each with a transaction that is there; the hold
    names the later one only. -/
theorem recorded_of_reachable_captured : ∃ s r r',
    Sys.Reachable Sys.all (serve capturedTwice funded 0) s ∧
      (s.sess 1).prog = .ret (.hold r) ∧ r.capturedTransactionId = some 4104 ∧
      (s.sess 2).prog = .ret (.hold r') ∧ r'.capturedTransactionId = some 5007 ∧
      s.shared.db.AnswersHold "acme" r ∧ s.shared.db.AnswersHold "acme" r' := by
  obtain ⟨s, hr, hp⟩ := Sys.Reachable.of_exec (s := serve capturedTwice funded 0)
    (Sys.turns 0 3000 30 ++ Sys.turns 1 4000 3 ++ Sys.turns 2 5000 40 ++ Sys.turns 1 4100 40)
    (fun s => capturedFor s 1 == some 4104 && capturedFor s 2 == some 5007) (by decide +kernel)
  simp only [Bool.and_eq_true, beq_iff_eq] at hp
  obtain ⟨r, hret, hcaptured⟩ := hold_of_capturedFor hp.1
  obtain ⟨r', hret', hcaptured'⟩ := hold_of_capturedFor hp.2
  exact ⟨s, r, r', hr, hret, hcaptured, hret', hcaptured',
    recorded_of_reachable timesRoundTrip backed_funded hr hret rfl .init,
    recorded_of_reachable timesRoundTrip backed_funded hr hret' rfl .init⟩

end Ledger
