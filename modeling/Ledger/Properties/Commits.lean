import Ledger.Properties.OutboxLedger
import Ledger.Properties.TenantWrites
import Ledger.Runs.Checks

/-! # What Every Commit Does to the Books

    A request that runs alone acts on the state it finds.  Among others there
    is no such state: what it read at its first statement may be gone when it
    commits.  The books need less than that.

    * **Commits**: `Bookkeeping`, the writes of a commit as steps of the books, of the
      outbox and of one tenant, in the state they are published to.
    * **Engine**: `Posted.commits`, the snapshots an update matched are those
      it would match at the commit, since no account changes its tenant.
    * **Requests**: `keeps_bookkeeping`, every commit of every request is such.
-/

namespace Ledger

open ReadCommitted

/-! ## Commits -/

section commits

variable [Runtime]

/-- The write concerns neither the books nor the events, and a hold that it
    inserts is open. -/
structure Write.Quiet (w : Write) : Prop where
  plain : w.plain
  outbox : w.table ≠ .outbox
  opens : ∀ r, w = .insHold r → r.capturedTransactionId = none ∧ r.capturedAmount = none

/-- What a commit for the tenant publishes. -/
inductive Bookkeeping (tenant : Option String) : Database → List Write → Prop where
  | nil {d} : Bookkeeping tenant d []
  | quiet {d w ws} (hquiet : w.Quiet) (hof : ∀ t, tenant = some t → w.Of d t)
      (hrest : Bookkeeping tenant (d.apply w) ws) : Bookkeeping tenant d (w :: ws)
  | published {d id time ws} (hof : ∀ t, tenant = some t → (Write.publish id time).Of d t)
      (hrest : Bookkeeping tenant (d.apply (.publish id time)) ws) :
      Bookkeeping tenant d (.publish id time :: ws)
  | opened {d ws} (a : Account) (htenant : tenant = some a.tenantId)
      (hadm : Admitted d [.insAccount a, .insBalance ⟨a.id, a.tenantId, 0, 0, none⟩])
      (hrest : Bookkeeping tenant
        (replay d [.insAccount a, .insBalance ⟨a.id, a.tenantId, 0, 0, none⟩]) ws) :
      Bookkeeping tenant d (.insAccount a :: .insBalance ⟨a.id, a.tenantId, 0, 0, none⟩ :: ws)
  | emitted {d t specs memo c txn legs event ws} (htenant : tenant = some t)
      (hpost : Emitted d t specs memo c txn legs event)
      (hadm : Admitted d (emission txn legs event))
      (howns : ∀ spec ∈ specs, d.Owns t spec.accountId)
      (hrest : Bookkeeping tenant (replay d (emission txn legs event)) ws) :
      Bookkeeping tenant d (emission txn legs event ++ ws)

variable {tenant : Option String} {t : String} {d : Database} {ws vs : List Write}

theorem Bookkeeping.append (h : Bookkeeping tenant d ws)
    (h' : Bookkeeping tenant (replay d ws) vs) : Bookkeeping tenant d (ws ++ vs) := by
  induction h with
  | nil => exact h'
  | quiet hquiet hof _ ih => exact .quiet hquiet hof (ih h')
  | published hof _ ih => exact .published hof (ih h')
  | opened a htenant hadm _ ih => exact .opened a htenant hadm (ih h')
  | emitted htenant hpost hadm howns _ ih =>
    rw [replay_append] at h'
    rw [List.append_assoc]
    exact .emitted htenant hpost hadm howns (ih h')

/-- **The books** are kept. -/
theorem Bookkeeping.books (h : Bookkeeping tenant d ws) (hbooks : Books d) :
    Books (replay d ws) := by
  induction h with
  | nil => exact hbooks
  | quiet hquiet _ _ ih => exact ih (hbooks.plain hquiet.plain)
  | published _ _ ih => exact ih (hbooks.plain (by simp [Write.plain, Write.table]))
  | opened a _ hadm _ ih => exact ih (hbooks.opened a hadm)
  | @emitted d t specs memo c txn legs event ws _ hpost _ howns _ ih =>
    rw [replay_append]
    refine ih ?_
    -- the event does not touch the books
    rw [emission, replay_append]
    exact (hbooks.posted hpost.block howns).plain (plain_insOutbox event)

/-- **The events** go on telling the transactions. -/
theorem Bookkeeping.told (h : Bookkeeping tenant d ws) (htold : Told d) : Told (replay d ws) := by
  induction h with
  | nil => exact htold
  | quiet hquiet _ _ ih =>
    exact ih (htold.step (.quiet hquiet.plain.2.2.1 hquiet.plain.2.2.2 hquiet.outbox))
  | published _ _ ih => exact ih (htold.step .published)
  | @opened d _ a _ _ _ ih =>
    have haccount : Told (d.apply (.insAccount a)) :=
      htold.step (.quiet (by simp [Write.table]) (by simp [Write.table]) (by simp [Write.table]))
    exact ih (haccount.step (.quiet (w := .insBalance ⟨a.id, a.tenantId, 0, 0, none⟩)
      (by simp [Write.table]) (by simp [Write.table]) (by simp [Write.table])))
  | emitted _ hpost hadm _ _ ih =>
    rw [replay_append]
    exact ih (htold.step (.emitted hpost hadm))

/-- **The rows** that are written are the tenant's. -/
theorem Bookkeeping.writesOf (h : Bookkeeping (some t) d ws) : WritesOf t d ws := by
  induction h with
  | nil => trivial
  | quiet _ hof _ ih => exact ⟨hof t rfl, ih⟩
  | published hof _ ih => exact ⟨hof t rfl, ih⟩
  | opened a htenant _ _ ih =>
    cases htenant
    exact ⟨rfl, rfl, ih⟩
  | emitted htenant hpost _ howns _ ih =>
    cases htenant
    exact writesOf_append.mpr ⟨hpost.writesOf howns, ih⟩

end commits

/-! ## Rows of a Tenant -/

section rows

variable {tenantId : String} {id : UUID} {d : Database}

/-- An account found by its path is the tenant's. -/
theorem owns_of_openAt {path : String} {a : Account}
    (h : d.openAt tenantId path = [a]) : d.Owns tenantId a.id := by
  have hmem : a ∈ d.openAt tenantId path := by simp [h]
  simp only [Database.openAt, List.mem_filter, Bool.and_eq_true, decide_eq_true_eq] at hmem
  exact ⟨a, Table.find?_of_mem hmem.1, hmem.2.1.1⟩

/-- The hold is the tenant's. -/
def Database.HoldOf (d : Database) (tenantId : String) (id : UUID) : Prop :=
  ∃ h, d.holds.find? id = some h ∧ h.tenantId = tenantId

/-- A hold keeps its tenant. -/
theorem holdOf_apply (d : Database) (w : Write) (h : d.HoldOf tenantId id) :
    (d.apply w).HoldOf tenantId id := by
  obtain ⟨x, hx, ht⟩ := h
  cases w with
  | insHold r => exact ⟨x, Table.find?_insert_of_some hx, ht⟩
  | captureHold id' txn amount time =>
    refine ⟨if id = id' then x.capture txn amount time else x, ?_, by split <;> exact ht⟩
    exact (Table.find?_modify _ _ _ _ (Hold.key_capture txn amount time)).trans (by rw [hx]; rfl)
  | releaseHold id' time =>
    refine ⟨if id = id' then x.release time else x, ?_, by split <;> exact ht⟩
    exact (Table.find?_modify _ _ _ _ (Hold.key_release time)).trans (by rw [hx]; rfl)
  | _ => exact ⟨x, hx, ht⟩

theorem Database.HoldOf.of_find (h : d.HoldOf tenantId id) {x : Hold}
    (hx : d.holds.find? id = some x) : x.tenantId = tenantId := by
  obtain ⟨y, hy, ht⟩ := h
  rw [hx] at hy
  cases hy
  exact ht

/-- The event is the tenant's. -/
def Database.EventOf (d : Database) (tenantId : String) (id : UUID) : Prop :=
  ∃ e, d.outbox.find? id = some e ∧ e.tenantId = tenantId

theorem eventOf_replay (ws : List Write) (h : d.EventOf tenantId id) :
    (replay d ws).EventOf tenantId id := by
  obtain ⟨e, he, ht⟩ := h
  obtain ⟨e', he', hlater, -⟩ := outbox_kept ws he
  exact ⟨e', he', hlater.tenant.trans ht⟩

end rows

/-! ## Engine -/

section engine

variable [Runtime] {ι : Type} {allow : OfCommit ι Database Write Resource}
  {tenants : ι → Option String}

/-- The others commit what keeps the books. -/
abbrev bookkeeping (allow : OfCommit ι Database Write Resource) (tenants : ι → Option String) :
    RG ι Database Write Resource :=
  .logging allow fun i tx g => Bookkeeping (tenants i) g.db tx.log ∧ Admitted g.db tx.log

variable {rs : List Resource} {g g' gC : Shared ι Database Write} {tx tx' : Tx Write Resource}
  {tenantId : String} {txn : Transaction} {legs : List Leg} {event : OutboxEvent}

theorem rely_books (hr : (bookkeeping allow tenants).rely rs g g') (h : Books g.db) :
    Books g'.db := by
  obtain ⟨cs, hlogged, -⟩ := hr
  exact hlogged.invariant h fun _ _ _ hkept hbooks => hkept.1.books hbooks

theorem rely_owns {account : UUID} (hr : (bookkeeping allow tenants).rely rs g g')
    (h : g.db.Owns tenantId account) : g'.db.Owns tenantId account :=
  rely_write (I := fun d => d.Owns tenantId account) (fun _ _ hd => owns_apply hd) hr h

/-- **One call of the engine, at the commit**: its legs found the snapshots
    that are there when it is published. -/
theorem Posted.commits {specs : List PostingSpec} {memo : String} {c : Option UUID}
    {pend : List Write}
    (h : Posted (bookkeeping allow tenants) tenantId specs memo c pend txn legs event g tx g' tx')
    (hbooks : Books g.db) (howns : ∀ spec ∈ specs, g.db.Owns tenantId spec.accountId)
    (hnew : NoNewSnapshot (tx.log ++ pend)) (hr : (bookkeeping allow tenants).rely [] g gC)
    (hadm : Admitted (replay gC.db (tx.log ++ pend)) (.insTransaction txn :: legWrites legs)) :
    Emitted (replay gC.db (tx.log ++ pend)) tenantId specs memo c txn legs event where
  memo := h.memo
  event_tenant := h.event_tenant
  event_transaction := h.event_transaction
  event_payload := h.event_payload
  event_pending := h.event_pending
  block :=
    { two := h.two
      zero := h.zero
      tenant := h.tenant
      corrects := h.corrects
      carried := h.carried
      admitted := hadm
      folded := fun pre l post heq => by
        obtain ⟨gs, hrs, hfolded⟩ := h.folded pre l post heq
        obtain ⟨spec, hspec, hof⟩ := Leg.Of.exists_spec h.carried (l := l) (by simp [heq])
        -- an account of the tenant has its snapshot in every state on the way
        have hmatched : ∀ {gx : Shared ι Database Write} {ws : List Write},
            (bookkeeping allow tenants).rely [] g gx → NoNewSnapshot ws →
              Svc.matched (replay gx.db ws) tenantId l.posting.accountId = true := by
          intro gx ws hrx hws
          rw [matched_replay hws, hof.account]
          exact (rely_books hrx hbooks).matched (rely_owns hrx (howns spec hspec))
        have hlegs : NoNewSnapshot (.insTransaction txn :: (legWrites pre ++
            [.insPosting l.posting])) := by
          intro r hmem
          simp only [List.mem_cons, List.mem_append, List.not_mem_nil, or_false, reduceCtorEq,
            false_or] at hmem
          exact noNewSnapshot_legWrites pre r hmem
        rw [hfolded, ← List.append_assoc, ← replay_append,
          hmatched (RG.rely_mono _ (by simp) hrs) (hnew.append hlegs),
          hmatched hr (hnew.append hlegs)] }

/-- The call as one step. -/
theorem Emitted.kept {d : Database} {specs : List PostingSpec} {memo : String} {c : Option UUID}
    (h : Emitted d tenantId specs memo c txn legs event)
    (hadm : Admitted d (emission txn legs event))
    (howns : ∀ spec ∈ specs, d.Owns tenantId spec.accountId) :
    Bookkeeping (some tenantId) d (emission txn legs event) := by
  have hkept : Bookkeeping (some tenantId) d (emission txn legs event ++ []) :=
    .emitted rfl h hadm howns .nil
  rwa [List.append_nil] at hkept

/-- **The movement of a transfer, at the commit.** -/
theorem Moved.kept {src dst : Account} {req : TransferRequest} {effectiveAt : Time}
    {o o' : OrmSession} {ws : List Write} {id : UUID}
    (h : Moved (bookkeeping allow tenants) tenantId src dst req effectiveAt o g tx ws id event o'
      g' tx')
    (hlog : tx.log = []) (hbooks : Books g.db)
    (hsrc : g.db.Owns tenantId req.sourceAccountId ∧ src.id = req.sourceAccountId)
    (hdst : g.db.Owns tenantId req.destinationAccountId ∧ dst.id = req.destinationAccountId)
    (hr : (bookkeeping allow tenants).rely [] g' gC)
    (hadm : Admitted gC.db (ws ++ [.insOutbox event])) :
    Bookkeeping (some tenantId) gC.db (ws ++ [.insOutbox event]) := by
  cases h with
  | @direct txn legs _ _ _ _ hpost =>
    have hrely := RG.rely_trans _ (RG.rely_mono _ (List.nil_subset _) hpost.progress.rely) hr
    have howns : ∀ spec ∈ pair req.sourceAccountId req.destinationAccountId req.amount effectiveAt,
        g.db.Owns tenantId spec.accountId := by
      simpa [pair] using ⟨hsrc.1, hdst.1⟩
    have hemitted := hpost.commits hbooks howns (by simp [hlog, NoNewSnapshot]) hrely
      (by simpa [hlog] using hadm.left)
    rw [hlog, List.append_nil, replay_nil] at hemitted
    exact hemitted.kept hadm fun spec hspec => rely_owns hrely (howns spec hspec)
  | @routed rate target srcConv dstConv debit credit legs₁ legs₂ event₁ _ g₁ tx₁ g₂ tx₂ g₃ tx₃ g₄
      tx₄ _ _ hcur hrate hconv h₂ hsrcConv h₃ hdstConv hdebit hcredit =>
    rw [hlog, replay_nil] at hsrcConv hdstConv
    have hread := (hrate.progress.trans h₂).trans h₃
    have hlog₃ : tx₃.log = [] := by simpa [hlog] using hread.log
    have hlog₄ : tx₄.log = .insTransaction debit :: legWrites legs₁ := by
      simpa [hlog₃] using hdebit.progress.log
    -- the first call starts at `g₃`, the second at `g₄`
    have hrely₄ := RG.rely_trans _ (RG.rely_mono _ (List.nil_subset _) hcredit.progress.rely) hr
    have hrely₃ := RG.rely_trans _ (RG.rely_mono _ (List.nil_subset _) hdebit.progress.rely) hrely₄
    have hbooks₃ := rely_books hread.rely hbooks
    have howns₁ : ∀ spec ∈ pair src.id srcConv.id req.amount effectiveAt,
        g₃.db.Owns tenantId spec.accountId := by
      have hs := rely_owns hread.rely hsrc.1
      have hc := rely_owns h₃.rely (owns_of_openAt hsrcConv)
      simpa [pair, hsrc.2] using ⟨hs, hc⟩
    have howns₂ : ∀ spec ∈ pair dstConv.id dst.id target effectiveAt,
        g₄.db.Owns tenantId spec.accountId := by
      have hd := rely_owns hdebit.progress.rely (rely_owns hread.rely hdst.1)
      have hc := rely_owns hdebit.progress.rely (owns_of_openAt hdstConv)
      simpa [pair, hdst.2] using ⟨hc, hd⟩
    have hws : .insTransaction debit :: legWrites legs₁ ++
        .insOutbox event₁ :: .insTransaction credit :: legWrites legs₂ ++ [.insOutbox event] =
        emission debit legs₁ event₁ ++ emission credit legs₂ event := by
      simp [emission]
    rw [hws] at hadm ⊢
    have hpend : tx₄.log ++ [.insOutbox event₁] = emission debit legs₁ event₁ := by
      rw [hlog₄, emission]
    have hfirst := hdebit.commits hbooks₃ howns₁ (by simp [hlog₃, NoNewSnapshot]) hrely₃
      (by simpa [hlog₃, emission] using hadm.left.left)
    rw [hlog₃, List.append_nil, replay_nil] at hfirst
    have hsecond := hcredit.commits (rely_books hdebit.progress.rely hbooks₃) howns₂
      (by
        rw [hlog₄]
        intro r hmem
        simp only [List.cons_append, List.mem_cons, List.mem_append, List.not_mem_nil, or_false,
          reduceCtorEq, false_or] at hmem
        exact noNewSnapshot_legWrites legs₁ r hmem)
      hrely₄ (by rw [hpend]; exact hadm.right.left)
    rw [hpend] at hsecond
    refine (hfirst.kept hadm.left fun spec hspec => rely_owns hrely₃ (howns₁ spec hspec)).append ?_
    exact hsecond.kept hadm.right fun spec hspec =>
      owns_replay (rely_owns hrely₄ (howns₂ spec hspec))

end engine

/-! ## Requests -/

section requests

variable [Runtime] {ι : Type} {allow : OfCommit ι Database Write Resource}
  {tenants : ι → Option String} {g₀ : Shared ι Database Write} {tenantId key : String}

/-- The row of a keyed request. -/
theorem kept_record {d : Database} {r : IdempotencyRecord} (h : r.id.tenantId = tenantId) :
    Bookkeeping (some tenantId) d [.insRecord r] :=
  .quiet (by constructor <;> simp [Write.plain, Write.table])
    (fun _ ht => h.trans (Option.some.inj ht)) .nil

theorem TransferRun.kept {req : TransferRequest}
    (run : TransferRun (bookkeeping allow tenants) tenantId req key g₀) (hbooks : Books g₀.db) :
    Bookkeeping (some tenantId) run.g.db run.tx.log := by
  have hadm := run.whole.admitted_at_commit stable
  -- what was read at the start, at the movement
  have hchecked := (run.readDst.trans run.funds.progress).trans run.stamp
  have hsrc := rely_owns hchecked.rely ⟨run.src, run.src_eq.1, run.src_eq.2.1⟩
  have hdst := rely_owns (run.funds.progress.trans run.stamp).rely
    ⟨run.dst, run.dst_eq.1, run.dst_eq.2.1⟩
  have hrest := ((run.readSrcAfter.trans run.readDstAfter).trans run.stamped).trans run.finish
  have hws : run.ws ++ [.insOutbox run.event, .insRecord run.stored] =
      run.ws ++ [.insOutbox run.event] ++ [.insRecord run.stored] := by simp
  rw [run.log, hws]
  rw [hws] at hadm
  refine Bookkeeping.append ?_ (kept_record rfl)
  exact run.moved.kept run.txM_log (rely_books run.prelude.rely hbooks)
    ⟨hsrc, Table.key_of_find? run.src_eq.1⟩ ⟨hdst, Table.key_of_find? run.dst_eq.1⟩
    (RG.rely_mono _ (List.nil_subset _) hrest.rely) hadm.left

theorem CaptureRun.kept {id : UUID} {req : CaptureHoldRequest}
    (run : CaptureRun (bookkeeping allow tenants) tenantId id req g₀) (hbooks : Books g₀.db) :
    Bookkeeping (some tenantId) run.g.db run.tx.log := by
  have hadm := run.whole.admitted_at_commit stable
  have hwhole := run.read.trans run.prelude
  have hsrc := rely_owns (((run.readDst.trans run.lock).trans run.readBefore.progress).trans
    run.stamp).rely ⟨run.src, run.src_eq.1, run.src_eq.2.1⟩
  have hdst := rely_owns ((run.lock.trans run.readBefore.progress).trans run.stamp).rely
    ⟨run.dst, run.dst_eq.1, run.dst_eq.2.1⟩
  have howns : ∀ spec ∈ pair run.hold.accountId req.destinationAccountId
      (captureAmount run.hold req) run.gM.clock, run.gM.db.Owns tenantId spec.accountId := by
    simpa [pair] using ⟨hsrc, hdst⟩
  have hrely := RG.rely_mono _ (List.nil_subset _)
    ((run.posted.progress.trans run.readAfter.progress).trans run.finish).rely
  have hold : run.g.db.HoldOf tenantId run.hold.id := by
    have hread : run.gH.db.HoldOf tenantId run.hold.id :=
      ⟨run.hold, by rw [run.hold_id]; exact run.found, run.hold_tenant⟩
    exact rely_write holdOf_apply hrely (rely_write holdOf_apply run.prelude.rely hread)
  have hws : run.ws = emission run.txn run.legs run.event ++
      [.captureHold run.hold.id run.txn.id run.amount run.gM.clock] := by
    simp [CaptureRun.ws, emission]
  rw [run.log, hws]
  rw [hws] at hadm
  have hemitted := run.posted.commits (rely_books hwhole.rely hbooks) howns
    (by simp [run.txB_log, NoNewSnapshot]) hrely
    (by simpa [run.txB_log, emission] using hadm.left.left)
  rw [run.txB_log, List.append_nil, replay_nil] at hemitted
  refine (hemitted.kept hadm.left fun spec hspec => rely_owns hrely (howns spec hspec)).append ?_
  refine .quiet (by constructor <;> simp [Write.plain, Write.table]) (fun t ht x hx => ?_)
    .nil
  rw [holds_emission] at hx
  exact (hold.of_find hx).trans (Option.some.inj ht)

theorem ReleaseRun.kept {id : UUID}
    (run : ReleaseRun (bookkeeping allow tenants) tenantId id g₀) :
    Bookkeeping (some tenantId) run.g.db run.tx.log := by
  have hread : run.gH.db.HoldOf tenantId run.hold.id :=
    ⟨run.hold, by rw [run.hold_id]; exact run.found, run.hold_tenant⟩
  have hold := rely_write holdOf_apply run.tail.rely hread
  rw [run.log]
  exact .quiet (by constructor <;> simp [Write.plain, Write.table])
    (fun t ht x hx => (hold.of_find hx).trans (Option.some.inj ht)) .nil

theorem ReverseRun.kept {id : UUID} {req : ReverseTransactionRequest}
    (run : ReverseRun (bookkeeping allow tenants) tenantId id req key g₀) (hbooks : Books g₀.db) :
    Bookkeeping (some tenantId) run.g.db run.tx.log := by
  have hadm := run.whole.admitted_at_commit stable
  have hread := ((run.lookup.trans run.readOriginal).trans run.readExisting).trans run.readPostings
  have hbooksQ := rely_books hread.rely hbooks
  -- the transaction is still there when its legs are read
  have hfound : run.gQ.db.transactions.find? id = some run.original :=
    rely_write (I := fun d => d.transactions.find? id = some run.original)
      (fun d w hd => by
        cases w with
        | insTransaction r => exact Table.find?_insert_of_some hd
        | _ => exact hd)
      (run.readExisting.trans run.readPostings).rely run.found
  have hkey : run.original.id = id := Table.key_of_find? hfound
  have howns : ∀ spec ∈ reversed run.postings run.gM.clock,
      run.gM.db.Owns tenantId spec.accountId := by
    intro spec hspec
    obtain ⟨p, hp, rfl⟩ := List.mem_map.mp hspec
    rw [← run.postings_eq, Database.mem_selectPostings] at hp
    have hp' := hbooksQ.owned _ (Table.mem_of_find? hfound) p (by simpa only [hkey] using hp)
    rw [run.original_tenant] at hp'
    exact rely_owns run.stamp.rely hp'
  have hrely := RG.rely_mono _ (List.nil_subset _)
    ((run.posted.progress.trans run.stamped).trans run.finish).rely
  have hws : run.ws = emission run.txn run.legs run.event ++ [.insRecord run.stored] := by
    simp [ReverseRun.ws, emission]
  rw [run.log, hws]
  rw [hws] at hadm
  have hemitted := run.posted.commits (rely_books run.stamp.rely hbooksQ) howns
    (by simp [run.txQ_log, NoNewSnapshot]) hrely
    (by simpa [run.txQ_log, emission] using hadm.left.left)
  rw [run.txQ_log, List.append_nil, replay_nil] at hemitted
  refine (hemitted.kept hadm.left fun spec hspec => rely_owns hrely (howns spec hspec)).append ?_
  exact kept_record rfl

/-- The events of a dispatch. -/
theorem kept_publish {d : Database} {time : Time} {events : List OutboxEvent}
    (h : ∀ e ∈ events, d.EventOf tenantId e.id) :
    Bookkeeping (some tenantId) d (events.map fun e => .publish e.id time) := by
  induction events generalizing d with
  | nil => exact .nil
  | cons e events ih =>
    obtain ⟨e₀, he₀, htenant⟩ := h e (by simp)
    refine .published (fun t ht row hrow => ?_) (ih fun e' he' => ?_)
    · rw [he₀] at hrow
      cases hrow
      exact htenant.trans (Option.some.inj ht)
    · exact eventOf_replay [.publish e.id time] (h e' (by simp [he']))

/-- The lines of an import. -/
theorem kept_lines {d : Database} {rows : List StatementLine} {id : UUID}
    (howns : d.ownsImport tenantId id = true) (h : ∀ row ∈ rows, row.importId = id) :
    Bookkeeping (some tenantId) d (rows.map .insLine) := by
  induction rows generalizing d with
  | nil => exact .nil
  | cons row rows ih =>
    refine .quiet (by constructor <;> simp [Write.plain, Write.table]) (fun t ht => ?_)
      (ih howns fun r hr => h r (by simp [hr]))
    rw [← Option.some.inj ht]
    show d.ownsImport tenantId row.importId = true
    rw [h row (by simp)]
    exact howns

theorem ImportRun.kept {raw : String} {lines : List ParsedLine}
    (run : ImportRun (bookkeeping allow tenants) tenantId raw lines g₀) :
    Bookkeeping (some tenantId) run.g.db run.tx.log := by
  have hadm := run.whole.admitted_at_commit stable
  have hlog : run.tx.log = .insImport run.row :: run.rows.map .insLine := by
    simpa using run.whole.log
  have hfind : (run.g.db.apply (.insImport run.row)).imports.find? run.row.id = some run.row :=
    Table.find?_insert_self (r := run.row) (Database.fresh_import hadm.head)
  rw [hlog]
  refine .quiet (by constructor <;> simp [Write.plain, Write.table])
    (fun t ht => run.tenant.trans (Option.some.inj ht)) (kept_lines ?_ run.rows_import)
  unfold Database.ownsImport
  rw [hfind]
  simpa using run.tenant

/-- **Every commit of every request** keeps the books, the events and the rows
    of other tenants, whatever the others do. -/
theorem keeps_bookkeeping (me : ι) (r : Request) (htenant : tenants me = r.tenant)
    (hbooks : Books g₀.db) (hproper : r.Proper g₀.db) :
    Keeps (bookkeeping allow tenants) me r g₀ := by
  have hcommit : ∀ {ws g' tx'}, Progress (bookkeeping allow tenants) ws g₀ {} g' tx' →
      Bookkeeping r.tenant g'.db tx'.log →
        (bookkeeping allow tenants).guar me tx' g' (g'.commit me tx') := by
    intro ws g' tx' hp hkept
    have hlog : tx'.log = ws := by simpa using hp.log
    exact ⟨⟨htenant ▸ hkept, hlog ▸ hp.admitted_at_commit stable⟩, hp.locked⟩
  unfold Keeps
  cases r with
  | openAccount tenantId req =>
    rw [Request.service, swp_map]
    refine swp_openAccount (mayRaise_trivial _ _) fun a g' tx' ha hp _ =>
      ⟨hcommit hp ?_, fun _ _ => trivial⟩
    rw [← ha.tenant] at hp
    have hlog : tx'.log = [.insAccount a, .insBalance ⟨a.id, a.tenantId, 0, 0, none⟩] := by
      simpa using hp.log
    rw [hlog]
    exact .opened a (congrArg some ha.tenant).symm (hp.admitted_at_commit stable) .nil
  | post tenantId specs memo =>
    rw [Request.service, swp_map]
    refine swp_postAndCommit (mayRaise_trivial _ _) fun txn legs event g₁ tx₁ g' tx' posted hp _ =>
      ⟨hcommit (posted.progress.trans hp) ?_, fun _ => trivial⟩
    have hadm := (posted.progress.trans hp).admitted_at_commit stable
    have hrely := RG.rely_mono _ (List.nil_subset _) (posted.progress.trans hp).rely
    have hlog : tx'.log = emission txn legs event := by
      simpa [emission] using (posted.progress.trans hp).log
    have hemitted := posted.commits hbooks hproper (by simp [NoNewSnapshot]) hrely
      (by simpa using hadm.left)
    rw [hlog]
    exact hemitted.kept (by simpa [emission] using hadm)
      fun spec hspec => rely_owns hrely (hproper spec hspec)
  | transfer tenantId req key =>
    rw [Request.service, swp_map]
    exact swp_executeTransfer (mayRaise_trivial _ _) (fun _ _ _ _ _ _ _ _ _ => trivial)
      fun run _ => ⟨hcommit run.whole (run.kept hbooks), trivial⟩
  | placeHold tenantId req key =>
    rw [Request.service, swp_map]
    refine swp_placeHold (mayRaise_trivial _ _) (fun _ _ _ _ _ _ _ _ _ => trivial)
      fun run _ => ⟨hcommit run.whole ?_, trivial⟩
    rw [run.log]
    refine .quiet ⟨by simp [Write.plain, Write.table], by simp [Write.table], fun r hr => ?_⟩
      (fun _ ht => run.hold_tenant.trans (Option.some.inj ht)) (kept_record rfl)
    cases hr
    exact ⟨run.hold_open.1, run.hold_open.2.1⟩
  | captureHold tenantId id req =>
    rw [Request.service, swp_map]
    exact swp_captureHold (mayRaise_trivial _ _) (fun _ _ _ _ _ _ _ _ _ _ _ _ => trivial)
      fun run _ => ⟨hcommit run.whole (run.kept hbooks), trivial⟩
  | releaseHold tenantId id =>
    rw [Request.service, swp_map]
    exact swp_releaseHold (mayRaise_trivial _ _) (fun _ _ _ _ _ _ _ _ _ _ _ _ => trivial)
      fun run _ => ⟨hcommit run.whole run.kept, fun _ _ _ _ _ => trivial⟩
  | reverse tenantId id req key =>
    rw [Request.service, swp_map]
    exact swp_reverseTransaction (mayRaise_trivial _ _) (fun _ _ _ _ _ _ _ _ _ => trivial)
      fun run _ => ⟨hcommit run.whole (run.kept hbooks), fun _ => trivial⟩
  | upsertRate tenantId req =>
    rw [Request.service, swp_map]
    refine swp_upsertRate (mayRaise_trivial _ _) fun row g' tx' _ hp _ =>
      ⟨hcommit hp ?_, fun _ => trivial⟩
    have hlog : tx'.log = [.insRate row] := by simpa using hp.log
    rw [hlog]
    exact .quiet (by constructor <;> simp [Write.plain, Write.table])
      (fun _ _ => trivial) .nil
  | dispatch tenantId limit =>
    rw [Request.service, swp_map]
    refine swp_dispatchPending (mayRaise_trivial _ _) (fun _ _ _ _ => trivial)
      fun g₁ tx₁ time g' tx' hp _ hp' _ => ⟨hcommit (hp.trans hp') ?_, fun _ => trivial⟩
    have hlog := (hp.trans hp').log
    rw [List.nil_append, List.nil_append] at hlog
    rw [hlog]
    -- a dispatch selects by tenant
    refine kept_publish fun e he => ?_
    obtain ⟨hmem, hselected⟩ := mem_events he
    exact rely_write (I := fun d => d.EventOf tenantId e.id)
      (fun d w hd => eventOf_replay [w] hd) hp'.rely
      ⟨e, Table.find?_of_mem hmem, hselected.1⟩
  | importStatement tenantId account raw lines =>
    rw [Request.service, swp_map]
    exact swp_importStatement (mayRaise_trivial _ _) (fun _ _ _ _ _ _ _ => trivial)
      fun run _ => ⟨hcommit run.whole run.kept, fun _ => trivial⟩
  | sweep minAge =>
    rw [Request.service, swp_map]
    refine swp_sweepOnce (mayRaise_trivial _ _) fun run _ =>
      ⟨hcommit run.whole ?_, fun _ _ => trivial⟩
    rw [run.log]
    exact .quiet (by constructor <;> simp [Write.plain, Write.table])
      (fun _ ht => by cases ht) .nil

end requests

end Ledger
