import Ledger.Framework.DoubleEntry
import Ledger.Properties.Commits
import Ledger.Runs.Replays

/-! # The Books in Every Interleaving

    Any number of requests, of any kind and interleaved in any way, started on
    a database whose books are in order.

    * **States**: `Attained`, by requests one by one and beside each other.
    * **Books**: they stay in order (`books_of_reachable`), and the deferred
      trigger of the database has nothing to reject (`trigger_passes`).
    * **Outbox**: its events go on telling the ledger.
    * **Double entry**: the database refines the ledger it stands for, whose
      journal only grows (`refines_double_entry`).
    * **Tenants**: a commit for one tenant leaves the rows of the others alone,
      and so does a request on its own (`tenant_writes_isolated`).
-/

namespace Ledger

open ReadCommitted

/-! ## Every Commit -/

section commits

variable [Runtime] {ι : Type} [DecidableEq ι] {requests : ι → Request} {d : Database} {clock : Time}
  {s s' : Sys ι Database Write Resource Err Reply}

omit [DecidableEq ι] in
/-- The requests are verified against each other. -/
theorem verified_bookkeeping (h : Books d) (hproper : ∀ i, (requests i).Proper d) :
    Verified (bookkeeping Sys.all fun i => (requests i).tenant) (serve requests d clock) :=
  .initial ⟨rfl, fun _ => rfl⟩ fun i => wp_program (P := fun _ _ _ => True)
    (keeps_bookkeeping i (requests i) rfl h (hproper i))

/-- Two states of a run, and the commits between them. -/
theorem kept_between (h : Books d) (hproper : ∀ i, (requests i).Proper d)
    (hr : Sys.Reachable Sys.all (serve requests d clock) s) (hr' : Sys.Reachable Sys.all s s') :
    ∃ cs, Logged (fun i tx g => Bookkeeping (requests i).tenant g.db tx.log ∧
      Admitted g.db tx.log) s.shared cs s'.shared := by
  have hsound := RG.logging_sound (D := Database) (R := Resource) (ι := ι) Sys.all
    fun i tx g => Bookkeeping (requests i).tenant g.db tx.log ∧ Admitted g.db tx.log
  obtain ⟨hv, -⟩ := (verified_bookkeeping h hproper).reachable hsound hr
  obtain ⟨-, cs, hlogged, -⟩ := hv.reachable hsound hr'
  exact ⟨cs, hlogged⟩

/-- **Every commit** of the commit log of verified sessions keeps the books. -/
theorem Verified.kept {α : Type} {tenants : ι → Option String}
    {s₀ s : Sys ι Database Write Resource Err α}
    (hv : Verified (bookkeeping Sys.all tenants) s₀) (hwal : s₀.shared.wal = [])
    (h : Books s₀.shared.db) (hr : Sys.Reachable Sys.all s₀ s) :
    s.shared.db = afterCommits s₀.shared.db s.shared.wal ∧
      ∀ es e es', s.shared.wal = es ++ e :: es' →
        Books (afterCommits s₀.shared.db es) ∧
          Bookkeeping (tenants e.who) (afterCommits s₀.shared.db es) e.writes := by
  obtain ⟨hdb, hcommits⟩ := commits_of_reachable hv hwal h
    (fun _ _ _ hkept hb => hkept.1.books hb) hr
  refine ⟨hdb, fun es e es' heq => ?_⟩
  obtain ⟨hbooks, tx, g, hlog, hg, hkept, -⟩ := hcommits es e es' heq
  exact ⟨hbooks, hlog ▸ hg ▸ hkept⟩

/-- Of requests in particular. -/
theorem kept_of_wal (h : Books d) (hproper : ∀ i, (requests i).Proper d)
    (hr : Sys.Reachable Sys.all (serve requests d clock) s) :
    s.shared.db = afterCommits d s.shared.wal ∧
      ∀ es e es', s.shared.wal = es ++ e :: es' →
        Books (afterCommits d es) ∧
          Bookkeeping (requests e.who).tenant (afterCommits d es) e.writes :=
  Verified.kept (verified_bookkeeping h hproper) rfl h hr

theorem Books.reachable (h : Books d) (hproper : ∀ i, (requests i).Proper d)
    (hr : Sys.Reachable Sys.all (serve requests d clock) s) : Books s.shared.db :=
  invariant_of_reachable (verified_bookkeeping h hproper) h
    (fun _ _ _ hkept hbooks => hkept.1.books hbooks) hr

theorem Books.script (h : Books d) {rs : List (Request × Env)}
    (hrs : Admissible (fun d r => r.Proper d) d rs) : Books (script rs d) := by
  induction rs generalizing d with
  | nil => exact h
  | cons r rs ih => exact ih (h.executed hrs.1 r.2) hrs.2

end commits

/-! ## States -/

section states

variable [Runtime]

/-- The states of the service: after requests one by one, each on what the one
    before it has left, and in the middle of any that run beside each other. -/
inductive Attained : Database → Prop where
  | empty : Attained .empty
  | alone {d : Database} (r : Request) (env : Env) (h : Attained d) (hproper : r.Proper d) :
      Attained (r.executed env d).2
  | beside {ι : Type} [DecidableEq ι] {requests : ι → Request} {d : Database} {clock : Time}
      {s : Sys ι Database Write Resource Err Reply} (h : Attained d)
      (hproper : ∀ i, (requests i).Proper d)
      (hr : Sys.Reachable Sys.all (serve requests d clock) s) : Attained s.shared.db

theorem Reached.attained {d : Database} (h : Reached (fun d r => r.Proper d) d) : Attained d := by
  induction h with
  | empty => exact .empty
  | step r env _ hproper ih => exact .alone r env ih hproper

theorem Attained.books {d : Database} (h : Attained d) : Books d := by
  induction h with
  | empty => exact .empty
  | alone r env _ hproper ih => exact ih.executed hproper env
  | beside _ hproper hr ih => exact ih.reachable hproper hr

/-- A hold is inserted on an account of its tenant, and a record as the one of
    an executed request. -/
def Write.Made (d : Database) : Write → Prop
  | .insHold x => d.Owns x.tenantId x.accountId
  | .insRecord rec => ∃ r reply, Request.Stores r reply rec
  | _ => True

theorem Write.made_of_table {d : Database} {w : Write} (hrecords : w.table ≠ .records)
    (hholds : w.table ≠ .holds) : w.Made d := by
  cases w with
  | insRecord r => exact absurd rfl hrecords
  | insHold x => exact absurd rfl hholds
  | _ => trivial

theorem Write.made_of_emission {d : Database} {txn : Transaction} {legs : List Leg}
    {event : OutboxEvent} {w : Write} (hw : w ∈ emission txn legs event) : w.Made d := by
  rcases table_emission hw with h | h | h | h <;> exact made_of_table (by simp [h]) (by simp [h])

/-- The others insert holds and records so. -/
abbrev making (ι : Type) : RG ι Database Write Resource :=
  .logging Sys.all fun _ tx g => ∀ w ∈ tx.log, w.Made g.db

/-- **Every commit of every request** inserts holds and records so. -/
theorem keeps_made {ι : Type} (me : ι) (r : Request) {g₀ : Shared ι Database Write} :
    Keeps (making ι) me r g₀ := by
  have hcommit : ∀ {ws g' tx'}, Progress (making ι) ws g₀ {} g' tx' →
      (∀ w ∈ ws, w.Made g'.db) → (making ι).guar me tx' g' (g'.commit me tx') := by
    intro ws g' tx' hp hws
    have hlog : tx'.log = ws := by simpa using hp.log
    exact ⟨fun w hw => hws w (hlog ▸ hw), hp.locked⟩
  unfold Keeps
  cases r with
  | openAccount tenantId req =>
    rw [Request.service, swp_map]
    exact swp_openAccount (mayRaise_trivial _ _) fun a g' tx' _ hp _ =>
      ⟨hcommit hp (by simp [Write.Made]), fun _ _ => trivial⟩
  | post tenantId specs memo =>
    rw [Request.service, swp_map]
    refine swp_postAndCommit (mayRaise_trivial _ _) fun txn legs event g₁ tx₁ g' tx' posted hp _ =>
      ⟨hcommit (posted.progress.trans hp) fun w hw => ?_, fun _ => trivial⟩
    exact Write.made_of_emission (by simpa [emission] using hw)
  | transfer tenantId req key =>
    rw [Request.service, swp_map]
    refine swp_executeTransfer (mayRaise_trivial _ _) (fun _ _ _ _ _ _ _ _ _ => trivial)
      fun run _ => ⟨hcommit run.whole fun w hw => ?_, trivial⟩
    rcases List.mem_append.mp hw with hw | hw
    · rcases run.moved.tables.2 w hw with h | h | h | h <;>
        exact Write.made_of_table (by simp [h]) (by simp [h])
    · simp only [List.mem_cons, List.not_mem_nil, or_false] at hw
      rcases hw with rfl | rfl
      · trivial
      · exact ⟨_, _, .transfer tenantId req key run.response run.gR.clock⟩
  | placeHold tenantId req key =>
    rw [Request.service, swp_map]
    refine swp_placeHold (mayRaise_trivial _ _) (fun _ _ _ _ _ _ _ _ _ => trivial)
      fun run _ => ⟨hcommit run.whole fun w hw => ?_, trivial⟩
    simp only [List.mem_cons, List.not_mem_nil, or_false] at hw
    rcases hw with rfl | rfl
    · -- the account was there when it was read, and accounts stay
      have howns : run.gS.db.Owns tenantId req.accountId :=
        ⟨run.account, run.account_eq.1, run.account_eq.2.1⟩
      show run.g.db.Owns run.hold.tenantId run.hold.accountId
      rw [run.hold_tenant, run.hold_account]
      exact rely_write (I := fun d => d.Owns tenantId req.accountId) (fun _ _ hd => owns_apply hd)
        (run.funds.progress.trans run.tail).rely howns
    · exact ⟨_, _, .placeHold tenantId req key run.response run.gR.clock⟩
  | captureHold tenantId id req =>
    rw [Request.service, swp_map]
    refine swp_captureHold (mayRaise_trivial _ _) (fun _ _ _ _ _ _ _ _ _ _ _ _ => trivial)
      fun run _ => ⟨hcommit run.whole fun w hw => ?_, trivial⟩
    have hws : run.ws = emission run.txn run.legs run.event ++
        [.captureHold run.hold.id run.txn.id run.amount run.gM.clock] := by
      simp [CaptureRun.ws, emission]
    rw [hws] at hw
    rcases List.mem_append.mp hw with hw | hw
    · exact Write.made_of_emission hw
    · rw [List.mem_singleton.mp hw]
      trivial
  | releaseHold tenantId id =>
    rw [Request.service, swp_map]
    exact swp_releaseHold (mayRaise_trivial _ _) (fun _ _ _ _ _ _ _ _ _ _ _ _ => trivial)
      fun run _ => ⟨hcommit run.whole (by simp [Write.Made]), fun _ _ _ _ _ => trivial⟩
  | reverse tenantId id req key =>
    rw [Request.service, swp_map]
    refine swp_reverseTransaction (mayRaise_trivial _ _) (fun _ _ _ _ _ _ _ _ _ => trivial)
      fun run _ => ⟨hcommit run.whole fun w hw => ?_, fun _ => trivial⟩
    have hws : run.ws = emission run.txn run.legs run.event ++ [.insRecord run.stored] := by
      simp [ReverseRun.ws, emission]
    rw [hws] at hw
    rcases List.mem_append.mp hw with hw | hw
    · exact Write.made_of_emission hw
    · rw [List.mem_singleton.mp hw]
      exact ⟨_, _, .reverse tenantId id req key run.response run.gR.clock⟩
  | upsertRate tenantId req =>
    rw [Request.service, swp_map]
    exact swp_upsertRate (mayRaise_trivial _ _) fun row g' tx' _ hp _ =>
      ⟨hcommit hp (by simp [Write.Made]), fun _ => trivial⟩
  | dispatch tenantId limit =>
    rw [Request.service, swp_map]
    exact swp_dispatchPending (mayRaise_trivial _ _) (fun _ _ _ _ => trivial)
      fun g₁ tx₁ time g' tx' hp _ hp' _ =>
        ⟨hcommit (hp.trans hp') (by simp [Write.Made]), fun _ => trivial⟩
  | importStatement tenantId account raw lines =>
    rw [Request.service, swp_map]
    exact swp_importStatement (mayRaise_trivial _ _) (fun _ _ _ _ _ _ _ => trivial)
      fun run _ => ⟨hcommit run.whole (by simp [Write.Made]), fun _ => trivial⟩
  | sweep minAge =>
    rw [Request.service, swp_map]
    exact swp_sweepOnce (mayRaise_trivial _ _) fun run _ =>
      ⟨hcommit run.whole (by simp [Write.Made]), fun _ _ => trivial⟩

/-- What such commits keep holds in every state of an interleaving. -/
theorem made_invariant {ι : Type} [DecidableEq ι] {requests : ι → Request} {d : Database}
    {clock : Time} {s : Sys ι Database Write Resource Err Reply} {I : Database → Prop} (h : I d)
    (hstep : ∀ d ws, (∀ w ∈ ws, Write.Made d w) → I d → I (replay d ws))
    (hr : Sys.Reachable Sys.all (serve requests d clock) s) : I s.shared.db := by
  have hv : Verified (making ι) (serve requests d clock) := .initial ⟨rfl, fun _ => rfl⟩ fun i =>
    wp_program (P := fun _ _ _ => True) (keeps_made i (requests i))
  exact invariant_of_reachable hv h (fun _ _ _ hmade hd => hstep _ _ hmade hd) hr

end states

/-! ## A Sample Interleaving -/

open Sample

/-- A payment, the reversal of what funded it, and an account of another tenant. -/
def crossing : Fin 3 → Request
  | 0 => pay bob 60 "t1" sixty_pos
  | 1 => reverse funding "r1"
  | 2 => .openAccount "globex" ⟨"users.dave", "dave", .CREDIT, .USD⟩

theorem crossing_proper : ∀ i, (crossing i).Proper funded
  | 0 => trivial
  | 1 => trivial
  | 2 => trivial

theorem books_funded : Books funded := Books.empty.script (by decide +kernel)

/-- The payment has checked the funds when the other two commit. -/
theorem crossing_run : ∃ s, Sys.Reachable Sys.all (serve crossing funded 0) s ∧
    s.shared.wal.map Entry.who = [1, 2, 0] := by
  obtain ⟨s, hr, hp⟩ := Sys.Reachable.of_exec (s := serve crossing funded 0)
    (Sys.turns 0 2000 8 ++ Sys.turns 1 3000 40 ++ Sys.turns 2 4000 10 ++ Sys.turns 0 2100 40)
    (fun s => s.shared.wal.map Entry.who == [1, 2, 0]) (by decide +kernel)
  exact ⟨s, hr, by simpa using hp⟩

/-! ## Books -/

section books

variable {d : Database}

/-- The postings under one transaction id sum to zero. -/
theorem Books.net (h : Books d) (id : UUID) :
    ((d.postingsOf id).map Posting.amount).sum = 0 := by
  cases hfind : d.postingsOf id with
  | nil => rfl
  | cons p ps =>
    have hp : p ∈ d.postingsOf id := by simp [hfind]
    obtain ⟨hmem, hid⟩ := List.mem_filter.mp hp
    obtain ⟨t, ht, htp⟩ := h.attached p hmem
    rw [← hfind, ← decide_eq_true_eq.mp hid, ← htp]
    exact (h.balanced t ht).2

/-- What the trigger function raises. -/
inductive TriggerError where
  /-- The net amount does not fit the variable `net`. -/
  | outOfRange
  | unbalanced (msg : String)

/-- `assert_transaction_balances()`, for the row `new`. -/
def Database.assertTransactionBalances (d : Database) (new : Posting) : Except TriggerError Unit :=
  let net := ((d.postingsOf new.transactionId).map Posting.amount).sum
  if Database.bigint net = false then .error .outOfRange
  else if net ≠ 0 then
    .error (.unbalanced s!"transaction {new.transactionId.str} is unbalanced (net={net})")
  else .ok ()

/-- The deferred trigger: at the commit it is called for every row that the
    transaction inserted, on the rows the commit leaves. -/
def Database.deferred (d : Database) (ws : List Write) : Except TriggerError Unit :=
  (insertedPostings ws).forM (replay d ws).assertTransactionBalances

theorem Books.assertTransactionBalances (h : Books d) (new : Posting) :
    d.assertTransactionBalances new = .ok () := by
  unfold Database.assertTransactionBalances
  rw [h.net]
  rfl

/-- Books in order give the trigger nothing to reject. -/
theorem Books.deferred {ws : List Write} (h : Books (replay d ws)) : d.deferred ws = .ok () := by
  unfold Database.deferred
  induction insertedPostings ws with
  | nil => rfl
  | cons p ps ih =>
    show (do (replay d ws).assertTransactionBalances p; ps.forM _) = .ok ()
    rw [h.assertTransactionBalances]
    exact ih

variable {ι : Type} [DecidableEq ι] {requests : ι → Request} {clock : Time}
  {s : Sys ι Database Write Resource Err Reply}

/-- **The books** are in order in every state of every interleaving. -/
theorem books_of_reachable [Runtime] (h : Books d) (hproper : ∀ i, (requests i).Proper d)
    (hr : Sys.Reachable Sys.all (serve requests d clock) s) : Books s.shared.db :=
  h.reachable hproper hr

/-- The three requests, the payment last. -/
theorem books_of_reachable_crossing : ∃ s,
    Sys.Reachable Sys.all (serve crossing funded 0) s ∧
      s.shared.wal.map Entry.who = [1, 2, 0] ∧ Books s.shared.db := by
  obtain ⟨s, hr, hwho⟩ := crossing_run
  exact ⟨s, hr, hwho, books_of_reachable books_funded crossing_proper hr⟩

/-- **The deferred trigger** rejects no commit of any interleaving. -/
theorem trigger_passes [Runtime] (h : Books d) (hproper : ∀ i, (requests i).Proper d)
    (hr : Sys.Reachable Sys.all (serve requests d clock) s) {es es' : List (Entry ι Write)}
    {e : Entry ι Write} (hwal : s.shared.wal = es ++ e :: es') :
    (afterCommits d es).deferred e.writes = .ok () := by
  obtain ⟨hbooks, hkept⟩ := (kept_of_wal h hproper hr).2 es e es' hwal
  exact (hkept.books hbooks).deferred

/-- The trigger at the first of the three commits, the reversal. -/
theorem trigger_passes_crossing : ∃ s e es',
    Sys.Reachable Sys.all (serve crossing funded 0) s ∧ s.shared.wal = e :: es' ∧
      e.who = 1 ∧ funded.deferred e.writes = .ok () := by
  obtain ⟨s, hr, hwho⟩ := crossing_run
  obtain ⟨e, es', hwal, he, -⟩ := List.map_eq_cons_iff.mp hwho
  have hpass := trigger_passes books_funded crossing_proper hr
    (show s.shared.wal = [] ++ e :: es' from hwal)
  rw [afterCommits_nil] at hpass
  exact ⟨s, e, es', hr, hwal, he, hpass⟩

/-- **The outbox** tells the ledger in every state of every interleaving. -/
theorem reconstructs_of_reachable [Runtime] (h : Books d) (htold : Told d)
    (hproper : ∀ i, (requests i).Proper d)
    (hr : Sys.Reachable Sys.all (serve requests d clock) s) : Reconstructs s.shared.db := by
  have htold' : Told s.shared.db :=
    invariant_of_reachable (verified_bookkeeping h hproper) htold
      (fun _ _ _ hkept ht => hkept.1.told ht) hr
  exact htold'.reconstructs

theorem reconstructs_of_reachable_crossing : ∃ s,
    Sys.Reachable Sys.all (serve crossing funded 0) s ∧
      s.shared.wal.map Entry.who = [1, 2, 0] ∧ Reconstructs s.shared.db := by
  obtain ⟨s, hr, hwho⟩ := crossing_run
  have hreached : Reached (fun d r => r.Proper d) funded := Reached.empty.script (by decide +kernel)
  have htold := told_of_reached hreached
  exact ⟨s, hr, hwho, reconstructs_of_reachable books_funded htold crossing_proper hr⟩

end books

/-! ## Double Entry -/

section refinement

open DoubleEntry (Entry)

/-- The ledger the database stands for. -/
def Database.ledger (d : Database) : DoubleEntry.Ledger String UUID Int where
  owner a := (d.accounts.find? a).map Account.tenantId
  journal := d.transactions.rows.map fun t =>
    ⟨t.tenantId, (d.postingsOf t.id).map fun p => (p.accountId, p.amount)⟩

variable {d d' : Database}

theorem ledger_congr (haccounts : d'.accounts = d.accounts)
    (htransactions : d'.transactions = d.transactions) (hpostings : d'.postings = d.postings) :
    d'.ledger = d.ledger := by
  unfold Database.ledger Database.postingsOf
  rw [haccounts, htransactions, hpostings]

/-- Books in order stand for a sound ledger. -/
theorem Books.sound (h : Books d) : d.ledger.Sound := by
  intro e he
  obtain ⟨t, ht, rfl⟩ := List.mem_map.mp he
  refine ⟨?_, fun l hl => ?_⟩
  · simpa [DoubleEntry.Entry.Balanced, Function.comp_def] using (h.balanced t ht).2
  · obtain ⟨p, hp, rfl⟩ := List.mem_map.mp hl
    obtain ⟨a, ha, hat⟩ := h.owned t ht p hp
    simp [Database.ledger, ha, hat]

/-- The balance of an account in the ledger is the sum of its postings. -/
theorem Books.ledger_balance (h : Books d) (a : UUID) : d.ledger.balance a = d.recompute a := by
  have hgroup := Table.sum_by_key d.transactions
    (d.postings.rows.filter fun p => p.accountId = a) Posting.transactionId Posting.amount
    fun p hp => h.attached p (List.mem_filter.mp hp).1
  show _ = ((d.postings.rows.filter fun p => p.accountId = a).map Posting.amount).sum
  rw [hgroup]
  unfold DoubleEntry.Ledger.balance Database.ledger
  rw [List.map_map]
  refine congrArg List.sum (List.map_congr_left fun t _ => ?_)
  show ((((d.postingsOf t.id).map fun p => (p.accountId, p.amount)).filter
    fun l => l.1 = a).map Prod.snd).sum = _
  rw [List.filter_map, List.map_map, Database.postingsOf, List.filter_comm]
  rfl

/-- The ledger after one call of the engine. -/
theorem Block.ledger {tenantId : String} {specs : List PostingSpec} {c : Option UUID}
    {txn : Transaction} {legs : List Leg} (hbooks : Books d)
    (hblock : Block d tenantId specs c txn legs) :
    (replay d (.insTransaction txn :: legWrites legs)).ledger =
      { d.ledger with journal := d.ledger.journal ++
          [⟨tenantId, (legs.map Leg.posting).map fun p => (p.accountId, p.amount)⟩] } := by
  obtain ⟨haccounts, htransactions, -, -⟩ := hblock.rows
  unfold Database.ledger
  rw [haccounts, htransactions, List.map_append, List.map_singleton,
    hbooks.postingsOf_new hblock, hblock.tenant]
  refine congrArg (fun js => (⟨_, js ++ _⟩ : DoubleEntry.Ledger String UUID Int)) ?_
  exact List.map_congr_left fun t ht => by rw [hblock.postingsOf_old ht]

/-- **Simulation**: what a commit publishes is a run of the ledger. -/
theorem Bookkeeping.simulates [Runtime] {tenant : Option String} {ws : List Write}
    (h : Bookkeeping tenant d ws) (hbooks : Books d) : d.ledger.Steps (replay d ws).ledger := by
  induction h with
  | nil => exact .refl
  | @quiet d w _ hquiet _ _ ih =>
    obtain ⟨haccounts, -, htransactions, hpostings⟩ := hquiet.plain
    have hsame : (d.apply w).ledger = d.ledger := ledger_congr (Database.apply_accounts haccounts)
      (Database.apply_transactions htransactions) (Database.apply_postings hpostings)
    exact hsame ▸ ih (hbooks.plain hquiet.plain)
  | published _ _ ih => exact ih (hbooks.plain (by simp [Write.plain, Write.table]))
  | @opened d _ a _ hadm _ ih =>
    refine .head ?_ (ih (hbooks.opened a hadm))
    have hfresh : d.accounts.find? a.id = none := Database.fresh_account hadm.head
    -- the new account is known under its owner, the others as before
    have howner : (replay d [.insAccount a, .insBalance ⟨a.id, a.tenantId, 0, 0, none⟩]).ledger =
        { d.ledger with owner := Function.update d.ledger.owner a.id (some a.tenantId) } := by
      refine congrArg (fun o => (⟨o, d.ledger.journal⟩ : DoubleEntry.Ledger String UUID Int)) ?_
      funext x
      show ((d.accounts.insert a).find? x).map Account.tenantId = _
      by_cases hx : a.id = x
      · subst hx
        have hself : (d.accounts.insert a).find? a.id = some a := Table.find?_insert_self hfresh
        rw [hself, Function.update_self]
        rfl
      · rw [Table.find?_insert_of_ne (r := a) hx, Function.update_of_ne fun heq => hx heq.symm]
        rfl
    rw [howner]
    exact .opened a.id a.tenantId (by simp [Database.ledger, hfresh])
  | @emitted d t specs memo c txn legs event ws _ hpost hadm howns _ ih =>
    rw [replay_append]
    have hposted := (hbooks.posted hpost.block howns).plain (plain_insOutbox event)
    rw [emission, replay_append] at ih ⊢
    refine .head ?_ (ih hposted)
    -- the event is no part of the ledger
    have hledger := hpost.block.ledger hbooks
    have hsame : (replay (replay d (.insTransaction txn :: legWrites legs))
        [.insOutbox event]).ledger = (replay d (.insTransaction txn :: legWrites legs)).ledger :=
      ledger_congr rfl rfl rfl
    rw [hsame, hledger]
    refine .posted _ ⟨?_, fun l hl => ?_⟩
    · have hamounts := Leg.Of.amounts hpost.block.carried
      have hzero := hpost.block.zero
      rw [← hamounts] at hzero
      simpa [DoubleEntry.Entry.Balanced, Function.comp_def] using hzero
    · obtain ⟨p, hp, rfl⟩ := List.mem_map.mp hl
      obtain ⟨leg, hleg, rfl⟩ := List.mem_map.mp hp
      obtain ⟨spec, hspec, hof⟩ := Leg.Of.exists_spec hpost.block.carried hleg
      obtain ⟨a, ha, hat⟩ := howns spec hspec
      simp [Database.ledger, hof.account, ha, hat]

/-- The snapshots are the balances of the ledger. -/
theorem Books.snapshots (h : Books d) {a : Account} (ha : a ∈ d.accounts.rows) :
    ∃ b, d.balances.find? a.id = some b ∧ b.tenantId = a.tenantId ∧
      b.balance = d.ledger.balance a.id := by
  obtain ⟨b, hb, hbt, hmirrors⟩ := h.snapshot a ha
  exact ⟨b, Table.find?_of_filter_key hb, hbt, by rw [hmirrors.balance, h.ledger_balance]⟩

/-- The snapshots of a tenant's accounts, summed. -/
def Database.trialBalance (d : Database) (tenantId : String) : Int :=
  ((d.accounts.rows.filter fun a => a.tenantId = tenantId).map fun a =>
    ((d.balances.find? a.id).map AccountBalance.balance).getD 0).sum

theorem Books.trialBalance (h : Books d) (tenantId : String) : d.trialBalance tenantId = 0 := by
  -- the ids of the tenant's accounts, each of them once
  let ids := (d.accounts.rows.filter fun a => a.tenantId = tenantId).map Account.id
  have hnodup : ids.Nodup :=
    List.Nodup.sublist (List.Sublist.map _ List.filter_sublist) d.accounts.nodup
  have hids : ∀ x, x ∈ ids.toFinset ↔ d.ledger.owner x = some tenantId := by
    intro x
    rw [List.mem_toFinset]
    show x ∈ ids ↔ (d.accounts.find? x).map Account.tenantId = some tenantId
    simp only [ids, List.mem_map, List.mem_filter, decide_eq_true_eq, Option.map_eq_some_iff,
      Table.find?_eq_some_iff, and_right_comm]
    rfl
  have hsum := h.sound.trial_balance hids
  rw [List.sum_toFinset _ hnodup, List.map_map] at hsum
  rw [Database.trialBalance, ← hsum]
  refine congrArg List.sum (List.map_congr_left fun a ha => ?_)
  obtain ⟨b, hb, -, hbalance⟩ := h.snapshots (List.mem_of_mem_filter ha)
  rw [hb]
  exact hbalance

variable {ι : Type} [DecidableEq ι] {requests : ι → Request} {clock : Time}
  {s s' : Sys ι Database Write Resource Err Reply}

omit [DecidableEq ι] in
theorem Logged.simulates [Runtime] {g g' : Shared ι Database Write}
    {cs : List (Commit ι Write Resource)}
    (h : Logged (fun i tx g => Bookkeeping (requests i).tenant g.db tx.log ∧
      Admitted g.db tx.log) g cs g')
    (hbooks : Books g.db) : g.db.ledger.Steps g'.db.ledger := by
  have hboth := h.invariant (I := fun d => Books d ∧ g.db.ledger.Steps d.ledger) ⟨hbooks, .refl⟩
    fun _ _ _ hkept hI => ⟨hkept.1.books hI.1, hI.2.trans (hkept.1.simulates hI.1)⟩
  exact hboth.2

/-- **Refinement**: between any two states of any interleaving, the database
    moves as a double-entry ledger does, so that its journal only grows; its
    snapshots are the balances of that ledger, and those of a tenant sum to
    zero. -/
theorem refines_double_entry [Runtime] (h : Books d) (hproper : ∀ i, (requests i).Proper d)
    (hr : Sys.Reachable Sys.all (serve requests d clock) s) (hr' : Sys.Reachable Sys.all s s') :
    s.shared.db.ledger.Steps s'.shared.db.ledger ∧
      s.shared.db.ledger.journal <+: s'.shared.db.ledger.journal ∧
      (∀ a ∈ s'.shared.db.accounts.rows, ∃ b, s'.shared.db.balances.find? a.id = some b ∧
        b.tenantId = a.tenantId ∧ b.balance = s'.shared.db.ledger.balance a.id) ∧
      ∀ tenantId, s'.shared.db.trialBalance tenantId = 0 := by
  obtain ⟨cs₀, hlogged₀⟩ := kept_between h hproper .init hr
  obtain ⟨cs, hlogged⟩ := kept_between h hproper hr hr'
  have hbooks : Books s.shared.db := hlogged₀.invariant h fun _ _ _ hkept hb => hkept.1.books hb
  have hbooks' : Books s'.shared.db := hlogged.invariant hbooks fun _ _ _ hk hb => hk.1.books hb
  have hsteps := Logged.simulates hlogged hbooks
  exact ⟨hsteps, (hbooks.sound.steps hsteps).2, fun a ha => hbooks'.snapshots ha,
    hbooks'.trialBalance⟩

theorem refines_double_entry_crossing : ∃ s,
    Sys.Reachable Sys.all (serve crossing funded 0) s ∧
      s.shared.wal.map Entry.who = [1, 2, 0] ∧
      funded.ledger.Steps s.shared.db.ledger ∧
      ∀ tenantId, s.shared.db.trialBalance tenantId = 0 := by
  obtain ⟨s, hr, hwho⟩ := crossing_run
  obtain ⟨hsteps, -, -, htrial⟩ := refines_double_entry books_funded crossing_proper .init hr
  exact ⟨s, hr, hwho, hsteps, htrial⟩

end refinement

/-! ## Tenants -/

section tenants

variable {ι : Type} {requests : ι → Request} {d : Database} {clock : Time}
  {s : Sys ι Database Write Resource Err Reply}

/-- **A commit for one tenant** leaves the rows of every other as they are, and
    adds no posting on their accounts. -/
theorem Bookkeeping.isolated [Runtime] {t other : String} {e : Entry ι Write}
    {es : List (Entry ι Write)} (h : Bookkeeping (some t) (afterCommits d es) e.writes)
    (hne : t ≠ other) :
    (afterCommits d (es ++ [e])).ownedBy other = (afterCommits d es).ownedBy other ∧
      ∀ p ∈ (afterCommits d (es ++ [e])).postings.rows, p ∉ (afterCommits d es).postings.rows →
        ¬ (afterCommits d (es ++ [e])).Owns other p.accountId := by
  have hafter : afterCommits d (es ++ [e]) = replay (afterCommits d es) e.writes := by
    rw [afterCommits_append, afterCommits_cons, afterCommits_nil]
  rw [hafter]
  exact h.writesOf.others hne

/-- **Tenant isolation under concurrency**, in the commit log of any interleaving. -/
theorem commits_isolated [Runtime] [DecidableEq ι] (h : Books d)
    (hproper : ∀ i, (requests i).Proper d)
    (hr : Sys.Reachable Sys.all (serve requests d clock) s) :
    s.shared.db = afterCommits d s.shared.wal ∧
      ∀ es e es' t other, s.shared.wal = es ++ e :: es' →
        (requests e.who).tenant = some t → t ≠ other →
        (afterCommits d (es ++ [e])).ownedBy other = (afterCommits d es).ownedBy other ∧
        ∀ p ∈ (afterCommits d (es ++ [e])).postings.rows, p ∉ (afterCommits d es).postings.rows →
          ¬ (afterCommits d (es ++ [e])).Owns other p.accountId := by
  obtain ⟨hdb, hcommits⟩ := kept_of_wal h hproper hr
  refine ⟨hdb, fun es e es' t other hwal htenant hne => ?_⟩
  obtain ⟨-, hkept⟩ := hcommits es e es' hwal
  rw [htenant] at hkept
  exact hkept.isolated hne

/-- The first commit is for one tenant and leaves the other alone. -/
theorem commits_isolated_crossing : ∃ s e es',
    Sys.Reachable Sys.all (serve crossing funded 0) s ∧ s.shared.wal = e :: es' ∧
      e.who = 1 ∧ (afterCommits funded [e]).ownedBy "globex" =
        funded.ownedBy "globex" := by
  obtain ⟨s, hr, hwho⟩ := crossing_run
  obtain ⟨e, es', hwal, he, -⟩ := List.map_eq_cons_iff.mp hwho
  have htenant : (crossing e.who).tenant = some "acme" := by rw [he]; rfl
  have hisolated := (commits_isolated books_funded crossing_proper hr).2 [] e es' "acme" "globex"
    hwal htenant (by decide)
  exact ⟨s, e, es', hr, hwal, he, hisolated.1⟩

/-- **Tenant write isolation**: a request leaves the rows of every other tenant
    as they are, and adds no posting on an account of another tenant. -/
theorem tenant_writes_isolated [Runtime] (h : Attained d) (r : Request) (env : Env)
    (hproper : r.Proper d) {tenantId other : String} (htenant : r.tenant = some tenantId)
    (hne : tenantId ≠ other) :
    (r.executed env d).2.ownedBy other = d.ownedBy other ∧
      ∀ p ∈ (r.executed env d).2.postings.rows, p ∉ d.postings.rows →
        ¬ (r.executed env d).2.Owns other p.accountId := by
  obtain ⟨ws, hout, hadm, hafter⟩ := executed_outcome r env d
  rw [hafter]
  exact (hout.writesOf h.books hproper htenant hadm).others hne

/-- The sample ledger beside an account of another tenant. -/
def neighbours : Database :=
  script (setup ++ [(.openAccount "globex" ⟨"users.dave", "dave", .CREDIT, .USD⟩, envAt 0 1100)])
    .empty

/-- A payment within one tenant, seen from the other. -/
theorem tenant_writes_isolated_payment :
    ((pay bob 60 "t1" (by decide)).executed (envAt 0 2000) neighbours).2.postings.rows.length = 4 ∧
    ((pay bob 60 "t1" (by decide)).executed (envAt 0 2000) neighbours).2.ownedBy "globex" =
      neighbours.ownedBy "globex" ∧
    ∀ p ∈ ((pay bob 60 "t1" (by decide)).executed (envAt 0 2000) neighbours).2.postings.rows,
      p ∉ neighbours.postings.rows →
        ¬ ((pay bob 60 "t1" (by decide)).executed (envAt 0 2000) neighbours).2.Owns "globex"
          p.accountId :=
  ⟨by decide +kernel, tenant_writes_isolated (d := neighbours)
    (Reached.empty.script (by decide +kernel)).attained (pay bob 60 "t1" (by decide)) (envAt 0 2000)
    trivial rfl (by decide)⟩

end tenants

end Ledger
