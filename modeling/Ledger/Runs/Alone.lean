import Ledger.Runs.IdentityMap
import Ledger.Framework.Solo

/-! # Services Alone, Exactly

    What a service does when it runs alone is a function of the database and
    the environment, the errors included.

    * **Points**: where a service stands, `Returns` and `Fails`.
    * **Rows**: `Sends`, a service that goes on if the database admits its
      rows and otherwise raises what the database answers.
    * **Engine**: the rows one call sends, read off the environment.
-/

namespace Ledger

open ReadCommitted

/-- What the database answers to a row it does not take. -/
def Err.rejection : Err → Bool
  | .integrityError | .dataError => true
  | _ => false

/-- A check that can only fail with an answer of the database. -/
def Rejects (x : Except Err Unit) : Prop := ∀ e, x = .error e → e.rejection = true

theorem rejects_ok : Rejects (.ok ()) := by
  intro e h
  cases h

theorem rejects_require (b : Bool) {e : Err} (he : e.rejection = true) :
    Rejects (Database.require b e) := by
  intro e' h
  cases b with
  | true => cases h
  | false =>
    cases h
    exact he

theorem Rejects.bind {x y : Except Err Unit} (hx : Rejects x) (hy : Rejects y) :
    Rejects (do x; y) := by
  intro e h
  cases x with
  | error e' => exact hx e h
  | ok u => exact hy e h

/-- What a statement raises is an answer of the database. -/
theorem rejects_constrain (d : Database) (w : Write) : Rejects (d.constrain w) := by
  have hdata : ∀ b, Rejects (Database.require b .dataError) := fun b => rejects_require b rfl
  have hkey : ∀ b, Rejects (Database.require b .integrityError) := fun b => rejects_require b rfl
  cases w with
  | insAccount | insRecord => exact hkey _
  | insTransaction | insOutbox => exact (hkey _).bind (hkey _)
  | insBalance | insHold | insLine => exact (hdata _).bind ((hkey _).bind (hkey _))
  | insPosting => exact (hdata _).bind ((hkey _).bind ((hkey _).bind (hkey _)))
  | insRate | captureHold => exact (hdata _).bind (hkey _)
  | insImport => exact (hkey _).bind (hkey _)
  | bump => exact hdata _
  | releaseHold | publish | deleteRecords => exact rejects_ok

/-! ## Points -/

/-- Where a service that runs alone stands. -/
structure Point where
  orm : OrmSession := {}
  node : Nat := 0
  db : Database
  tx : Tx Write Resource := {}

/-- The database as the transaction sees it. -/
def Point.view (p : Point) : Database := replay p.db p.tx.log

/-- After a node that is no statement. -/
def Point.next (p : Point) : Point := { p with node := p.node + 1 }

/-- After a statement that writes nothing. -/
def Point.read (env : Env) (p : Point) : Point :=
  { p with node := p.node + 1, tx := p.tx.openAt (env.clock p.node) 0 }

/-- After a lock. -/
def Point.locked (env : Env) (p : Point) (x : Resource) : Point :=
  { p.read env with tx := (p.read env).tx.hold [x] }

/-- After a snapshot is read for the first time. -/
def Point.load (env : Env) (p : Point) (account : UUID) : Point :=
  { p.read env with
    orm := { p.orm with balances := fun i =>
      if i = account then p.view.balances.find? account else p.orm.balances i } }

namespace Svc

variable {α β : Type} {env : Env} {p q r : Point} {a : α} {e : Err}

/-- The service returns. -/
def Returns (env : Env) (m : Svc α) (p : Point) (a : α) (q : Point) : Prop :=
  (m p.orm).run env p.node p.db p.tx = (.ok ((a, q.orm), q.node, q.tx), q.db)

/-- The service raises before it has committed anything. -/
def Fails (env : Env) (m : Svc α) (p : Point) (e : Err) : Prop :=
  (m p.orm).run env p.node p.db p.tx = (.error e, p.db)

theorem Returns.bind {x : Svc α} {f : α → Svc β} {b : β} (hx : Returns env x p a q)
    (hf : Returns env (f a) q b r) : Returns env (x >>= f) p b r := by
  show ((x p.orm) >>= fun s => f s.1 s.2).run env p.node p.db p.tx = _
  rw [Prog.run_bind_ok hx]
  exact hf

theorem Returns.fails {x : Svc α} {f : α → Svc β} (hx : Returns env x p a q) (hdb : q.db = p.db)
    (hf : Fails env (f a) q e) : Fails env (x >>= f) p e := by
  show ((x p.orm) >>= fun s => f s.1 s.2).run env p.node p.db p.tx = _
  rw [Prog.run_bind_ok hx]
  rw [← hdb]
  exact hf

theorem Fails.bind {x : Svc α} (hx : Fails env x p e) (f : α → Svc β) :
    Fails env (x >>= f) p e := by
  show ((x p.orm) >>= fun s => f s.1 s.2).run env p.node p.db p.tx = _
  rw [Prog.run_bind_error hx]

theorem returns_pure (a : α) (p : Point) : Returns env (pure a) p a p := rfl

theorem fails_raise (e : Err) (p : Point) : Fails env (raise e : Svc α) p e := rfl

theorem returns_now (p : Point) : Returns env now p (env.clock p.node) p.next := rfl

theorem returns_uuid4 (p : Point) :
    Returns env uuid4 p (BitVec.ofNat 128 (env.ident p.node)) p.next := rfl

theorem returns_add (w : Write) (p : Point) :
    Returns env (add w) p () { p with orm := { p.orm with pending := p.orm.pending ++ [w] } } := rfl

theorem returns_select (f : Database → Time → α) (p : Point) :
    Returns env (select f) p (f p.view (p.read env).tx.now) (p.read env) := by
  simp [Returns, select, Prog.run, Point.view, Point.read]

theorem returns_lock (x : Resource) (p : Point) :
    Returns env (lock x) p () (p.locked env x) := rfl

/-- The first reading of a snapshot. -/
theorem returns_getBalance {account : UUID} (h : p.orm.balances account = none) :
    Returns env (getBalance account) p (p.view.balances.find? account) (p.load env account) := by
  simp [Returns, getBalance, h, Prog.run, Point.view, Point.read, Point.load]

/-- A snapshot that is in step is the row, loaded before or now. -/
theorem returns_snapshot (account : UUID) (h : p.orm.InStep p.view) : ∃ q,
    Returns env (getBalance account) p (p.view.balances.find? account) q ∧ q.db = p.db ∧
      q.tx.log = p.tx.log ∧ q.orm.pending = p.orm.pending ∧ q.orm.InStep p.view := by
  cases hc : p.orm.balances account with
  | some b =>
    refine ⟨p, ?_, rfl, rfl, rfl, h⟩
    rw [h account b hc]
    simp [Returns, getBalance, hc, Prog.run]
  | none =>
    have hloaded : Loaded p.orm account (⟨p.db, 0, []⟩ : Shared Unit Database Write) p.tx.log
        (p.view.balances.find? account) _ := .read hc
    exact ⟨_, returns_getBalance hc, rfl, by simp [Point.load, Point.read], rfl,
      (hloaded.inStep h).2⟩

/-! ## Rows -/

/-- The service sends the rows `ws` and is left with the session `o` after `k`
    nodes; if the database does not admit them, it raises its answer. -/
structure Sends (env : Env) (m : Svc α) (p : Point) (ws : List Write) (a : α) (o : OrmSession)
    (k : Nat) : Prop where
  admitted : Admitted p.view ws → ∃ tx, tx.log = p.tx.log ++ ws ∧
    Returns env m p a ⟨o, p.node + k, p.db, tx⟩
  rejected : ¬ Admitted p.view ws → ∃ e, e.rejection = true ∧ Fails env m p e

/-- A service that sends no rows. -/
theorem Returns.sends {m : Svc α} {o : OrmSession} {k : Nat} {tx : Tx Write Resource}
    (h : Returns env m p a ⟨o, p.node + k, p.db, tx⟩) (hlog : tx.log = p.tx.log) :
    Sends env m p [] a o k where
  admitted _ := ⟨tx, by simp [hlog], h⟩
  rejected hno := absurd (admitted_nil _) hno

/-- **Sequence.** -/
theorem Sends.bind {x : Svc α} {f : α → Svc β} {ws vs : List Write} {b : β} {o o' : OrmSession}
    {k l : Nat} (hx : Sends env x p ws a o k)
    (hf : ∀ tx, tx.log = p.tx.log ++ ws →
      Sends env (f a) ⟨o, p.node + k, p.db, tx⟩ vs b o' l) :
    Sends env (x >>= f) p (ws ++ vs) b o' (k + l) := by
  have hview : ∀ tx : Tx Write Resource, tx.log = p.tx.log ++ ws →
      (⟨o, p.node + k, p.db, tx⟩ : Point).view = replay p.view ws := by
    intro tx hlog
    simp [Point.view, hlog, replay_append]
  constructor
  · intro hadm
    obtain ⟨hws, hvs⟩ := admitted_append.mp hadm
    obtain ⟨tx, hlog, hret⟩ := hx.admitted hws
    obtain ⟨tx', hlog', hret'⟩ := (hf tx hlog).admitted (by rw [hview tx hlog]; exact hvs)
    refine ⟨tx', by rw [hlog', hlog, List.append_assoc], ?_⟩
    rw [← Nat.add_assoc]
    exact hret.bind hret'
  · intro hno
    by_cases hws : Admitted p.view ws
    · -- the first part went through
      obtain ⟨tx, hlog, hret⟩ := hx.admitted hws
      obtain ⟨e, he, hfail⟩ := (hf tx hlog).rejected fun hvs =>
        hno (admitted_append.mpr ⟨hws, by rw [← hview tx hlog]; exact hvs⟩)
      exact ⟨e, he, hret.fails rfl hfail⟩
    · obtain ⟨e, he, hfail⟩ := hx.rejected hws
      exact ⟨e, he, hfail.bind f⟩

/-- A sequence that sends no rows before its last part. -/
theorem Returns.then {x : Svc α} {f : α → Svc β} {ws : List Write} {b : β} {o o' : OrmSession}
    {k l : Nat} {tx : Tx Write Resource}
    (hx : Returns env x p a ⟨o, p.node + k, p.db, tx⟩) (hlog : tx.log = p.tx.log)
    (hf : Sends env (f a) ⟨o, p.node + k, p.db, tx⟩ ws b o' l) :
    Sends env (x >>= f) p ws b o' (k + l) := by
  have hview : (⟨o, p.node + k, p.db, tx⟩ : Point).view = p.view := by
    simp [Point.view, hlog]
  constructor
  · intro hadm
    obtain ⟨tx', hlog', hret⟩ := hf.admitted (by rw [hview]; exact hadm)
    refine ⟨tx', by rw [hlog', hlog], ?_⟩
    rw [← Nat.add_assoc]
    exact hx.bind hret
  · intro hno
    obtain ⟨e, he, hfail⟩ := hf.rejected (by rw [hview]; exact hno)
    exact ⟨e, he, hx.fails rfl hfail⟩

theorem sends_execute (w : Write) (p : Point) : Sends env (execute w) p [w] () p.orm 1 := by
  cases hc : Database.constrain p.view w with
  | ok u =>
    refine ⟨fun _ => ⟨Tx.write (D := Database) (p.read env).tx [w], ?_, ?_⟩, fun hno => ?_⟩
    · simp [Tx.write, Point.read]
    · rw [Point.view] at hc
      simp [Returns, execute, Prog.run, hc, Except.map, Point.read]
    · exact absurd (admitted_cons.mpr ⟨hc, admitted_nil _⟩) hno
  | error e =>
    constructor
    · intro hadm
      have h : Database.constrain p.view w = .ok () := hadm.head
      rw [hc] at h
      cases h
    · intro _
      refine ⟨e, rejects_constrain _ _ _ hc, ?_⟩
      rw [Point.view] at hc
      simp [Fails, execute, Prog.run, hc, Except.map]

theorem sends_executeAll (ws : List Write) (p : Point) :
    Sends env (executeAll ws) p ws () p.orm ws.length := by
  induction ws generalizing p with
  | nil => exact (returns_pure () p).sends rfl
  | cons w ws ih =>
    have h : Sends env (executeAll (w :: ws)) p ([w] ++ ws) () p.orm (1 + ws.length) :=
      (sends_execute w p).bind fun tx _ => ih ⟨p.orm, p.node + 1, p.db, tx⟩
    rwa [Nat.add_comm] at h

theorem sends_flush (p : Point) :
    Sends env flush p p.orm.pending () { p.orm with pending := [] } p.orm.pending.length := by
  have h : Sends env (executeAll p.orm.pending) { p with orm := { p.orm with pending := [] } }
      p.orm.pending () _ p.orm.pending.length := sends_executeAll _ _
  exact ⟨fun hadm => h.admitted hadm, fun hno => h.rejected hno⟩

/-- The rows that are pending. -/
theorem sends_pending {ws : List Write} (h : p.orm.pending = ws) :
    Sends env flush p ws () { p.orm with pending := [] } ws.length :=
  h ▸ sends_flush p

theorem sends_updateBalance (tenantId : String) (account : UUID) (amount : Int) (posting : UUID)
    (p : Point) : Sends env (updateBalance tenantId account amount posting) p
      (if matched p.view tenantId account then [.bump account amount posting] else []) ()
      (sync p.orm tenantId account amount posting) 1 := by
  cases hm : matched p.view tenantId account with
  | false =>
    have hret : Returns env (updateBalance tenantId account amount posting) p ()
        ⟨sync p.orm tenantId account amount posting, p.node + 1, p.db, (p.read env).tx⟩ := by
      rw [Point.view] at hm
      simp [Returns, updateBalance, Prog.run, hm, Point.read]
    exact hret.sends (by simp [Point.read])
  | true =>
    simp only [if_true]
    cases hc : Database.constrain p.view (.bump account amount posting) with
    | ok u =>
      refine ⟨fun _ => ⟨Tx.write (D := Database) (p.read env).tx [.bump account amount posting],
        ?_, ?_⟩, fun hno => ?_⟩
      · simp [Tx.write, Point.read]
      · rw [Point.view] at hc hm
        simp [Returns, updateBalance, Prog.run, hm, hc, Except.map, Point.read]
      · exact absurd (admitted_cons.mpr ⟨hc, admitted_nil _⟩) hno
    | error e =>
      constructor
      · intro hadm
        have h : Database.constrain p.view (.bump account amount posting) = .ok () := hadm.head
        rw [hc] at h
        cases h
      · intro _
        refine ⟨e, rejects_constrain _ _ _ hc, ?_⟩
        rw [Point.view] at hc hm
        simp [Fails, updateBalance, Prog.run, hm, hc, Except.map]

end Svc

/-! ## Engine -/

section engine

variable (env : Env) (tenantId : String)

/-- The transaction of a call that starts at a node. -/
def txnAt (node : Nat) (memo : String) (correctsId : Option UUID) : Transaction :=
  { id := BitVec.ofNat 128 (env.ident node), tenantId, memo, correctsId,
    createdAt := env.clock (node + 1) }

/-- The legs, from the node of the first one; `d` says which snapshots match. -/
def legsAt (d : Database) (txn : UUID) : Nat → List PostingSpec → List Leg
  | _, [] => []
  | node, spec :: specs =>
    { posting :=
        { id := BitVec.ofNat 128 (env.ident node), transactionId := txn,
          accountId := spec.accountId, amount := spec.amount, effectiveAt := spec.effectiveAt,
          createdAt := env.clock (node + 1) },
      folded := Svc.matched d tenantId spec.accountId } ::
      legsAt d txn (node + 4) specs

/-- The event. -/
def eventAt [Runtime] (node : Nat) (txn : Transaction) (specs : List PostingSpec) : OutboxEvent :=
  { id := BitVec.ofNat 128 (env.ident node), tenantId, transactionId := txn.id,
    eventType := "transaction.posted",
    payload := (outboxPayload tenantId txn specs).dumps .spaced,
    createdAt := env.clock (node + 1) }

variable {env tenantId}

theorem legsAt_carried (d : Database) (txn : UUID) (node : Nat) (specs : List PostingSpec) :
    List.Forall₂ (Leg.Of txn) specs (legsAt env tenantId d txn node specs) := by
  induction specs generalizing node with
  | nil => exact .nil
  | cons spec specs ih => exact .cons ⟨rfl, rfl, rfl, rfl⟩ (ih _)

theorem legsAt_folded (d : Database) (txn : UUID) (node : Nat) (specs : List PostingSpec) :
    ∀ l ∈ legsAt env tenantId d txn node specs,
      l.folded = Svc.matched d tenantId l.posting.accountId := by
  induction specs generalizing node with
  | nil => simp [legsAt]
  | cons spec specs ih =>
    intro l hl
    rcases List.mem_cons.mp hl with rfl | hl
    · rfl
    · exact ih _ l hl

theorem sends_postLegs {d : Database} (txn : UUID) (specs : List PostingSpec) (p : Point)
    (hpend : p.orm.pending = [])
    (hmatched : ∀ account, Svc.matched p.view tenantId account = Svc.matched d tenantId account) :
    Svc.Sends env (postLegs tenantId txn specs) p
      (legWrites (legsAt env tenantId d txn p.node specs)) ()
      (syncLegs tenantId (legsAt env tenantId d txn p.node specs) p.orm) (4 * specs.length) := by
  induction specs generalizing p with
  | nil => exact (Svc.returns_pure () p).sends rfl
  | cons spec specs ih =>
    let posting : Posting :=
      { id := BitVec.ofNat 128 (env.ident p.node), transactionId := txn,
        accountId := spec.accountId, amount := spec.amount, effectiveAt := spec.effectiveAt,
        createdAt := env.clock (p.node + 1) }
    have hclean : ({ p.orm with pending := [] } : OrmSession) = p.orm := by
      rw [← hpend]
    have h : Svc.Sends env (postLegs tenantId txn (spec :: specs)) p
        ([.insPosting posting] ++ ((if Svc.matched d tenantId spec.accountId
          then [.bump spec.accountId spec.amount posting.id] else []) ++
            legWrites (legsAt env tenantId d txn (p.node + 4) specs))) ()
        (syncLegs tenantId (legsAt env tenantId d txn p.node (spec :: specs)) p.orm)
        (1 + (1 + (0 + (1 + (1 + 4 * specs.length))))) := by
      rw [postLegs]
      refine (Svc.returns_uuid4 p).then (k := 1) rfl ?_
      refine (Svc.returns_now _).then (k := 1) rfl ?_
      refine (Svc.returns_add _ _).then (k := 0) rfl ?_
      refine (Svc.sends_pending (by simp [hpend]; rfl)).bind fun tx hlog => ?_
      -- the update sees its posting, which does not change what it matches
      have hview : ∀ account, Svc.matched (replay p.db tx.log) tenantId account =
          Svc.matched d tenantId account := by
        intro account
        rw [hlog, replay_append]
        exact hmatched account
      have hupdate : Svc.Sends env
          (Svc.updateBalance tenantId spec.accountId spec.amount posting.id)
          ⟨p.orm, p.node + 3, p.db, tx⟩ _ _ _ _ := Svc.sends_updateBalance _ _ _ _ _
      rw [show Svc.matched (Point.view ⟨p.orm, p.node + 3, p.db, tx⟩) tenantId spec.accountId =
        Svc.matched d tenantId spec.accountId from hview _] at hupdate
      rw [hclean]
      refine hupdate.bind fun tx' hlog' => ih ⟨_, p.node + 4, p.db, tx'⟩ hpend fun account => ?_
      show Svc.matched (replay p.db tx'.log) tenantId account = _
      rw [hlog', replay_append, matched_replay ?_, hview]
      intro r hr
      split_ifs at hr <;> simp at hr
    have hws : [.insPosting posting] ++ ((if Svc.matched d tenantId spec.accountId
        then [.bump spec.accountId spec.amount posting.id] else []) ++
          legWrites (legsAt env tenantId d txn (p.node + 4) specs)) =
        legWrites (legsAt env tenantId d txn p.node (spec :: specs)) := by
      rw [legsAt, legWrites_cons]
      rfl
    have hcount : 1 + (1 + (0 + (1 + (1 + 4 * specs.length)))) = 4 * (spec :: specs).length := by
      rw [List.length_cons]
      omega
    rwa [hws, hcount] at h

theorem returns_enqueueOutboxEvent [Runtime] (txn : Transaction) (specs : List PostingSpec)
    (p : Point) : Svc.Returns env (enqueueOutboxEvent tenantId txn specs) p ()
      ⟨{ p.orm with pending :=
          p.orm.pending ++ [.insOutbox (eventAt env tenantId p.node txn specs)] },
        p.node + 2, p.db, p.tx⟩ := rfl

/-- **The engine alone**: the rows one call sends after those it finds pending. -/
theorem sends_postTransaction [Runtime] {d : Database} {specs : List PostingSpec} {memo : String}
    {c : Option UUID} {pend : List Write} (p : Point) (htwo : 2 ≤ specs.length)
    (hzero : (specs.map PostingSpec.amount).sum = 0) (hpend : p.orm.pending = pend)
    (hnew : NoNewSnapshot pend)
    (hmatched : ∀ account, Svc.matched p.view tenantId account = Svc.matched d tenantId account)
    {txn : Transaction} {legs : List Leg} {event : OutboxEvent}
    (htxn : txn = txnAt env tenantId p.node memo c)
    (hlegs : legs = legsAt env tenantId d txn.id (p.node + (3 + pend.length)) specs)
    (hevent : event =
      eventAt env tenantId (p.node + (3 + pend.length) + 4 * specs.length) txn specs) :
    Svc.Sends env (postTransaction tenantId specs memo c) p
      (pend ++ .insTransaction txn :: legWrites legs) txn (afterPost tenantId legs event p.orm)
      (5 + pend.length + 4 * specs.length) := by
  have hflush : ∀ q : Point, q.orm.pending = pend ++ [.insTransaction txn] →
      Svc.Sends env Svc.flush q (pend ++ [.insTransaction txn]) () { q.orm with pending := [] }
        (pend.length + 1) := by
    intro q hq
    have h : Svc.Sends env Svc.flush q _ _ _ _ := Svc.sends_flush q
    rwa [hq, List.length_append] at h
  have h : Svc.Sends env (postTransaction tenantId specs memo c) p
      ((pend ++ [.insTransaction txn]) ++ (legWrites legs ++ [])) txn
      (afterPost tenantId legs event p.orm)
      (1 + (1 + (0 + ((pend.length + 1) + (4 * specs.length + (2 + 0)))))) := by
    unfold postTransaction
    rw [if_neg (by omega), if_neg (by simpa using hzero)]
    refine (Svc.returns_uuid4 p).then (k := 1) rfl ?_
    refine (Svc.returns_now _).then (k := 1) rfl ?_
    refine (Svc.returns_add _ _).then (k := 0) rfl ?_
    refine (hflush _ (by rw [← hpend, htxn]; rfl)).bind fun tx hlog => ?_
    have hnode : p.node + 1 + 1 + 0 + (pend.length + 1) = p.node + (3 + pend.length) := by omega
    show Svc.Sends env _ ⟨_, p.node + 1 + 1 + 0 + (pend.length + 1), p.db, tx⟩ _ _ _ _
    rw [hnode]
    have hsame : ∀ account, Svc.matched (replay p.db tx.log) tenantId account =
        Svc.matched d tenantId account := by
      intro account
      rw [hlog, replay_append, matched_replay ?_]
      · exact hmatched account
      · intro r hr
        rcases List.mem_append.mp hr with hr | hr
        · exact hnew r hr
        · simp at hr
    have hid : txn.id = BitVec.ofNat 128 (env.ident p.node) := by rw [htxn]; rfl
    have hposted : Svc.Sends env (postLegs tenantId (BitVec.ofNat 128 (env.ident p.node)) specs)
        ⟨{ p.orm with pending := [] }, p.node + (3 + pend.length), p.db, tx⟩ (legWrites legs) ()
        (syncLegs tenantId legs { p.orm with pending := [] }) (4 * specs.length) := by
      rw [hlegs, hid]
      exact sends_postLegs _ specs _ rfl hsame
    refine hposted.bind fun tx' hlog' => ?_
    refine (returns_enqueueOutboxEvent _ specs _).then (k := 2) rfl ?_
    -- the legs have left nothing pending, so the event is alone
    have hsync := syncLegs_pending tenantId legs { p.orm with pending := [] }
    subst htxn hevent
    show Svc.Sends env _ ⟨{ syncLegs tenantId legs { p.orm with pending := [] } with
      pending := (syncLegs tenantId legs { p.orm with pending := [] }).pending ++ _ }, _, _, _⟩
      _ _ _ _
    rw [hsync]
    exact (Svc.returns_pure _ _).sends rfl
  have hws : (pend ++ [.insTransaction txn]) ++ (legWrites legs ++ []) =
      pend ++ .insTransaction txn :: legWrites legs := by
    simp
  have hcount : 1 + (1 + (0 + ((pend.length + 1) + (4 * specs.length + (2 + 0))))) =
      5 + pend.length + 4 * specs.length := by
    omega
  rwa [hws, hcount] at h

end engine

/-! ## Requests -/

section requests

variable [Runtime] {env : Env} {d : Database} {r : Request} {e : Err}

theorem executed_fails (h : Svc.Fails env r.service { db := d } e) :
    r.executed env d = (.error e, d) := by
  unfold Request.executed Request.program
  rw [Prog.solo_eq_run, Prog.run_bind_error h]
  rfl

theorem executed_returns {reply : Reply} {q : Point}
    (h : Svc.Returns env r.service { db := d } reply q) :
    r.executed env d = (.ok reply, q.db) := by
  unfold Request.executed Request.program
  rw [Prog.solo_eq_run, Prog.run_bind_ok h]
  rfl

/-- The rows one call of the engine sends, its event included, when it starts
    at a node with `k` rows pending. -/
def callRows (env : Env) (tenantId : String) (node k : Nat) (d : Database)
    (specs : List PostingSpec) (memo : String) : List Write :=
  let txn := txnAt env tenantId node memo none
  emission txn (legsAt env tenantId d txn.id (node + (3 + k)) specs)
    (eventAt env tenantId (node + (3 + k) + 4 * specs.length) txn specs)

omit [Runtime] in
/-- A commit sends what is pending, and publishes the transaction. -/
theorem commit_alone (p : Point) :
    (Admitted p.view p.orm.pending →
      ∃ q, Svc.Returns env Svc.commit p () q ∧ q.db = replay p.view p.orm.pending) ∧
    (¬ Admitted p.view p.orm.pending →
      ∃ e, e.rejection = true ∧ Svc.Fails env Svc.commit p e) := by
  have hflush : Svc.Sends env Svc.flush p _ _ _ _ := Svc.sends_flush p
  constructor
  · intro hadm
    obtain ⟨tx, hlog, hret⟩ := hflush.admitted hadm
    refine ⟨⟨{ p.orm with pending := [] }, p.node + p.orm.pending.length + 1,
      replay p.db tx.log, {}⟩, hret.bind rfl, ?_⟩
    show replay p.db tx.log = _
    rw [hlog, replay_append]
    rfl
  · intro hno
    obtain ⟨e, he, hfail⟩ := hflush.rejected hno
    exact ⟨e, he, hfail.bind _⟩

omit [Runtime] in
/-- A service that sends its rows and then commits. -/
theorem Svc.Sends.committed {α β : Type} {x : Svc α} {f : α → β} {p : Point} {ws vs : List Write}
    {a : α} {o : OrmSession} {k : Nat} (hx : Svc.Sends env x p ws a o k) (hvs : o.pending = vs) :
    (Admitted p.view (ws ++ vs) →
      ∃ q, Svc.Returns env (do let a ← x; Svc.commit; return f a) p (f a) q ∧
        q.db = replay p.view (ws ++ vs)) ∧
    (¬ Admitted p.view (ws ++ vs) →
      ∃ e, e.rejection = true ∧ Svc.Fails env (do let a ← x; Svc.commit; return f a) p e) := by
  have hview : ∀ tx : Tx Write Resource, tx.log = p.tx.log ++ ws →
      (⟨o, p.node + k, p.db, tx⟩ : Point).view = replay p.view ws := by
    intro tx hlog
    simp [Point.view, hlog, replay_append]
  rw [admitted_append]
  constructor
  · rintro ⟨hws, hadm⟩
    obtain ⟨tx, hlog, hret⟩ := hx.admitted hws
    have hcommit : _ → ∃ q, Svc.Returns env Svc.commit ⟨o, p.node + k, p.db, tx⟩ () q ∧ _ :=
      (commit_alone _).1
    obtain ⟨q, hq, hdb⟩ := hcommit (by rw [hview tx hlog, hvs]; exact hadm)
    refine ⟨q, hret.bind (hq.bind rfl), ?_⟩
    rw [hdb, hview tx hlog, hvs, replay_append]
  · intro hno
    by_cases hws : Admitted p.view ws
    · obtain ⟨tx, hlog, hret⟩ := hx.admitted hws
      have hreject : _ → ∃ e, e.rejection = true ∧
          Svc.Fails env Svc.commit ⟨o, p.node + k, p.db, tx⟩ e := (commit_alone _).2
      obtain ⟨e, he, hfail⟩ := hreject (by
        rw [hview tx hlog, hvs]
        exact fun hadm => hno ⟨hws, hadm⟩)
      exact ⟨e, he, hret.fails rfl (hfail.bind _)⟩
    · obtain ⟨e, he, hfail⟩ := hx.rejected hws
      exact ⟨e, he, hfail.bind _⟩

/-- **A direct use of the engine** commits its rows if they balance and the
    database admits them, and otherwise changes nothing. -/
theorem post_executed {tenantId memo : String} {specs : List PostingSpec} (htwo : 2 ≤ specs.length)
    (hzero : (specs.map PostingSpec.amount).sum = 0) :
    (Admitted d (callRows env tenantId 0 0 d specs memo) →
      ∃ reply, (Request.post tenantId specs memo).executed env d =
        (.ok reply, replay d (callRows env tenantId 0 0 d specs memo))) ∧
    (¬ Admitted d (callRows env tenantId 0 0 d specs memo) →
      ∃ e, e.rejection = true ∧
        (Request.post tenantId specs memo).executed env d = (.error e, d)) := by
  have hpost : Svc.Sends env (postTransaction tenantId specs memo) { db := d } _ _ _ _ :=
    sends_postTransaction _ htwo hzero rfl (fun r hr => by cases hr) (fun _ => rfl) rfl rfl rfl
  obtain ⟨hreturns, hfails⟩ := hpost.committed (f := id) rfl
  have hservice : (Request.post tenantId specs memo).service =
      postAndCommit tenantId specs memo >>= fun txn => pure (Reply.posted txn) := rfl
  constructor
  · intro hadm
    obtain ⟨q, hq, hdb⟩ := hreturns hadm
    have hret : Svc.Returns env (Request.post tenantId specs memo).service { db := d }
        (.posted (txnAt env tenantId 0 memo none)) q := by
      rw [hservice]
      exact Svc.Returns.bind hq rfl
    exact ⟨_, by rw [executed_returns hret, hdb]; rfl⟩
  · intro hno
    obtain ⟨e, he, hfail⟩ := hfails hno
    have hraise : Svc.Fails env (Request.post tenantId specs memo).service { db := d } e := by
      rw [hservice]
      exact Svc.Fails.bind hfail _
    exact ⟨e, he, executed_fails hraise⟩

end requests

end Ledger
