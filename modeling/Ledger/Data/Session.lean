import Ledger.Data.Database
import Ledger.Framework.Trace

/-! # The ORM Session

    A service runs its statements through a session of the application's
    factory: `autoflush=False`, `expire_on_commit=False`.

    * **Pending rows**: `add` only records a row; `flush` sends the pending
      rows, and `commit` flushes first.
    * **Identity map**: a snapshot that was loaded once is not read again; the
      bulk `UPDATE` of a snapshot also updates the loaded object.
    * **Rules**: one rule for each primitive, in terms of `Progress`.
-/

namespace Ledger

open ReadCommitted

/-- The state of a session in the process. -/
structure OrmSession where
  /-- The snapshots loaded so far. -/
  balances : UUID → Option AccountBalance := fun _ => none
  /-- What was added and not flushed. -/
  pending : List Write := []

/-- A service function. -/
abbrev Svc (α : Type) : Type 1 := StateT OrmSession (Prog Database Write Resource Err) α

namespace Svc

variable {α β : Type}

/-- `raise`. -/
def raise (e : Err) : Svc α := fun _ => .fail e

/-- `datetime.now()`. -/
def now : Svc Time := fun o => .now fun t => .ret (t, o)

/-- `uuid.uuid4()`. -/
def uuid4 : Svc UUID := fun o => .draw fun n => .ret (BitVec.ofNat 128 n, o)

/-- `session.execute(select(...))`; the query sees `func.now()`. -/
def select (q : Database → Time → β) : Svc β := fun o =>
  .stmt (fun d t => .ok (q d t, [])) fun b => .ret (b, o)

/-- `SELECT pg_advisory_xact_lock(...)`. -/
def lock (r : Resource) : Svc Unit := fun o => .lock r (.ret ((), o))

/-- One data-changing statement. -/
def execute (w : Write) : Svc Unit := fun o =>
  .stmt (fun d _ => (d.constrain w).map fun _ => ((), [w])) fun _ => .ret ((), o)

/-- `session.add`. -/
def add (w : Write) : Svc Unit := fun o => .ret ((), { o with pending := o.pending ++ [w] })

/-- Send a list of rows. -/
def executeAll : List Write → Svc Unit
  | [] => pure ()
  | w :: ws => do
    execute w
    executeAll ws

/-- `session.flush()`. -/
def flush : Svc Unit := fun o => executeAll o.pending { o with pending := [] }

/-- `session.commit()`. -/
def commit : Svc Unit := do
  flush
  fun o => .commit (.ret ((), o))

/-- `session.get(AccountBalance, id)`. -/
def getBalance (id : UUID) : Svc (Option AccountBalance) := fun o =>
  match o.balances id with
  | some b => .ret (some b, o)
  | none => .stmt (fun d _ => .ok (d.balances.find? id, [])) fun b =>
      .ret (b, { o with balances := fun i => if i = id then b else o.balances i })

/-- The loaded snapshots after a bulk `UPDATE`. -/
def sync (o : OrmSession) (tenantId : String) (account : UUID) (amount : Int) (posting : UUID) :
    OrmSession :=
  { o with balances := fun i =>
      if i = account then (o.balances i).map fun b =>
        if b.tenantId = tenantId then b.fold amount posting else b
      else o.balances i }

/-- The bulk `UPDATE` of a snapshot matches a row. -/
def matched (d : Database) (tenantId : String) (account : UUID) : Bool :=
  (d.balances.find? account).any fun b => b.tenantId = tenantId

/-- `UPDATE account_balances SET ... WHERE account_id = ... AND tenant_id = ...`. -/
def updateBalance (tenantId : String) (account : UUID) (amount : Int) (posting : UUID) :
    Svc Unit := fun o =>
  .stmt (fun d _ =>
      if matched d tenantId account then
        (d.constrain (.bump account amount posting)).map fun _ =>
          ((), [.bump account amount posting])
      else .ok ((), []))
    fun _ => .ret ((), sync o tenantId account amount posting)

end Svc

/-! ## Rules -/

section rules

variable {ι α β : Type} {rg : RG ι Database Write Resource} {me : ι}

/-- What a service returns. -/
abbrev Ret (ι α : Type) : Type :=
  α → OrmSession → Shared ι Database Write → Tx Write Resource → Prop

/-- What holds when a service raises. -/
abbrev Raised (ι : Type) : Type := Err → Shared ι Database Write → Tx Write Resource → Prop

/-- The postcondition of the underlying program. -/
def Ret.post (Q : Ret ι α) (E : Raised ι) : Post ι Database Write Resource Err (α × OrmSession)
  | .ok (a, o) => Q a o
  | .error e => E e

/-- Weakest precondition of a service. -/
def swp (rg : RG ι Database Write Resource) (me : ι) (m : Svc α) (Q : Ret ι α) (E : Raised ι)
    (o : OrmSession) (g : Shared ι Database Write) (tx : Tx Write Resource) : Prop :=
  wp rg me (m o) (Q.post E) g tx

/-- Wherever the service gets to from here, it may raise. -/
def MayRaise (rg : RG ι Database Write Resource) (E : Raised ι) (g : Shared ι Database Write)
    (tx : Tx Write Resource) : Prop :=
  ∀ e ws g' tx', Progress rg ws g tx g' tx' → E e g' tx'

variable {Q : Ret ι α} {E : Raised ι} {o : OrmSession} {g g' : Shared ι Database Write}
  {tx tx' : Tx Write Resource}

theorem MayRaise.here (h : MayRaise rg E g tx) (e : Err) : E e g tx := h e [] g tx (.refl g tx)

theorem MayRaise.step {ws : List Write} (h : MayRaise rg E g tx)
    (hp : Progress rg ws g tx g' tx') : MayRaise rg E g' tx' :=
  fun e vs g'' tx'' hp' => h e (ws ++ vs) g'' tx'' (hp.trans hp')

@[simp] theorem swp_pure (a : α) : swp rg me (pure a) Q E o g tx ↔ Q a o g tx := Iff.rfl

/-- **Rule of consequence.** -/
theorem swp_mono {Q' : Ret ι α} {E' : Raised ι} {m : Svc α}
    (hQ : ∀ a o g tx, Q a o g tx → Q' a o g tx) (hE : ∀ e g tx, E e g tx → E' e g tx)
    (h : swp rg me m Q E o g tx) : swp rg me m Q' E' o g tx := by
  refine wp_mono (fun r g tx hr => ?_) h
  cases r with
  | ok p => exact hQ _ _ _ _ hr
  | error e => exact hE _ _ _ hr

/-- **Sequence rule.** -/
theorem swp_bind {Q : Ret ι β} (x : Svc α) (f : α → Svc β) :
    swp rg me (x >>= f) Q E o g tx ↔
      swp rg me x (fun a o g tx => swp rg me (f a) Q E o g tx) E o g tx := by
  have hpost : Post.seq rg me (fun p : α × OrmSession => f p.1 p.2) (Q.post E) =
      Ret.post (fun a o g tx => swp rg me (f a) Q E o g tx) E := by
    funext r
    cases r <;> rfl
  show wp rg me ((x o) >>= fun p => f p.1 p.2) (Q.post E) g tx ↔ _
  rw [wp_bind, hpost]
  rfl

theorem swp_raise {e : Err} (h : E e g tx) : swp rg me (Svc.raise e) Q E o g tx := h

theorem swp_now {Q : Ret ι Time}
    (h : ∀ g', Progress rg [] g tx g' tx → Q g'.clock o g' tx) :
    swp rg me Svc.now Q E o g tx :=
  fun g' hr => h g' (.env hr)

theorem swp_uuid4 {Q : Ret ι UUID} (h : ∀ g' u, Progress rg [] g tx g' tx → Q u o g' tx) :
    swp rg me Svc.uuid4 Q E o g tx :=
  fun g' hr _ => h g' _ (.env hr)

theorem swp_select {Q : Ret ι β} {q : Database → Time → β}
    (h : ∀ g' tx', Progress rg [] g tx g' tx' → tx' = tx.openAt g'.clock g'.wal.length →
      Q (q (replay g'.db tx.log) tx'.now) o g' tx') :
    swp rg me (Svc.select q) Q E o g tx := by
  intro g' hr
  have h' := h g' _ (.read hr) rfl
  simpa [wp, Ret.post] using h'

theorem swp_lock {Q : Ret ι Unit} {r : Resource}
    (h : ∀ g' tx', Progress rg [] g tx g' tx' → r ∈ tx'.held → Q () o g' tx') :
    swp rg me (Svc.lock r) Q E o g tx :=
  fun g' hr => h g' _ (.lock hr r) (by simp)

theorem swp_execute {Q : Ret ι Unit} {w : Write} (hE : MayRaise rg E g tx)
    (h : ∀ g' tx', Progress rg [w] g tx g' tx' → Q () o g' tx') :
    swp rg me (Svc.execute w) Q E o g tx := by
  simp only [swp, Svc.execute, wp, Ret.post]
  intro g' hr
  cases ha : Database.constrain (replay g'.db tx.log) w with
  | error e => exact (hE.step (.read hr)).here e
  | ok u => exact h g' _ (.write hr w ha)

theorem swp_add {Q : Ret ι Unit} {w : Write}
    (h : Q () { o with pending := o.pending ++ [w] } g tx) : swp rg me (Svc.add w) Q E o g tx := h

theorem swp_executeAll {Q : Ret ι Unit} (ws : List Write) (hE : MayRaise rg E g tx)
    (h : ∀ g' tx', Progress rg ws g tx g' tx' → Q () o g' tx') :
    swp rg me (Svc.executeAll ws) Q E o g tx := by
  induction ws generalizing g tx with
  | nil => exact h g tx (.refl g tx)
  | cons w ws ih =>
    rw [Svc.executeAll, swp_bind]
    refine swp_execute hE fun g₁ tx₁ h₁ => ih (hE.step h₁) fun g₂ tx₂ h₂ => ?_
    exact h g₂ tx₂ (h₁.trans h₂)

theorem swp_flush {Q : Ret ι Unit} (hE : MayRaise rg E g tx)
    (h : ∀ g' tx', Progress rg o.pending g tx g' tx' → Q () { o with pending := [] } g' tx') :
    swp rg me Svc.flush Q E o g tx :=
  swp_executeAll (o := { o with pending := [] }) o.pending hE h

theorem swp_commit {Q : Ret ι Unit} (hE : MayRaise rg E g tx)
    (h : ∀ g' tx', Progress rg o.pending g tx g' tx' → rg.allow me tx' g' →
      rg.guar me tx' g' (g'.commit me tx') ∧
        Q () { o with pending := [] } (g'.commit me tx') {}) :
    swp rg me Svc.commit Q E o g tx := by
  rw [Svc.commit, swp_bind]
  refine swp_flush hE fun g₁ tx₁ h₁ g₂ hr ha => ?_
  exact h g₂ tx₁ (by simpa using h₁.trans (.env hr)) ha

/-- How a snapshot was obtained: from the session, or from the database. -/
inductive Loaded (o : OrmSession) (id : UUID) (g : Shared ι Database Write)
    (log : List Write) : Option AccountBalance → OrmSession → Prop where
  | cached {b : AccountBalance} (h : o.balances id = some b) : Loaded o id g log (some b) o
  | read (h : o.balances id = none) :
      Loaded o id g log ((replay g.db log).balances.find? id)
        { o with balances := fun i =>
            if i = id then (replay g.db log).balances.find? id else o.balances i }

theorem Loaded.pending {id : UUID} {log : List Write} {b : Option AccountBalance}
    {o' : OrmSession} (h : Loaded o id g log b o') : o'.pending = o.pending := by
  cases h <;> rfl

/-- A snapshot that was not loaded before is read. -/
theorem Loaded.fresh {id : UUID} {log : List Write} {b : Option AccountBalance}
    {o' : OrmSession} (h : Loaded o id g log b o') (ho : o.balances id = none) :
    b = (replay g.db log).balances.find? id := by
  cases h with
  | cached h => rw [ho] at h; cases h
  | read _ => rfl

theorem swp_getBalance {Q : Ret ι (Option AccountBalance)} {id : UUID}
    (h : ∀ b o' g' tx', Progress rg [] g tx g' tx' → Loaded o id g' tx.log b o' →
      Q b o' g' tx') :
    swp rg me (Svc.getBalance id) Q E o g tx := by
  cases hc : o.balances id with
  | some b =>
    have h' := h (some b) o g tx (.refl g tx) (.cached hc)
    simpa [swp, Svc.getBalance, hc, wp, Ret.post] using h'
  | none =>
    have hrun : Svc.getBalance id o = .stmt (fun d _ => .ok (d.balances.find? id, []))
        fun b => .ret (b, { o with balances := fun i => if i = id then b else o.balances i }) := by
      simp [Svc.getBalance, hc]
    rw [swp, hrun]
    intro g' hr
    have h' := h _ _ g' _ (.read hr) (.read hc)
    simpa [wp, Ret.post] using h'

/-- The bulk `UPDATE` folds the posting into the row it matches, or matches none. -/
theorem swp_updateBalance {Q : Ret ι Unit} {tenantId : String} {account posting : UUID}
    {amount : Int} (hE : MayRaise rg E g tx)
    (h : ∀ g' tx',
      Progress rg (if Svc.matched (replay g'.db tx.log) tenantId account
        then [.bump account amount posting] else []) g tx g' tx' →
      Q () (Svc.sync o tenantId account amount posting) g' tx') :
    swp rg me (Svc.updateBalance tenantId account amount posting) Q E o g tx := by
  simp only [swp, Svc.updateBalance, wp, Ret.post]
  intro g' hr
  by_cases hm : Svc.matched (replay g'.db tx.log) tenantId account = true
  · simp only [hm, if_true]
    cases ha : Database.constrain (replay g'.db tx.log) (.bump account amount posting) with
    | error e => exact (hE.step (.read hr)).here e
    | ok u =>
      have h' := h g' (Tx.write (D := Database) (tx.openAt g'.clock g'.wal.length)
        [.bump account amount posting])
      rw [if_pos hm] at h'
      exact h' (.write hr _ ha)
  · have h' := h g' (tx.openAt g'.clock g'.wal.length)
    rw [if_neg hm] at h'
    simpa [hm] using h' (.read hr)

end rules

end Ledger
