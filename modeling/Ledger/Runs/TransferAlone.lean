import Ledger.Runs.Admission

/-! # A Transfer Alone, Exactly

    Where a transfer that runs alone gets to, its errors included.

    * **Reads**: `Point.Stays`, what reading leaves alone, and the reads of a
      transfer with what they answer.
    * **Movement**: the rows of one call of the engine, or of two.
-/

namespace Ledger

open ReadCommitted

/-! ## Reads -/

/-- From `p` to `q` the service only read, in `k` nodes. -/
structure Point.Stays (p q : Point) (k : Nat) : Prop where
  node : q.node = p.node + k
  db : q.db = p.db
  log : q.tx.log = p.tx.log
  start : ∀ t, p.tx.start = some t → q.tx.start = some t
  pending : q.orm.pending = p.orm.pending
  inStep : p.orm.InStep p.view → q.orm.InStep p.view

namespace Point.Stays

variable {p q r : Point} {k l : Nat}

theorem refl (p : Point) : p.Stays p 0 :=
  ⟨rfl, rfl, rfl, fun _ h => h, rfl, fun h => h⟩

theorem view (h : p.Stays q k) : q.view = p.view := by
  simp [Point.view, h.db, h.log]

theorem trans (h : p.Stays q k) (h' : q.Stays r l) : p.Stays r (k + l) where
  node := by rw [h'.node, h.node, Nat.add_assoc]
  db := h'.db.trans h.db
  log := h'.log.trans h.log
  start t ht := h'.start t (h.start t ht)
  pending := h'.pending.trans h.pending
  inStep hp := by
    have hr := h'.inStep (by rw [h.view]; exact h.inStep hp)
    rwa [h.view] at hr

theorem next (p : Point) : p.Stays p.next 1 :=
  ⟨rfl, rfl, rfl, fun _ h => h, rfl, fun h => h⟩

theorem read (env : Env) (p : Point) : p.Stays (p.read env) 1 where
  node := rfl
  db := rfl
  log := by simp [Point.read]
  start t ht := by simp [Point.read, Tx.openAt_of_start ht, ht]
  pending := rfl
  inStep h := h

/-- A lock is taken as a statement is made. -/
theorem lock (env : Env) (p : Point) (x : Resource) :
    p.Stays (p.locked env x) 1 :=
  have h := read env p
  ⟨h.node, h.db, h.log, h.start, h.pending, h.inStep⟩

/-- Loading a snapshot. -/
theorem load (env : Env) (p : Point) (account : UUID) :
    p.Stays (p.load env account) 1 where
  node := rfl
  db := rfl
  log := by simp [Point.load, Point.read]
  start := (read env p).start
  pending := rfl
  inStep h i b hb := by
    by_cases hi : i = account
    · subst hi
      simpa [Point.load] using hb
    · simp only [Point.load, hi, if_false] at hb
      exact h i b hb

end Point.Stays

namespace Svc

variable {α β γ : Type} {env : Env} {p q : Point} {a : α} {e : Err}

/-- What is left of `m` at `p` is `m'` at `q`. -/
def Leads (env : Env) (m : Svc α) (p : Point) (m' : Svc α) (q : Point) : Prop :=
  (m p.orm).run env p.node p.db p.tx = (m' q.orm).run env q.node q.db q.tx

theorem Returns.leads {x : Svc α} {f : α → Svc β} (h : Returns env x p a q) :
    Leads env (x >>= f) p (f a) q :=
  Prog.run_bind_ok h

theorem Leads.trans {m m' m'' : Svc α} {r : Point} (h : Leads env m p m' q)
    (h' : Leads env m' q m'' r) : Leads env m p m'' r :=
  Eq.trans h h'

theorem Leads.fails {m m' : Svc α} (h : Leads env m p m' q) (hdb : q.db = p.db)
    (hfails : Fails env m' q e) : Fails env m p e := by
  unfold Fails at hfails ⊢
  rw [h, hfails, hdb]

theorem Leads.returns {m m' : Svc α} {r : Point} (h : Leads env m p m' q)
    (hret : Returns env m' q a r) : Returns env m p a r :=
  Eq.trans h hret

end Svc

section reads

variable {env : Env} {p : Point} {tenantId : String} {account : UUID}

open Svc

theorem returns_lookup [Runtime] {endpoint key : String} {body : Json}
    (h : p.view.records.find? ⟨tenantId, endpoint, key⟩ = none) :
    Returns env (lookup tenantId endpoint key body) p none (p.read env) := by
  refine (returns_select _ p).bind ?_
  rw [h]
  exact returns_pure none _

theorem returns_lookup_found [Runtime] {endpoint key : String} {body : Json}
    {r : IdempotencyRecord} {found : Replay}
    (h : p.view.records.find? ⟨tenantId, endpoint, key⟩ = some r)
    (hreplay : replayOf key body r = .ok found) :
    Returns env (lookup tenantId endpoint key body) p (some found) (p.read env) := by
  refine (returns_select _ p).bind ?_
  rw [h]
  simp only [hreplay]
  exact returns_pure (some found) _

theorem fails_lookup [Runtime] {endpoint key : String} {body : Json} {r : IdempotencyRecord}
    {e : Err} (h : p.view.records.find? ⟨tenantId, endpoint, key⟩ = some r)
    (hreplay : replayOf key body r = .error e) :
    Fails env (lookup tenantId endpoint key body) p e := by
  refine (returns_select _ p).fails rfl ?_
  rw [h]
  simp only [hreplay]
  exact fails_raise e _

theorem returns_requireAccount {a : Account} (h : p.view.HasAccount tenantId account a) :
    Returns env (requireAccount tenantId account) p a (p.read env) := by
  refine (returns_select _ p).bind ?_
  rw [h.1]
  simp only [h.2.1, h.2.2, ne_eq, not_true_eq_false, Bool.true_eq_false, or_self, if_false]
  exact returns_pure a _

theorem fails_requireAccount (h : ∀ a, ¬ p.view.HasAccount tenantId account a) :
    ∃ msg, Fails env (requireAccount tenantId account) p (.insufficientFunds msg) := by
  refine ⟨s!"account {account.str} not found or closed", (returns_select _ p).fails rfl ?_⟩
  cases hfind : p.view.accounts.find? account with
  | none => exact fails_raise _ _
  | some a =>
    have hclosed : a.tenantId ≠ tenantId ∨ a.isOpen = false := by
      by_contra hopen
      simp only [not_or, not_not, Bool.not_eq_false] at hopen
      exact h a ⟨hfind, hopen.1, hopen.2⟩
    simp only [hclosed, if_true]
    exact fails_raise _ _

/-- The figures of an account whose snapshot was not loaded before. -/
theorem returns_availableBalance {now : Time} {b : Balance} (hfresh : p.orm.balances account = none)
    (hstart : p.tx.start = some now)
    (hb : p.view.availableBalance tenantId account now = some b) : ∃ q, p.Stays q 2 ∧
      Returns env (availableBalance tenantId account) p (some b) q := by
  obtain ⟨row, hrow, htenant, rfl⟩ := availableBalance_eq_some.mp hb
  have hload : Returns env (currentBalance tenantId account) p (some row.balance)
      (p.load env account) := by
    refine (returns_getBalance hfresh).bind ?_
    rw [hrow]
    simp only [htenant, ne_eq, not_true_eq_false, if_false]
    exact returns_pure _ _
  have hstays := Point.Stays.load env p account
  refine ⟨(p.load env account).read env, hstays.trans (.read env _), hload.bind ?_⟩
  refine (returns_select _ _).bind ?_
  have hnow : ((p.load env account).read env).tx.now = now := by
    have hopen := ((Point.Stays.read env (p.load env account)).start now (hstays.start now hstart))
    simp [Tx.now, hopen]
  rw [hnow, hstays.view]
  exact returns_pure _ _

/-- An account without a snapshot of the tenant has no figures. -/
theorem returns_availableBalance_none {now : Time} (hfresh : p.orm.balances account = none)
    (hb : p.view.availableBalance tenantId account now = none) :
    Returns env (availableBalance tenantId account) p none (p.load env account) := by
  have hload : Returns env (currentBalance tenantId account) p none (p.load env account) := by
    refine (returns_getBalance hfresh).bind ?_
    unfold Database.availableBalance at hb
    cases hrow : p.view.balances.find? account with
    | none => exact returns_pure _ _
    | some row =>
      rw [hrow] at hb
      by_cases ht : row.tenantId = tenantId
      · simp [ht] at hb
      · simp only [ne_eq, ht, not_false_eq_true, if_true]
        exact returns_pure _ _
  exact hload.bind (returns_pure _ _)

/-- The available balance covers the amount. -/
def Database.Covers (d : Database) (tenantId : String) (account : UUID) (now : Time)
    (amount : Int) :
    Prop :=
  ∃ b, d.availableBalance tenantId account now = some b ∧ amount ≤ b.available

theorem returns_requireFunds {now : Time} {amount : Int} (hfresh : p.orm.balances account = none)
    (hstart : p.tx.start = some now) (h : p.view.Covers tenantId account now amount) :
    ∃ q, p.Stays q 3 ∧ Returns env (requireFunds tenantId account amount) p () q := by
  obtain ⟨b, hb, hcovers⟩ := h
  have hlock := Point.Stays.lock env p (.advisory (lockKey account))
  have hfresh' : (p.locked env (.advisory (lockKey account))).orm.balances account = none := hfresh
  rw [← hlock.view] at hb
  obtain ⟨q, hstays, hret⟩ := returns_availableBalance hfresh' (hlock.start now hstart) hb
  refine ⟨q, hlock.trans hstays, (returns_lock _ p).bind (hret.bind ?_)⟩
  simp only [not_lt.mpr hcovers, if_false]
  exact returns_pure _ _

theorem fails_requireFunds {now : Time} {amount : Int} (hfresh : p.orm.balances account = none)
    (hstart : p.tx.start = some now) (h : ¬ p.view.Covers tenantId account now amount) :
    ∃ msg, Fails env (requireFunds tenantId account amount) p (.insufficientFunds msg) := by
  have hlock := Point.Stays.lock env p (.advisory (lockKey account))
  have hfresh' : (p.locked env (.advisory (lockKey account))).orm.balances account = none := hfresh
  cases hb : p.view.availableBalance tenantId account now with
  | none =>
    rw [← hlock.view] at hb
    have hret : Returns env (availableBalance tenantId account) (p.locked env _) none _ :=
      returns_availableBalance_none hfresh' hb
    exact ⟨_, (returns_lock _ p).fails hlock.db (hret.fails rfl (fails_raise _ _))⟩
  | some b =>
    have hshort : b.available < amount := not_le.mp fun hle => h ⟨b, hb, hle⟩
    rw [← hlock.view] at hb
    obtain ⟨q, hstays, hret⟩ := returns_availableBalance hfresh' (hlock.start now hstart) hb
    refine ⟨s!"available {b.available} < requested {amount}",
      (returns_lock _ p).fails hlock.db (hret.fails hstays.db ?_)⟩
    simp only [hshort, if_true]
    exact fails_raise _ _

/-- The instant of a request: its own, or the clock's. -/
theorem returns_orNow (t? : Option Time) (p : Point) : ∃ q,
    p.Stays q (if t?.isSome then 0 else 1) ∧
      Returns env (orNow t?) p (t?.getD (env.clock p.node)) q := by
  cases t? with
  | some t => exact ⟨p, .refl p, returns_pure t p⟩
  | none => exact ⟨p.next, .next p, returns_now p⟩

/-- How many statements resolve a rate. -/
def Database.rateNodes (d : Database) (base quote : Currency) (asOf : Time) : Nat :=
  if (d.latest base quote asOf).isSome then 1 else 2

theorem returns_resolveRate [Runtime] {base quote : Currency} {asOf : Time} {rate : ResolvedRate}
    (hne : base ≠ quote) (h : p.view.resolve base quote asOf = some rate) :
    ∃ q, p.Stays q (p.view.rateNodes base quote asOf) ∧
      Returns env (resolveRate base quote asOf) p rate q := by
  unfold resolveRate Database.rateNodes
  unfold Database.resolve at h
  rw [if_neg hne] at h ⊢
  have hread := Point.Stays.read env p
  cases hd : p.view.latest base quote asOf with
  | some r =>
    rw [hd] at h
    cases h
    refine ⟨p.read env, hread, (returns_select _ p).bind ?_⟩
    rw [hd]
    exact returns_pure _ _
  | none =>
    rw [hd] at h
    refine ⟨(p.read env).read env, hread.trans (.read env _), (returns_select _ p).bind ?_⟩
    rw [hd]
    refine (returns_select _ (p.read env)).bind ?_
    rw [hread.view]
    simp only [h]
    exact returns_pure _ _

theorem fails_resolveRate [Runtime] {base quote : Currency} {asOf : Time} (hne : base ≠ quote)
    (h : p.view.resolve base quote asOf = none) :
    ∃ msg, Fails env (resolveRate base quote asOf) p (.rateUnavailable msg) := by
  unfold resolveRate
  unfold Database.resolve at h
  rw [if_neg hne] at h ⊢
  cases hd : p.view.latest base quote asOf with
  | some r =>
    rw [hd] at h
    cases h
  | none =>
    rw [hd] at h
    refine ⟨s!"no effective rate for {base.value}->{quote.value} at {Runtime.isoformat asOf}",
      (returns_select _ p).fails rfl ?_⟩
    rw [hd]
    refine (returns_select _ (p.read env)).fails rfl ?_
    rw [(Point.Stays.read env p).view]
    simp only [h]
    exact fails_raise _ _

theorem returns_conversionAccount {currency : Currency} {a : Account}
    (h : p.view.openAt tenantId (conversionPath currency) = [a]) :
    Returns env (conversionAccount tenantId currency) p a (p.read env) := by
  refine (returns_select _ p).bind ?_
  rw [h]
  exact returns_pure a _

/-- The errors the route of a transfer turns into 409 and 422. -/
def Err.answered : Err → Bool
  | .idempotencyConflict _ | .insufficientFunds _ | .currencyMismatch _ => true
  | _ => false

/-- Without a single open conversion account one of two other errors is raised. -/
theorem fails_conversionAccount {currency : Currency}
    (h : ∀ a, p.view.openAt tenantId (conversionPath currency) ≠ [a]) :
    ∃ e, e.answered = false ∧ Fails env (conversionAccount tenantId currency) p e := by
  cases hopen : p.view.openAt tenantId (conversionPath currency) with
  | nil =>
    refine ⟨.conversionAccountMissing
      s!"no open conversion account at '{conversionPath currency}' for {currency.value}", rfl,
      (returns_select _ p).fails rfl ?_⟩
    rw [hopen]
    exact fails_raise _ _
  | cons a as =>
    cases as with
    | nil => exact absurd hopen (h a)
    | cons b bs =>
      refine ⟨.multipleResultsFound, rfl, (returns_select _ p).fails rfl ?_⟩
      rw [hopen]
      exact fails_raise _ _

/-- A balance is read back from a session in step. -/
theorem returns_balanceOf {b : AccountBalance} (hstep : p.orm.InStep p.view)
    (hrow : p.view.balances.find? account = some b) (htenant : b.tenantId = tenantId) :
    ∃ q, q.db = p.db ∧ q.tx.log = p.tx.log ∧ q.orm.pending = p.orm.pending ∧
      q.orm.InStep p.view ∧ Returns env (balanceOf tenantId account) p b q := by
  obtain ⟨q, hret, hdb, hlog, hpending, hinStep⟩ : ∃ q, Returns env _ p _ q ∧ _ :=
    returns_snapshot account hstep
  refine ⟨q, hdb, hlog, hpending, hinStep, hret.bind ?_⟩
  rw [hrow]
  simp only [htenant, ne_eq, not_true_eq_false, if_false]
  exact returns_pure b q

end reads

/-! ## Movement -/

/-- The calls of the engine that a transfer makes when its movement starts at
    a node: one, or two through the conversion accounts. -/
inductive Routes (d : Database) (tenantId : String) (src dst : Account) (req : TransferRequest)
    (effectiveAt : Time) (node : Nat) : List Call → Prop where
  | direct (hcur : src.currency = dst.currency) :
      Routes d tenantId src dst req effectiveAt node
        [⟨node, 0, pair req.sourceAccountId req.destinationAccountId req.amount effectiveAt,
          req.memo⟩]
  | converted {rate srcConv dstConv} {target : Minor} (hcur : src.currency ≠ dst.currency)
      (hrate : d.resolve src.currency dst.currency effectiveAt = some rate)
      (hconv : convert req.amount src.currency dst.currency rate.rate = some target)
      (hsrc : d.openAt tenantId (conversionPath src.currency) = [srcConv])
      (hdst : d.openAt tenantId (conversionPath dst.currency) = [dstConv]) :
      Routes d tenantId src dst req effectiveAt node
        [⟨node + (d.rateNodes src.currency dst.currency effectiveAt + 2), 0,
          pair src.id srcConv.id req.amount effectiveAt, legMemo req.memo "debit" rate⟩,
         ⟨node + (d.rateNodes src.currency dst.currency effectiveAt + 2) + 13, 1,
          pair dstConv.id dst.id target effectiveAt, legMemo req.memo "credit" rate⟩]

section movement

variable {env : Env} {p q : Point} {tenantId : String}

/-- Reads, and then what sends rows. -/
theorem Svc.Returns.thenSends {α β : Type} {x : Svc α} {f : α → Svc β} {a : α} {b : β}
    {ws : List Write} {o : OrmSession} {k l : Nat} (hx : Svc.Returns env x p a q)
    (hs : p.Stays q k) (hf : Svc.Sends env (f a) q ws b o l) :
    Svc.Sends env (x >>= f) p ws b o (k + l) := by
  obtain ⟨oq, node, db, tx⟩ := q
  obtain rfl : node = p.node + k := hs.node
  obtain rfl : db = p.db := hs.db
  exact hx.then hs.log hf

variable [Runtime]

/-- What a movement sends and leaves pending. -/
structure MoveSends (env : Env) (tenantId : String) (src dst : Account) (req : TransferRequest)
    (effectiveAt : Time) (p : Point) (calls : List Call) (ws : List Write) (event : OutboxEvent)
    (o : OrmSession) : Prop where
  sends : ∃ id k, Svc.Sends env (moveFunds tenantId src dst req effectiveAt) p ws id o k
  pending : o.pending = [.insOutbox event]
  inStep : o.InStep (replay p.view ws)
  rows : calls.flatMap (fun c => c.rows env tenantId p.view) = ws ++ [.insOutbox event]

/-- The rows of a movement that can be routed. -/
theorem Routes.sends {src dst : Account} {req : TransferRequest} {effectiveAt : Time}
    {calls : List Call} (h : Routes p.view tenantId src dst req effectiveAt p.node calls)
    (hpending : p.orm.pending = []) (hstep : p.orm.InStep p.view) :
    ∃ ws event o, MoveSends env tenantId src dst req effectiveAt p calls ws event o := by
  cases h with
  | direct hcur =>
    let c : Call := ⟨p.node, 0,
      pair req.sourceAccountId req.destinationAccountId req.amount effectiveAt, req.memo⟩
    have hpost : Svc.Sends env (postTransaction tenantId c.specs c.memo) p
        ([] ++ c.body env tenantId p.view) _ _ _ :=
      c.sends rfl hpending rfl (fun r hr => by cases hr) (by simp [c, pair])
        (by simp [c, pair, negate]) (fun _ => rfl)
    -- the call is all of the movement
    have hmove : ∃ k, Svc.Sends env (moveFunds tenantId src dst req effectiveAt) p
        (([] ++ c.body env tenantId p.view) ++ []) (c.row env tenantId).id
        (c.after env tenantId p.view p.orm) k := by
      unfold moveFunds
      rw [if_neg (not_not.mpr hcur)]
      exact ⟨_, hpost.bind fun tx _ => (Svc.returns_pure _ _).sends (k := 0) rfl⟩
    rw [List.append_nil, List.nil_append] at hmove
    exact ⟨_, c.emitted env tenantId, _, ⟨_, hmove⟩, rfl, c.inStep env _ _ hstep fun _ => rfl,
      by simp [c, Call.rows_eq]⟩
  | @converted rate srcConv dstConv target hcur hrate hconv hsrc hdst =>
    let c₁ : Call := ⟨p.node + (p.view.rateNodes src.currency dst.currency effectiveAt + 2), 0,
      pair src.id srcConv.id req.amount effectiveAt, legMemo req.memo "debit" rate⟩
    let c₂ : Call := ⟨p.node + (p.view.rateNodes src.currency dst.currency effectiveAt + 2) + 13, 1,
      pair dstConv.id dst.id target effectiveAt, legMemo req.memo "credit" rate⟩
    obtain ⟨q, hq, hresolved⟩ : ∃ q, p.Stays q _ ∧ Svc.Returns env _ p rate q :=
      returns_resolveRate hcur hrate
    -- the three reads before the first call move nothing but the node
    have hstays := (hq.trans (.read env q)).trans (.read env (q.read env))
    have hsrcRead : Svc.Returns env (conversionAccount tenantId src.currency) q srcConv
        (q.read env) := returns_conversionAccount (by rw [hq.view]; exact hsrc)
    have hdstRead : Svc.Returns env (conversionAccount tenantId dst.currency) (q.read env) dstConv
        ((q.read env).read env) :=
      returns_conversionAccount (by rw [(hq.trans (.read env q)).view]; exact hdst)
    generalize hq₃ : (q.read env).read env = q₃ at hstays hdstRead
    have hdebit : Svc.Sends env (postTransaction tenantId c₁.specs c₁.memo) q₃
        ([] ++ c₁.body env tenantId p.view) _ _ _ :=
      c₁.sends hstays.node (hstays.pending.trans hpending) rfl (fun r hr => by cases hr)
        (by simp [c₁, pair]) (by simp [c₁, pair, negate]) (fun _ => by rw [hstays.view])
    -- the second call sees the rows of the first one, which match the same snapshots
    have hsame : ∀ account, Svc.matched p.view tenantId account =
        Svc.matched (replay p.view (c₁.body env tenantId p.view)) tenantId account := by
      intro account
      rw [matched_replay (c₁.noNewSnapshot_body _ _)]
    have hcredit : ∀ tx : Tx Write Resource, tx.log = q₃.tx.log ++ c₁.body env tenantId p.view →
        Svc.Sends env (postTransaction tenantId c₂.specs c₂.memo)
          ⟨c₁.after env tenantId p.view q₃.orm, q₃.node + 13, q₃.db, tx⟩
          ([.insOutbox (c₁.emitted env tenantId)] ++ c₂.body env tenantId p.view)
          (c₂.row env tenantId)
          (c₂.after env tenantId p.view (c₁.after env tenantId p.view q₃.orm)) 14 := by
      intro tx hlog
      refine c₂.sends ?_ rfl rfl (fun r hr => by simp at hr) (by simp [c₂, pair])
        (by simp [c₂, pair, negate]) (fun account => ?_)
      · show q₃.node + 13 = _
        rw [hstays.node]
      · show Svc.matched (replay q₃.db tx.log) tenantId account = _
        rw [hlog, replay_append, hsame, ← hstays.view]
        rfl
    -- both calls, after the reads
    have hroute : ∃ r k,
        Svc.Sends env (routeConversion tenantId src dst req.amount effectiveAt req.memo) p
          (([] ++ c₁.body env tenantId p.view) ++
            (([.insOutbox (c₁.emitted env tenantId)] ++ c₂.body env tenantId p.view) ++ []))
          r (c₂.after env tenantId p.view (c₁.after env tenantId p.view q₃.orm)) k := by
      unfold routeConversion
      refine ⟨⟨(c₁.row env tenantId).id, (c₂.row env tenantId).id, req.amount, target, rate⟩,
        _ + (1 + (1 + (13 + (14 + 0)))), hresolved.thenSends hq ?_⟩
      rw [hconv]
      refine hsrcRead.thenSends (.read env q) ?_
      refine hdstRead.thenSends (hq₃ ▸ .read env (q.read env)) ?_
      refine hdebit.bind fun tx hlog => ?_
      refine (hcredit tx hlog).bind fun tx' _ => ?_
      exact (Svc.returns_pure _ _).sends (k := 0) rfl
    obtain ⟨r, k, hroute⟩ := hroute
    have hmove : ∃ id k, Svc.Sends env (moveFunds tenantId src dst req effectiveAt) p
        ((([] ++ c₁.body env tenantId p.view) ++
          (([.insOutbox (c₁.emitted env tenantId)] ++ c₂.body env tenantId p.view) ++ [])) ++ []) id
        (c₂.after env tenantId p.view (c₁.after env tenantId p.view q₃.orm)) k := by
      unfold moveFunds
      rw [if_pos hcur]
      exact ⟨_, _, hroute.bind fun tx _ => (Svc.returns_pure _ _).sends (k := 0) rfl⟩
    rw [List.append_nil, List.append_nil, List.nil_append] at hmove
    refine ⟨_, c₂.emitted env tenantId, _, hmove, rfl, ?_, ?_⟩
    · -- the event of the first call was still pending at the second one
      have hfirst := c₁.inStep env tenantId p.view (hstays.inStep hstep) (fun _ => rfl)
      have hevent := hfirst.replay [.insOutbox (c₁.emitted env tenantId)] (by simp [Write.table])
      have hsecond := c₂.inStep env tenantId p.view hevent fun account => hsame account
      rw [← replay_append, ← replay_append] at hsecond
      simpa using hsecond
    · simp [c₁, c₂, Call.rows_eq]

/-- A movement that no calls carry out raises an error its route does not know. -/
theorem fails_moveFunds {src dst : Account} {req : TransferRequest} {effectiveAt : Time}
    (h : ∀ calls, ¬ Routes p.view tenantId src dst req effectiveAt p.node calls) :
    ∃ e, e.answered = false ∧ Svc.Fails env (moveFunds tenantId src dst req effectiveAt) p e := by
  have hcur : src.currency ≠ dst.currency := fun hcur => h _ (.direct hcur)
  have hroute : ∃ e, e.answered = false ∧ Svc.Fails env
      (routeConversion tenantId src dst req.amount effectiveAt req.memo) p e := by
    unfold routeConversion
    cases hrate : p.view.resolve src.currency dst.currency effectiveAt with
    | none =>
      obtain ⟨msg, hfails⟩ : ∃ msg, Svc.Fails env _ p (.rateUnavailable msg) :=
        fails_resolveRate hcur hrate
      exact ⟨_, rfl, hfails.bind _⟩
    | some rate =>
      obtain ⟨q, hq, hresolved⟩ : ∃ q, p.Stays q _ ∧ Svc.Returns env _ p rate q :=
        returns_resolveRate hcur hrate
      cases hconv : convert req.amount src.currency dst.currency rate.rate with
      | none =>
        refine ⟨.invalidOperation, rfl, hresolved.fails hq.db ?_⟩
        rw [hconv]
        exact Svc.fails_raise _ _
      | some target =>
        by_cases hsrc : ∃ a, p.view.openAt tenantId (conversionPath src.currency) = [a]
        · obtain ⟨srcConv, hsrc⟩ := hsrc
          have hsrcRead : Svc.Returns env (conversionAccount tenantId src.currency) q srcConv
              (q.read env) := returns_conversionAccount (by rw [hq.view]; exact hsrc)
          have hread := hq.trans (.read env q)
          -- so the destination has none, or several
          have hdst : ∀ a,
              (q.read env).view.openAt tenantId (conversionPath dst.currency) ≠ [a] := by
            intro a hdst
            rw [hread.view] at hdst
            exact h _ (.converted hcur hrate hconv hsrc hdst)
          obtain ⟨e, he, hfails⟩ : ∃ e, e.answered = false ∧ Svc.Fails env _ (q.read env) e :=
            fails_conversionAccount hdst
          refine ⟨e, he, hresolved.fails hq.db ?_⟩
          rw [hconv]
          exact hsrcRead.fails rfl (hfails.bind _)
        · obtain ⟨e, he, hfails⟩ : ∃ e, e.answered = false ∧ Svc.Fails env _ q e :=
            fails_conversionAccount (fun a ha => hsrc ⟨a, by rw [← hq.view]; exact ha⟩)
          refine ⟨e, he, hresolved.fails hq.db ?_⟩
          rw [hconv]
          exact hfails.bind _
  obtain ⟨e, he, hfails⟩ := hroute
  refine ⟨e, he, ?_⟩
  unfold moveFunds
  rw [if_pos hcur]
  exact hfails.bind _

/-! ## Settlement -/

/-- A transfer from its movement on. -/
def settle (tenantId : String) (req : TransferRequest) (idempotencyKey : String)
    (src dst : Account) (effectiveAt : Time) : Svc (Nat × TransferResponse) := do
  let txnId ← moveFunds tenantId src dst req effectiveAt
  let srcAfter ← balanceOf tenantId req.sourceAccountId
  let dstAfter ← balanceOf tenantId req.destinationAccountId
  let response : TransferResponse :=
    { transactionId := txnId, sourceBalance := srcAfter.balance,
      destinationBalance := dstAfter.balance }
  record tenantId ENDPOINT idempotencyKey req.modelDump response.modelDump
  Svc.commit
  return (200, response)

theorem returns_record {endpoint key : String} {body response : Json} (p : Point) :
    ∃ r q, r.id = ⟨tenantId, endpoint, key⟩ ∧
      Svc.Returns env (record tenantId endpoint key body response) p () q ∧
      q.db = p.db ∧ q.tx.log = p.tx.log ∧ q.orm.pending = p.orm.pending ++ [.insRecord r] :=
  ⟨_, _, rfl, (Svc.returns_now p).bind (Svc.returns_add _ _), rfl, rfl, rfl⟩

/-- The rows of calls of the engine, one table at a time. -/
theorem table_calls {d : Database} {calls : List Call} {w : Write}
    (hw : w ∈ calls.flatMap fun c => c.rows env tenantId d) : w.table = .transactions ∨
      w.table = .postings ∨ w.table = .balances ∨ w.table = .outbox := by
  obtain ⟨c, -, hw⟩ := List.mem_flatMap.mp hw
  exact table_emission hw

theorem noNewSnapshot_calls {d : Database} {calls : List Call} :
    NoNewSnapshot (calls.flatMap fun c => c.rows env tenantId d) := by
  intro r hr
  obtain ⟨c, -, hr⟩ := List.mem_flatMap.mp hr
  exact noNewSnapshot_emission _ _ _ r hr

/-- What a movement sends leaves the snapshots' tenants and the records alone. -/
theorem MoveSends.frame {src dst : Account} {req : TransferRequest} {effectiveAt : Time}
    {calls : List Call} {ws : List Write} {event : OutboxEvent} {o : OrmSession}
    (h : MoveSends env tenantId src dst req effectiveAt p calls ws event o) :
    (∀ account, Svc.matched (replay p.view ws) tenantId account =
      Svc.matched p.view tenantId account) ∧ (replay p.view ws).records = p.view.records := by
  have hmem : ∀ w ∈ ws, w ∈ calls.flatMap fun c => c.rows env tenantId p.view := by
    intro w hw
    rw [h.rows]
    exact List.mem_append_left _ hw
  constructor
  · intro account
    exact matched_replay (fun r hr => noNewSnapshot_calls r (hmem _ hr)) _ _ _
  · exact Database.replay_records fun w hw => by
      rcases table_calls (hmem w hw) with h | h | h | h <;> simp [h]

/-- **A transfer whose movement can be routed** settles if the database admits
    the rows of its calls, and otherwise raises what the database answers. -/
theorem MoveSends.settles {src dst : Account} {req : TransferRequest} {effectiveAt : Time}
    {calls : List Call} {ws : List Write} {event : OutboxEvent} {o : OrmSession} {key : String}
    (h : MoveSends env tenantId src dst req effectiveAt p calls ws event o)
    (hsrc : Svc.matched p.view tenantId req.sourceAccountId = true)
    (hdst : Svc.matched p.view tenantId req.destinationAccountId = true)
    (hunseen : p.view.records.find? ⟨tenantId, ENDPOINT, key⟩ = none) :
    (Admitted p.view (ws ++ [.insOutbox event]) →
      ∃ a q, Svc.Returns env (settle tenantId req key src dst effectiveAt) p a q) ∧
    (¬ Admitted p.view (ws ++ [.insOutbox event]) → ∃ e, e.rejection = true ∧
      Svc.Fails env (settle tenantId req key src dst effectiveAt) p e) := by
  obtain ⟨id, k, hsends⟩ := h.sends
  obtain ⟨hmatched, hrecords⟩ := h.frame
  rw [admitted_append]
  by_cases hws : Admitted p.view ws
  swap
  · refine ⟨fun hadm => absurd hadm.1 hws, fun _ => ?_⟩
    obtain ⟨e, he, hfails⟩ := hsends.rejected hws
    exact ⟨e, he, hfails.bind _⟩
  obtain ⟨tx, hlog, hmoved⟩ := hsends.admitted hws
  -- the balances are read back, and the record is left pending beside the event
  have hview : (⟨o, p.node + k, p.db, tx⟩ : Point).view = replay p.view ws := by
    simp [Point.view, hlog, replay_append]
  obtain ⟨srcAfter, hsrcRow, hsrcTenant⟩ := matched_iff.mp ((hmatched _).trans hsrc)
  obtain ⟨dstAfter, hdstRow, hdstTenant⟩ := matched_iff.mp ((hmatched _).trans hdst)
  have hstep : (⟨o, p.node + k, p.db, tx⟩ : Point).orm.InStep
      (⟨o, p.node + k, p.db, tx⟩ : Point).view := by
    rw [hview]
    exact h.inStep
  have hpending : (⟨o, p.node + k, p.db, tx⟩ : Point).orm.pending = [.insOutbox event] := h.pending
  have hdb : (⟨o, p.node + k, p.db, tx⟩ : Point).db = p.db := rfl
  generalize (⟨o, p.node + k, p.db, tx⟩ : Point) = q at hmoved hview hstep hpending hdb
  obtain ⟨q₁, hdb₁, hlog₁, hpending₁, hstep₁, hsrcRead⟩ : ∃ q₁, q₁.db = q.db ∧ _ ∧ _ ∧ _ ∧
      Svc.Returns env (balanceOf tenantId req.sourceAccountId) q srcAfter q₁ :=
    returns_balanceOf hstep (by rw [hview]; exact hsrcRow) hsrcTenant
  have hview₁ : q₁.view = q.view := by simp [Point.view, hdb₁, hlog₁]
  obtain ⟨q₂, hdb₂, hlog₂, hpending₂, -, hdstRead⟩ : ∃ q₂, q₂.db = q₁.db ∧ _ ∧ _ ∧ _ ∧
      Svc.Returns env (balanceOf tenantId req.destinationAccountId) q₁ dstAfter q₂ :=
    returns_balanceOf (by rw [hview₁]; exact hstep₁) (by rw [hview₁, hview]; exact hdstRow)
      hdstTenant
  -- the record is the last row, and nothing else has its key
  obtain ⟨r, q₃, hid, hrecorded, hdb₃, hlog₃, hpending₃⟩ : ∃ r q₃, _ ∧
      Svc.Returns env (record tenantId ENDPOINT key req.modelDump
        (TransferResponse.modelDump ⟨id, srcAfter.balance, dstAfter.balance⟩)) q₂ () q₃ ∧ _ :=
    returns_record q₂
  have hview₃ : q₃.view = replay p.view ws := by
    rw [← hview, ← hview₁]
    simp [Point.view, hdb₃, hlog₃, hdb₂, hlog₂]
  have hflushed : q₃.orm.pending = [.insOutbox event] ++ [.insRecord r] := by
    rw [hpending₃, hpending₂, hpending₁, hpending]
  have hrow : Admitted (replay (replay p.view ws) [.insOutbox event]) [.insRecord r] := by
    have hfresh : (replay (replay p.view ws) [.insOutbox event]).records.find? r.id = none := by
      show (replay p.view ws).records.find? r.id = none
      rw [hrecords, hid]
      exact hunseen
    refine admitted_cons.mpr ⟨?_, admitted_nil _⟩
    show Database.require _ _ = .ok ()
    rw [hfresh]
    rfl
  -- so the flush of the commit depends on the event alone
  have hadmitted : Admitted q₃.view q₃.orm.pending ↔
      Admitted (replay p.view ws) [.insOutbox event] := by
    rw [hview₃, hflushed, admitted_append]
    exact and_iff_left hrow
  obtain ⟨hcommits, hrejects⟩ : (_ → ∃ q₄, Svc.Returns env Svc.commit q₃ () q₄ ∧ _) ∧
      (_ → ∃ e, e.rejection = true ∧ Svc.Fails env Svc.commit q₃ e) := commit_alone q₃
  rw [hadmitted] at hcommits hrejects
  constructor
  · intro hadm
    obtain ⟨q₄, hcommit, -⟩ := hcommits hadm.2
    exact ⟨_, q₄, hmoved.bind (hsrcRead.bind (hdstRead.bind (hrecorded.bind
      (hcommit.bind (Svc.returns_pure _ _)))))⟩
  · intro hno
    obtain ⟨e, he, hfails⟩ := hrejects fun hadm => hno ⟨hws, hadm⟩
    exact ⟨e, he, hmoved.fails hdb (hsrcRead.fails hdb₁ (hdstRead.fails hdb₂ (hrecorded.fails hdb₃
      (hfails.bind _))))⟩

end movement

/-! ## The Transfer -/

/-- The node the movement of a transfer starts at. -/
def movementNode (req : TransferRequest) : Nat := 6 + if req.effectiveAt.isSome then 0 else 1

/-- The instant the movement is effective at. -/
def effectiveTime (env : Env) (req : TransferRequest) : Time :=
  req.effectiveAt.getD (env.clock 6)

/-- The request passes the checks of a transfer: its key is new, both accounts
    are there, and the source has the funds. -/
structure Passes (env : Env) (d : Database) (tenantId : String) (req : TransferRequest)
    (key : String) (src dst : Account) : Prop where
  unseen : d.records.find? ⟨tenantId, ENDPOINT, key⟩ = none
  source : d.HasAccount tenantId req.sourceAccountId src
  destination : d.HasAccount tenantId req.destinationAccountId dst
  covers : d.Covers tenantId req.sourceAccountId (env.clock 0) req.amount

section transfer

variable [Runtime] {env : Env} {d : Database} {tenantId key : String} {req : TransferRequest}
  {src dst : Account}

omit [Runtime] in
@[simp] theorem Point.view_start (d : Database) : ({ db := d } : Point).view = d := by
  simp [view]

omit [Runtime] in
/-- The first statement opens the transaction. -/
theorem Point.start_read (env : Env) (d : Database) :
    (({ db := d } : Point).read env).tx.start = some (env.clock 0) := rfl

/-- A request with a new key finds no record, and has read nothing else yet. -/
theorem returns_unseen (env : Env) (req : TransferRequest)
    (hunseen : d.records.find? ⟨tenantId, ENDPOINT, key⟩ = none) : ∃ p,
    Svc.Returns env (lookup tenantId ENDPOINT key req.modelDump) { db := d } none p ∧
      Point.Stays { db := d } p 1 ∧ p.tx.start = some (env.clock 0) ∧
      p.orm.balances req.sourceAccountId = none := by
  have hview : ({ db := d } : Point).view.records.find? ⟨tenantId, ENDPOINT, key⟩ = none := by
    rw [Point.view_start]
    exact hunseen
  exact ⟨_, returns_lookup hview, .read env _, Point.start_read env d, rfl⟩

/-- A request that passes the checks gets to its movement. -/
theorem Passes.leads (h : Passes env d tenantId req key src dst) :
    ∃ q, Point.Stays { db := d } q (movementNode req) ∧
      Svc.Leads env (executeTransfer tenantId req key) { db := d }
        (settle tenantId req key src dst (effectiveTime env req)) q := by
  obtain ⟨p₁, hlookup, hstays₁, hstart, hfresh⟩ := returns_unseen env req h.unseen
  have hstays₂ := hstays₁.trans (.read env p₁)
  have hstays₃ := hstays₂.trans (.read env (p₁.read env))
  have hsrc : Svc.Returns env (requireAccount tenantId req.sourceAccountId) p₁ src (p₁.read env) :=
    returns_requireAccount (by rw [hstays₁.view, Point.view_start]; exact h.source)
  have hdst : Svc.Returns env (requireAccount tenantId req.destinationAccountId) (p₁.read env) dst
      ((p₁.read env).read env) :=
    returns_requireAccount (by rw [hstays₂.view, Point.view_start]; exact h.destination)
  have hopen := (Point.Stays.read env (p₁.read env)).start _
    ((Point.Stays.read env p₁).start _ hstart)
  obtain ⟨q, hq, hfunds⟩ : ∃ q, ((p₁.read env).read env).Stays q 3 ∧
      Svc.Returns env (requireFunds tenantId req.sourceAccountId req.amount) _ () q :=
    returns_requireFunds hfresh hopen (by rw [hstays₃.view, Point.view_start]; exact h.covers)
  obtain ⟨r, hr, hnow⟩ : ∃ r, q.Stays r _ ∧ Svc.Returns env (orNow req.effectiveAt) q _ r :=
    returns_orNow req.effectiveAt q
  have hnode : q.node = 6 := (hstays₃.trans hq).node
  rw [hnode] at hnow
  refine ⟨r, (hstays₃.trans hq).trans hr, ?_⟩
  exact hlookup.leads.trans (hsrc.leads.trans (hdst.leads.trans (hfunds.leads.trans hnow.leads)))

/-- A request with a new key that does not pass them is refused. -/
theorem fails_unpassed (hunseen : d.records.find? ⟨tenantId, ENDPOINT, key⟩ = none)
    (h : ∀ src dst, ¬ Passes env d tenantId req key src dst) :
    ∃ msg, Svc.Fails env (executeTransfer tenantId req key)
      { db := d } (.insufficientFunds msg) := by
  obtain ⟨p₁, hlookup, hstays₁, hstart, hfresh⟩ := returns_unseen env req hunseen
  have hstays₂ := hstays₁.trans (.read env p₁)
  have hstays₃ := hstays₂.trans (.read env (p₁.read env))
  by_cases hsrc : ∃ src, d.HasAccount tenantId req.sourceAccountId src
  swap
  · obtain ⟨msg, hfails⟩ : ∃ msg, Svc.Fails env
        (requireAccount tenantId req.sourceAccountId) p₁ (.insufficientFunds msg) :=
      fails_requireAccount fun a ha => hsrc ⟨a, by
        rwa [hstays₁.view, Point.view_start] at ha⟩
    exact ⟨msg, hlookup.fails hstays₁.db (hfails.bind _)⟩
  obtain ⟨src, hsrc⟩ := hsrc
  have hsrcRead : Svc.Returns env (requireAccount tenantId req.sourceAccountId) p₁ src
      (p₁.read env) :=
    returns_requireAccount (by rw [hstays₁.view, Point.view_start]; exact hsrc)
  by_cases hdst : ∃ dst, d.HasAccount tenantId req.destinationAccountId dst
  swap
  · obtain ⟨msg, hfails⟩ : ∃ msg, Svc.Fails env
        (requireAccount tenantId req.destinationAccountId) (p₁.read env) (.insufficientFunds msg) :=
      fails_requireAccount fun a ha => hdst ⟨a, by
        rwa [hstays₂.view, Point.view_start] at ha⟩
    exact ⟨msg, hlookup.fails hstays₁.db (hsrcRead.fails rfl (hfails.bind _))⟩
  obtain ⟨dst, hdst⟩ := hdst
  have hdstRead : Svc.Returns env (requireAccount tenantId req.destinationAccountId) (p₁.read env)
      dst ((p₁.read env).read env) :=
    returns_requireAccount (by rw [hstays₂.view, Point.view_start]; exact hdst)
  have hopen := (Point.Stays.read env (p₁.read env)).start _
    ((Point.Stays.read env p₁).start _ hstart)
  obtain ⟨msg, hfails⟩ : ∃ msg, Svc.Fails env
      (requireFunds tenantId req.sourceAccountId req.amount) _ (.insufficientFunds msg) :=
    fails_requireFunds (p := (p₁.read env).read env) hfresh hopen fun hcovers =>
      h src dst ⟨hunseen, hsrc, hdst, by
        rwa [hstays₃.view, Point.view_start] at hcovers⟩
  exact ⟨msg, hlookup.fails hstays₁.db (hsrcRead.fails rfl (hdstRead.fails rfl (hfails.bind _)))⟩

end transfer

end Ledger
