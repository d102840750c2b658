import Ledger.Properties.HoldLifecycle
import Ledger.Properties.Undo
import Ledger.Runs.IdentityMap

/-! # The Balances Around a Hold

    A hold reserves while a live query counts it: active, and its expiry after
    the clock of the database.  A session sends a changed hold at the commit,
    so a query before it still counts the old row.

    * **Ownership**: every hold is on an account of its tenant.
    * **Placement**: the available balance falls by the amount exactly when
      the expiry is after the clock.
    * **Responses**: the balances in the answer of a hold request are the
      committed ones, but for the capture of a hold that still reserves.
-/

namespace Ledger

open ReadCommitted

variable {d d' : Database} {tenantId key : String} {account : UUID} {env : Env}
  {reply : Reply}

/-! ## Holds on Owned Accounts -/

theorem Outcome.insHold_owned [Runtime] {r : Request} {ws : List Write} (h : Outcome env d r ws)
    {hold : Hold} (hmem : .insHold hold ∈ ws) : d.Owns hold.tenantId hold.accountId := by
  have hemission : ∀ (txn : Transaction) (legs : List Leg) (event : OutboxEvent),
      .insHold hold ∉ emission txn legs event := by
    intro txn legs event hw
    rcases table_emission hw with h | h | h | h <;> cases h
  cases h with
  | placed _ haccount _ htenant hon =>
    simp only [List.mem_cons, Write.insHold.injEq, List.not_mem_nil, or_false, reduceCtorEq] at hmem
    subst hmem
    exact ⟨_, by rw [hon]; exact haccount.1, by rw [htenant]; exact haccount.2.1⟩
  | posted => exact absurd hmem (hemission _ _ _)
  | transferred | captured | reversed =>
    simp only [List.mem_append, List.mem_singleton, reduceCtorEq, or_false] at hmem
    exact absurd hmem (hemission _ _ _)
  | converted =>
    simp only [List.mem_append, List.mem_singleton, reduceCtorEq, or_false] at hmem
    rcases hmem with hmem | hmem
    · exact absurd hmem (hemission _ _ _)
    · exact absurd hmem (hemission _ _ _)
  | nothing | opened | released | rated | dispatched | imported | swept => simp at hmem

/-- Every hold is on an account of its tenant. -/
def HoldsOwned (d : Database) : Prop := ∀ h ∈ d.holds.rows, d.Owns h.tenantId h.accountId

/-- A write inserts a hold, changes one without moving it, or leaves them alone. -/
theorem holdsOwned_replay {ws : List Write} {d₀ : Database}
    (hnew : ∀ hold, .insHold hold ∈ ws → d₀.Owns hold.tenantId hold.accountId)
    (h : ∀ x ∈ d.holds.rows, d₀.Owns x.tenantId x.accountId) :
    ∀ x ∈ (replay d ws).holds.rows, d₀.Owns x.tenantId x.accountId := by
  refine replay_induction
    (P := fun d' => ∀ x ∈ d'.holds.rows, d₀.Owns x.tenantId x.accountId) d h ?_
  intro d' w hw hd' x hx
  have hmodify : ∀ (f : Hold → Hold) (hf : ∀ r, Keyed.key (f r) = Keyed.key r) (id : UUID),
      (∀ y, (f y).tenantId = y.tenantId ∧ (f y).accountId = y.accountId) →
      x ∈ (d'.holds.modify id f hf).rows → d₀.Owns x.tenantId x.accountId := by
    intro f hf id hkept hx
    obtain ⟨y, hy, heq⟩ := List.mem_map.mp hx
    split_ifs at heq
    · rw [← heq, (hkept y).1, (hkept y).2]
      exact hd' y hy
    · exact heq ▸ hd' y hy
  cases w with
  | insHold r =>
    rcases Table.mem_insert.mp hx with hx | ⟨rfl, -⟩
    · exact hd' x hx
    · exact hnew _ hw
  | captureHold id t amount time =>
    exact hmodify _ (Hold.key_capture t amount time) id (fun _ => ⟨rfl, rfl⟩) hx
  | releaseHold id time => exact hmodify _ (Hold.key_release time) id (fun _ => ⟨rfl, rfl⟩) hx
  | _ => exact hd' x hx

theorem Attained.holdsOwned [Runtime] (h : Attained d) : HoldsOwned d := by
  have hreplay : ∀ (d : Database) (ws : List Write),
      (∀ hold, .insHold hold ∈ ws → d.Owns hold.tenantId hold.accountId) → HoldsOwned d →
        HoldsOwned (replay d ws) := fun d ws hnew hd x hx =>
    owns_replay (holdsOwned_replay hnew hd x hx)
  induction h with
  | empty => intro x hx; cases hx
  | @alone d r env _ _ ih =>
    obtain ⟨ws, hout, -, hafter⟩ := executed_outcome r env d
    rw [hafter]
    exact hreplay d ws (fun hold hw => hout.insHold_owned hw) ih
  | beside _ _ hr ih =>
    exact made_invariant ih (fun d ws hmade => hreplay d ws fun hold hw => hmade _ hw) hr

/-! ## Placement -/

/-- A hold that is inserted adds its amount wherever it reserves. -/
theorem heldTotal_insert {h : Hold} (hfresh : d.holds.find? h.id = none) (tenantId : String)
    (account : UUID) (now : Time) :
    (d.apply (.insHold h)).heldTotal tenantId account now =
      d.heldTotal tenantId account now + if h.reserves tenantId account now then h.amount else 0 :=
  Table.total_insert_of_fresh hfresh _ _

/-- At the instant the placement took its amount from what the account has
    available, and left it nonnegative; the other figures are as they were. -/
structure Reserved (d d' : Database) (tenantId : String) (account : UUID) (amount : Int)
    (now : Time) : Prop where
  taken : ∃ b b', d.availableBalance tenantId account now = some b ∧
    d'.availableBalance tenantId account now = some b' ∧ b'.posted = b.posted ∧
    b'.available = b.available - amount ∧ 0 ≤ b'.available
  others : ∀ t a, a ≠ account → d'.availableBalance t a now = d.availableBalance t a now

section placement

variable [Runtime] {req : PlaceHoldRequest}

/-- The figures of an account after the writes of a placement. -/
theorem PlaceRun.figures {g : Shared Unit Database Write}
    (run : PlaceRun (alone env) tenantId req key g) (t : String) (a : UUID) (now : Time) :
    (replay g.db [.insHold run.hold, .insRecord run.stored]).availableBalance t a now =
      (g.db.availableBalance t a now).map fun b =>
        ⟨b.posted, b.held + if run.hold.reserves t a now then run.hold.amount else 0⟩ := by
  have hfresh : g.db.holds.find? run.hold.id = none :=
    Database.fresh_hold run.whole.admitted.head
  have hheld := heldTotal_insert hfresh t a now
  have hbalances : (g.db.apply (.insHold run.hold)).balances = g.db.balances := rfl
  show Database.availableBalance (g.db.apply (.insHold run.hold)) t a now = _
  unfold Database.availableBalance
  rw [hheld, hbalances]
  cases g.db.balances.find? a with
  | none => rfl
  | some b =>
    by_cases ht : b.tenantId = t
    · simp [ht]
    · simp [ht]

/-- The new hold reserves on its account until its expiry, and nowhere else. -/
theorem PlaceRun.reserves {g : Shared Unit Database Write}
    (run : PlaceRun (alone env) tenantId req key g) (t : String) (a : UUID) (now : Time) :
    run.hold.reserves t a now = true ↔
      req.accountId = a ∧ tenantId = t ∧ now < run.hold.expiresAt := by
  simp [Hold.reserves, run.hold_account, run.hold_tenant, run.hold_state, and_assoc]

/-- The funds check leaves the amount covered from then on. -/
theorem PlaceRun.covered {g : Shared Unit Database Write}
    (run : PlaceRun (alone env) tenantId req key g) (hclock : env.Reads g.clock) {now : Time}
    (hnow : ∀ t, env.Reads t → t ≤ now) :
    ∃ b, g.db.availableBalance tenantId req.accountId now = some b ∧ req.amount ≤ b.available := by
  have hread := run.lookup.trans run.readAccount
  have hgS : run.gS.db = g.db := hread.rely.1
  obtain ⟨hstart, -⟩ := start_of_began run.began (run.readAccount.trans run.funds.progress)
  have hreads := (run.lookup.rely.2 hclock)
  obtain ⟨lock, -, posted, loaded, tenant, holds, covers⟩ := run.funds
  have hg₂ := (lock.trans posted).rely.1
  have hgF : run.gF.db = run.gS.db := ((lock.trans posted).trans holds).rely.1
  have hseen := loaded.fresh rfl
  rw [run.txS_log, replay_nil, hg₂, hgS] at hseen
  rw [run.txS_log, replay_nil, hgF, hgS] at covers
  have hle : run.txF.now ≤ now := by
    rw [Tx.now, hstart]
    exact hnow _ hreads
  have hheld := heldTotal_antitone g.db tenantId req.accountId hle
  refine ⟨_, availableBalance_eq_some.mpr ⟨_, hseen.symm, tenant, rfl⟩, ?_⟩
  simp only [Balance.available]
  omega

/-- **A placement reserves** iff the expiry it stores is after the clock.  It
    is the one the response reports: the client's, or the default after the
    instant at which the hold was made. -/
theorem placement_reserves_iff
    (hexec : (Request.placeHold tenantId req key).executed env d = (.ok reply, d'))
    (hunseen : d.records.find? ⟨tenantId, PLACE_ENDPOINT, key⟩ = none) {now : Time}
    (hnow : ∀ t, env.Reads t → t ≤ now) :
    ∃ response placed, reply = .placed 200 response ∧ env.Reads placed ∧
      response.expiresAt = req.expiresAt.getD (placed + HOLD_DEFAULT_TTL) ∧
      (Reserved d d' tenantId req.accountId req.amount now ↔
        now < req.expiresAt.getD (placed + HOLD_DEFAULT_TTL)) := by
  have hres := executed_of_swp (.placeHold tenantId req key) env d
    (P := fun res d' => ∀ reply, res = .ok reply →
      ∃ response placed, reply = .placed 200 response ∧ env.Reads placed ∧
        response.expiresAt = req.expiresAt.getD (placed + HOLD_DEFAULT_TTL) ∧
        (Reserved d d' tenantId req.accountId req.amount now ↔
          now < req.expiresAt.getD (placed + HOLD_DEFAULT_TTL))) fun g hg hclock => ?_
  · rw [hexec] at hres
    exact hres reply rfl
  subst hg
  rw [Request.service, swp_map]
  refine swp_placeHold (fun _ _ _ _ _ _ h => by cases h) (fun rec p a g' tx' hp hfind _ _ _ _ => ?_)
    fun run _ => ⟨trivial, fun reply hreply => ?_⟩
  · -- the key was not known
    have hdb : g'.db = g.db := hp.rely.1
    rw [hdb, hunseen] at hfind
    cases hfind
  · cases hreply
    have hgC : run.g.db = g.db := run.whole.rely.1
    have hgE := (((run.lookup.trans run.readAccount).trans run.funds.progress).trans run.readExpiry)
    refine ⟨run.response, run.gE.clock, rfl, hgE.rely.2 hclock, run.hold_expires, ?_⟩
    show Reserved _ (replay run.g.db run.tx.log) _ _ _ _ ↔ _
    rw [hgC, run.log, ← run.hold_expires]
    -- the funds the placement was checked against
    obtain ⟨b, hb, hcovered⟩ := run.covered hclock hnow
    have hpos := req.amount_pos
    constructor
    · rintro ⟨⟨b₁, b₂, hb₁, hb₂, hposted, htaken, -⟩, -⟩
      rw [hb] at hb₁
      cases hb₁
      rw [run.figures, hb] at hb₂
      cases hb₂
      -- an expired hold would not count in the figures after it
      by_contra hlate
      have hno : ¬ run.hold.reserves tenantId req.accountId now = true := by
        rw [run.reserves]
        exact fun h => hlate h.2.2
      rw [if_neg hno] at htaken
      simp only [Balance.available] at htaken
      omega
    · intro hlater
      have hyes := (run.reserves tenantId req.accountId now).mpr ⟨rfl, rfl, hlater⟩
      constructor
      · refine ⟨b, ⟨b.posted, b.held + run.hold.amount⟩, hb, ?_, rfl, ?_⟩
        · rw [run.figures, hb, if_pos hyes]
          rfl
        rw [run.hold_amount]
        simp only [Balance.available] at hcovered ⊢
        omega
      · intro t a hne
        have hno : ¬ run.hold.reserves t a now = true := by
          rw [run.reserves]
          exact fun h => hne h.1.symm
        rw [run.figures, if_neg hno]
        cases g.db.availableBalance t a now with
        | none => rfl
        | some b => simp

end placement

section placementRuns

open Sample

/-- A hold for three minutes, placed after two. -/
theorem placement_reserves_minute :
    Reserved funded ((reserve 200 180000000 "h1" (by decide)).executed (envAt 120000000 3000)
      funded).2 "acme" alice 200 120000000 := by
  obtain ⟨reply, hexec⟩ := executed_ok
    (show ((reserve 200 180000000 "h1" (by decide)).executed (envAt 120000000 3000)
      funded).1.isOk = true by decide +kernel)
  have hrecords : funded.records.rows = [] := by decide +kernel
  have hunseen : funded.records.find? ⟨"acme", PLACE_ENDPOINT, "h1"⟩ = none := by
    rw [Table.find?, hrecords]
    rfl
  have hnow : ∀ t, (envAt 120000000 3000).Reads t → t ≤ 120000000 := by
    rintro t ⟨n, rfl⟩
    exact le_refl _
  obtain ⟨response, placed, -, -, -, hiff⟩ := placement_reserves_iff hexec hunseen hnow
  exact hiff.mpr (show (120000000 : Int) < 180000000 by decide)

/-- A hold for one minute, placed after two: it is accepted and takes nothing. -/
theorem placement_reserves_nothing : ∃ response d',
    Reached (fun d r => r.Proper d) funded ∧
    (reserve 200 60000000 "h1" (by decide)).executed (envAt 120000000 3000) funded =
      (.ok (.placed 200 response), d') ∧ response.state = .ACTIVE ∧
    funded.availableBalance "acme" alice 120000000 = some ⟨200, 0⟩ ∧
    d'.availableBalance "acme" alice 120000000 = some ⟨200, 0⟩ ∧
    ¬ Reserved funded d' "acme" alice 200 120000000 := by
  have hplaced : ((reserve 200 60000000 "h1" (by decide)).executed (envAt 120000000 3000)
      funded).1 =
        .ok (.placed 200 ⟨3005, alice, 200, .ACTIVE, 60000000, none, none, 200, 200⟩) := by
    decide +kernel
  have hbefore : funded.availableBalance "acme" alice 120000000 = some ⟨200, 0⟩ := by
    decide +kernel
  have hafter : ((reserve 200 60000000 "h1" (by decide)).executed (envAt 120000000 3000)
      funded).2.availableBalance "acme" alice 120000000 = some ⟨200, 0⟩ := by
    decide +kernel
  refine ⟨_, _, Reached.empty.script (by decide +kernel), executed_eq hplaced, rfl, hbefore, hafter,
    ?_⟩
  rintro ⟨⟨b, b', hb, hb', -, htaken, -⟩, -⟩
  rw [hbefore] at hb
  rw [hafter] at hb'
  cases hb
  cases hb'
  revert htaken
  decide

end placementRuns

/-! ## Responses -/

/-- The balances of the response are those of its account at the instant. -/
def HoldResponse.Reports (r : HoldResponse) (d : Database) (tenantId : String) (now : Time) :
    Prop :=
  ∃ b, d.availableBalance tenantId r.accountId now = some b ∧ r.postedBalance = b.posted ∧
    r.availableBalance = b.available

/-- The requests that answer with the balances they leave: every hold request
    but the replay of a placement. -/
inductive AnswersWithBalances (d : Database) (tenantId : String) : Request → Prop where
  | place {req key} (hunseen : d.records.find? ⟨tenantId, PLACE_ENDPOINT, key⟩ = none) :
      AnswersWithBalances d tenantId (.placeHold tenantId req key)
  | capture {id req} : AnswersWithBalances d tenantId (.captureHold tenantId id req)
  | release {id} : AnswersWithBalances d tenantId (.releaseHold tenantId id)

/-- The request captures a hold that reserves at the instant. -/
def CapturesReserving (d : Database) (r : Request) (now : Time) : Prop :=
  ∃ tenantId id req hold, r = .captureHold tenantId id req ∧ d.holds.find? id = some hold ∧
    hold.state = .ACTIVE ∧ now < hold.expiresAt

theorem capturesReserving_iff {id : UUID} {req : CaptureHoldRequest} {hold : Hold} {now : Time}
    (hfind : d.holds.find? id = some hold) :
    CapturesReserving d (.captureHold tenantId id req) now ↔
      hold.state = .ACTIVE ∧ now < hold.expiresAt := by
  constructor
  · rintro ⟨_, _, _, hold', h, hfind', hlive⟩
    cases h
    rw [hfind] at hfind'
    cases hfind'
    exact hlive
  · rintro ⟨hactive, hlive⟩
    exact ⟨_, _, _, hold, rfl, hfind, hactive, hlive⟩

/-- Only a capture captures. -/
theorem not_capturesReserving {r : Request} (hr : ∀ t id req, r ≠ .captureHold t id req)
    (now : Time) : ¬ CapturesReserving d r now := by
  rintro ⟨_, _, _, _, h, -⟩
  exact hr _ _ _ h

theorem availableBalance_of_matched (hm : Svc.matched d tenantId account = true) (now : Time) :
    ∃ b, d.availableBalance tenantId account now = some b := by
  obtain ⟨s, hs, ht⟩ := (Option.any_eq_true _ _).mp hm
  exact ⟨_, availableBalance_eq_some.mpr ⟨s, hs, by simpa using ht, rfl⟩⟩

/-- What the response about a hold says when it read the figures. -/
theorem reports_responseWith {hold : Hold} {now : Time}
    (hm : Svc.matched d tenantId hold.accountId = true) :
    (responseWith hold (d.availableBalance tenantId hold.accountId now)).Reports
      d tenantId now := by
  obtain ⟨b, hb⟩ := availableBalance_of_matched hm now
  rw [hb]
  exact ⟨b, hb, rfl, rfl⟩

section responses

variable [Runtime] {g : Shared Unit Database Write} {S : Time → Prop}

/-- A placement flushed its hold before it read the figures. -/
theorem PlaceRun.reports {req : PlaceHoldRequest}
    (run : PlaceRun (aloneAt env S) tenantId req key g)
    (hstart : ∀ t, run.tx.start = some t → S t) : ∃ now, S now ∧
      run.response.Reports (replay g.db [.insHold run.hold, .insRecord run.stored])
        tenantId now := by
  have hread := run.lookup.trans run.readAccount
  have hgS : run.gS.db = g.db := hread.rely.1
  have hinsert := ((hread.trans run.funds.progress).trans run.stamp).trans run.inserted
  have hgI : run.gI.db = g.db := hinsert.rely.1
  have hlogI : run.txI.log = [.insHold run.hold] := by simpa using hinsert.log
  have hF := run.funds.inStep (inStep_fresh _)
  rw [run.txS_log, replay_nil, hgS] at hF
  have hI : OrmSession.InStep { run.oF with pending := [] } (replay g.db [.insHold run.hold]) :=
    hF.replay _ (by simp [Write.table])
  obtain ⟨hafter, -⟩ := run.readAfter.inStep (by rw [hlogI, hgI]; exact hI)
  rw [hlogI, hgI] at hafter
  -- the transaction that read them is the one that commits
  have hcommit := ((run.stamped.trans run.finish).start _ run.readAfter.started).1
  refine ⟨run.txA.now, hstart _ hcommit, run.after, ?_, rfl, rfl⟩
  -- the record that follows touches neither figure
  show (replay g.db [.insHold run.hold]).availableBalance tenantId run.hold.accountId _ = _
  rw [run.hold_account]
  exact hafter.symm

/-- A capture read the figures with its posting made and its hold pending. -/
theorem CaptureRun.reports_iff {id : UUID} {req : CaptureHoldRequest}
    (run : CaptureRun (aloneAt env S) tenantId id req g)
    (hstart : ∀ t, run.tx.start = some t → S t) :
    ∃ now, S now ∧
      (run.response.Reports (replay g.db run.ws) tenantId now ↔ ¬ now < run.hold.expiresAt) := by
  have hlock := ((run.read.trans run.readSrc).trans run.readDst).trans run.lock
  have hgK : run.gK.db = g.db := hlock.rely.1
  have hlogK : run.txK.log = [] := by simpa using hlock.log
  have hgM : run.gM.db = g.db := (run.read.trans run.prelude).rely.1
  have hposted := (run.read.trans run.prelude).trans run.posted.progress
  have hgP : run.gP.db = g.db := hposted.rely.1
  have hlogP : run.txP.log = .insTransaction run.txn :: legWrites run.legs := by
    simpa using hposted.log
  have hB := (run.readBefore.inStep (inStep_fresh _)).2
  rw [hlogK, replay_nil, hgK] at hB
  have hP := hB.post (run.posted.block (by simp [run.txB_log, hgM])) run.event
  obtain ⟨hafter, -⟩ := run.readAfter.inStep (by rw [hlogP, hgP]; exact hP)
  rw [hlogP, hgP] at hafter
  refine ⟨run.txA.now, hstart _ (run.finish.start _ run.readAfter.started).1, ?_⟩
  obtain ⟨s, hs, ht, heq⟩ := availableBalance_eq_some.mp hafter.symm
  have hheld : (replay g.db (.insTransaction run.txn :: legWrites run.legs)).heldTotal tenantId
      run.hold.accountId run.txA.now = g.db.heldTotal tenantId run.hold.accountId run.txA.now := by
    simp only [Database.heldTotal, holds_posted]
  have hsame : (replay g.db run.ws).balances =
      (replay g.db (.insTransaction run.txn :: legWrites run.legs)).balances := by
    rw [CaptureRun.ws, replay_append]
    exact Database.replay_balances (by simp [Write.table])
  have htrue : (replay g.db run.ws).availableBalance tenantId run.hold.accountId run.txA.now =
      some ⟨run.after.posted, run.after.held -
        if run.txA.now < run.hold.expiresAt then run.hold.amount else 0⟩ := by
    refine availableBalance_eq_some.mpr ⟨s, by rw [hsame]; exact hs, ht, ?_⟩
    rw [run.held_after, heq, hheld]
  have hpos := run.hold.amount_pos
  constructor
  · rintro ⟨b, hb, -, havailable⟩ hlive
    have hb' := htrue.symm.trans hb
    cases hb'
    have hreported : run.after.available =
        Balance.available ⟨run.after.posted, run.after.held - _⟩ := havailable
    rw [if_pos hlive] at hreported
    simp only [Balance.available] at hreported
    omega
  · intro hlate
    rw [if_neg hlate, sub_zero] at htrue
    exact ⟨run.after, htrue, rfl, rfl⟩

omit [Runtime] in
/-- A hold that is already resolved is answered from the rows. -/
theorem AvailableRead.reports {hold : Hold} {r : Option Balance} {o' : OrmSession}
    {g' : Shared Unit Database Write} {tx tx' : Tx Write Resource}
    (h : AvailableRead (aloneAt env S) tenantId hold.accountId {} g tx r o' g' tx')
    (hlog : tx.log = []) (hm : Svc.matched g.db tenantId hold.accountId = true) :
    tx'.start = some tx'.now ∧ (responseWith hold r).Reports g'.db tenantId tx'.now := by
  have hg' : g'.db = g.db := h.progress.rely.1
  obtain ⟨hr, -⟩ := h.inStep (inStep_fresh _)
  rw [hlog, replay_nil] at hr
  obtain ⟨b, hb⟩ := availableBalance_of_matched hm tx'.now
  constructor
  · rw [hr, hb] at h
    exact h.started
  · rw [hr, hg']
    exact reports_responseWith hm

omit [Runtime] in
/-- The account of a hold has a snapshot of the hold's tenant. -/
theorem HoldsOwned.matched {d : Database} (h : HoldsOwned d) (hbooks : Books d) {id : UUID}
    {hold : Hold} (hfind : d.holds.find? id = some hold) (htenant : hold.tenantId = tenantId) :
    Svc.matched d tenantId hold.accountId = true :=
  hbooks.matched (htenant ▸ h hold (Table.mem_of_find? hfind))

omit [Runtime] in
/-- The same of a hold that has only been looked up since the start. -/
theorem AvailableRead.reports_replay {hold : Hold} {r : Option Balance} {o' : OrmSession}
    {id : UUID}
    {g₁ g' : Shared Unit Database Write} {tx₁ tx' : Tx Write Resource} (hbooks : Books g.db)
    (howned : HoldsOwned g.db) (hp : Progress (aloneAt env S) [] g {} g₁ tx₁)
    (hfind : g₁.db.holds.find? id = some hold) (htenant : hold.tenantId = tenantId)
    (h : AvailableRead (aloneAt env S) tenantId hold.accountId {} g₁ tx₁ r o' g' tx') :
    g.db.holds.find? id = some hold ∧ tx'.start = some tx'.now ∧
      (responseWith hold r).Reports g'.db tenantId tx'.now := by
  have hg₁ : g₁.db = g.db := hp.rely.1
  rw [hg₁] at hfind
  have hmatched : Svc.matched g₁.db tenantId hold.accountId = true := by
    rw [hg₁]
    exact howned.matched hbooks hfind htenant
  exact ⟨hfind, h.reports (by simpa using hp.log) hmatched⟩

omit [Runtime] in
/-- A release reads its figures in a new transaction, after the commit. -/
theorem ReleaseRun.reports {id : UUID} {figures : Option Balance} {o' : OrmSession}
    {g' : Shared Unit Database Write} {tx' : Tx Write Resource} (hbooks : Books g.db)
    (howned : HoldsOwned g.db) (run : ReleaseRun (aloneAt env S) tenantId id g)
    (hread : AvailableRead (aloneAt env S) tenantId run.hold.accountId {} (run.g.commit () run.tx)
      {} figures o' g' tx') :
    tx'.start = some tx'.now ∧
      (responseWith (run.hold.release run.gM.clock) figures).Reports g'.db tenantId tx'.now := by
  have hgH : run.gH.db = g.db := run.read.rely.1
  have hgC : run.g.db = g.db := run.whole.rely.1
  have hfound : g.db.holds.find? id = some run.hold := hgH ▸ run.found
  have hm := howned.matched hbooks hfound run.hold_tenant
  have hcommitted : (run.g.commit () run.tx).db =
      g.db.apply (.releaseHold run.hold.id run.gM.clock) := by
    show replay run.g.db run.tx.log = _
    rw [hgC, run.log]
    rfl
  have hread' : AvailableRead (aloneAt env S) tenantId
    (run.hold.release run.gM.clock).accountId {} _ {} figures o' g' tx' := hread
  exact hread'.reports rfl (by rw [hcommitted]; exact hm)

/-- **Hold responses**: the balances in the response are those the database
    has after the commit, at the `now()` of the request's transaction that has
    read them, iff the request is not the capture of a hold that reserves
    then. -/
theorem hold_response_reports_iff {r : Request} (hreached : Attained d)
    (hanswers : AnswersWithBalances d tenantId r)
    (hexec : r.executed env d = (.ok reply, d')) :
    ∃ response now, (reply = .placed 200 response ∨ reply = .hold response) ∧
      now ∈ r.starts env d ∧
      (response.Reports d' tenantId now ↔ ¬ CapturesReserving d r now) := by
  have hbooks := hreached.books
  have howned := hreached.holdsOwned
  have hres := executed_of_swp_starts r env d (P := fun res d' => ∀ reply, res = .ok reply →
    ∃ response now, (reply = .placed 200 response ∨ reply = .hold response) ∧
      now ∈ r.starts env d ∧
      (response.Reports d' tenantId now ↔ ¬ CapturesReserving d r now)) fun g hg hclock => ?_
  · rw [hexec] at hres
    exact hres reply rfl
  subst hg
  cases hanswers with
  | place hunseen =>
    rw [Request.service, swp_map]
    refine swp_placeHold (fun _ _ _ _ _ _ _ h => by cases h)
      (fun rec p a g' tx' hp hfind _ _ _ _ => ?_) fun run hstart =>
        ⟨trivial, fun _ reply hreply => ?_⟩
    · -- the key was not known
      have hdb : g'.db = g.db := hp.rely.1
      rw [hdb, hunseen] at hfind
      cases hfind
    · cases hreply
      have hgC : run.g.db = g.db := run.whole.rely.1
      obtain ⟨now, hnow, hreports⟩ := run.reports hstart
      refine ⟨run.response, now, .inl rfl, hnow, ?_⟩
      show HoldResponse.Reports _ (replay run.g.db run.tx.log) _ _ ↔ _
      rw [hgC, run.log]
      exact iff_of_true hreports (not_capturesReserving (fun _ _ _ h => by cases h) now)
  | @capture id req =>
    rw [Request.service, swp_map]
    refine swp_captureHold (fun _ _ _ _ _ _ _ h => by cases h)
      (fun hold figures o' g₁ tx₁ g' tx' hp hfind htenant hstate hread hstart reply hreply => ?_)
      fun run hstart => ⟨trivial, fun _ reply hreply => ?_⟩
    · -- it was captured before
      cases hreply
      obtain ⟨hfind, hopen, hreports⟩ := hread.reports_replay hbooks howned hp hfind htenant
      refine ⟨_, tx'.now, .inr rfl, hstart _ hopen, iff_of_true hreports ?_⟩
      rw [capturesReserving_iff hfind, hstate]
      simp
    · cases hreply
      have hgH : run.gH.db = g.db := run.read.rely.1
      have hgC : run.g.db = g.db := run.whole.rely.1
      obtain ⟨now, hnow, hiff⟩ := run.reports_iff hstart
      refine ⟨run.response, now, .inr rfl, hnow, ?_⟩
      show HoldResponse.Reports _ (replay run.g.db run.tx.log) _ _ ↔ _
      rw [hgC, run.log, hiff, capturesReserving_iff (hgH ▸ run.found), and_iff_right run.active]
  | @release id =>
    have hno := not_capturesReserving (d := g.db) (r := .releaseHold tenantId id)
      fun _ _ _ h => by cases h
    rw [Request.service, swp_map]
    refine swp_releaseHold (fun _ _ _ _ _ _ _ h => by cases h)
      (fun hold figures o' g₁ tx₁ g' tx' hp hfind htenant _ hread hstart reply hreply => ?_)
      fun run _ => ⟨trivial, fun figures o' g' tx' hread hstart reply hreply => ?_⟩
    · cases hreply
      obtain ⟨-, hopen, hreports⟩ := hread.reports_replay hbooks howned hp hfind htenant
      exact ⟨_, _, .inr rfl, hstart _ hopen, iff_of_true hreports (hno _)⟩
    · cases hreply
      obtain ⟨hopen, hreports⟩ := run.reports hbooks howned hread
      exact ⟨_, _, .inr rfl, hstart _ hopen, iff_of_true hreports (hno _)⟩

end responses

section responseRuns

open Sample

/-- Alice has 200, of which 200 are on hold for three minutes. -/
def onHold : Database :=
  script (setup ++ [(reserve 200 180000000 "h1" twoHundred_pos, envAt 0 3000)]) .empty

/-- After its expiry the hold does not reserve, and its capture reports what
    is left. -/
theorem hold_response_reports_late : ∃ reply response d',
    (capture 3005).executed (envAt 180000000 5000) onHold = (.ok reply, d') ∧
      (reply = .placed 200 response ∨ reply = .hold response) ∧
      response.Reports d' "acme" 180000000 := by
  have hreached : Reached (fun d r => r.Proper d) onHold :=
    Reached.empty.script (by decide +kernel)
  have hanswers : AnswersWithBalances onHold "acme" (capture 3005) := .capture
  obtain ⟨reply, hexec⟩ := executed_ok
    (show ((capture 3005).executed (envAt 180000000 5000) onHold).1.isOk = true by decide +kernel)
  have hexpired : (onHold.holds.find? 3005).all (fun h => h.expiresAt ≤ 180000000) = true := by
    decide +kernel
  obtain ⟨response, now, hreply, hstarts, hiff⟩ :=
    hold_response_reports_iff hreached.attained hanswers hexec
  obtain ⟨n, hnow⟩ := Prog.reads_starts _ hstarts
  have hnow' : now = 180000000 := hnow.symm
  subst hnow'
  refine ⟨reply, response, _, hexec, hreply, hiff.mpr ?_⟩
  rintro ⟨tenantId, id, req, hold, h, hfound, -, hlive⟩
  cases h
  rw [hfound] at hexpired
  have hle : hold.expiresAt ≤ 180000000 := by simpa using hexpired
  exact absurd hlive (not_lt.mpr hle)

/-- Before, the capture reports the reservation it has just ended: minus 200
    available, where the account has none left and nothing on hold. -/
theorem hold_response_counts_captured : ∃ response d',
    Reached (fun d r => r.Proper d) onHold ∧
    onHold.availableBalance "acme" alice 0 = some ⟨200, 200⟩ ∧
    (capture 3005).executed (envAt 0 5000) onHold = (.ok (.hold response), d') ∧
    response.postedBalance = 0 ∧ response.availableBalance = -200 ∧
    d'.availableBalance "acme" alice 0 = some ⟨0, 0⟩ := by
  have hcaptured : ((capture 3005).executed (envAt 0 5000) onHold).1 =
      .ok (.hold ⟨3005, alice, 200, .CAPTURED, 180000000, some 5007, some 200, 0, -200⟩) := by
    decide +kernel
  have hafter : ((capture 3005).executed (envAt 0 5000) onHold).2.availableBalance "acme" alice 0 =
      some ⟨0, 0⟩ := by
    decide +kernel
  exact ⟨_, _, Reached.empty.script (by decide +kernel), by decide +kernel, executed_eq hcaptured,
    rfl, rfl, hafter⟩

end responseRuns

end Ledger
