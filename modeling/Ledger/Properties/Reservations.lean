import Ledger.Properties.Interleavings
import Ledger.Properties.NoOverdraft

/-! # Who May Spend Reserved Funds

    Two movements do not go through the funds check of transfers and
    placements.

    * **Capture** compares with the raw posted balance, on the ground that the
      hold has reserved the funds.  An expired hold reserves nothing any more
      and can still be captured.
    * **Reversal** goes through the engine with no check at all.

    For each, the exact condition under which the available balances stay
    nonnegative.
-/

namespace Ledger

open ReadCommitted

variable {d d' : Database} {tenantId : String} {id : UUID} {env : Env} {reply : Reply}

/-! ## Capture -/

section capture

variable [Runtime] {req : CaptureHoldRequest} {hold : Hold}

/-- A capture frees what the hold still reserved on the held account. -/
theorem CaptureRun.held_after {S : Time → Prop} {g : Shared Unit Database Write}
    (run : CaptureRun (aloneAt env S) tenantId id req g) (now : Time) :
    (replay g.db run.ws).heldTotal tenantId run.hold.accountId now =
      g.db.heldTotal tenantId run.hold.accountId now -
        if now < run.hold.expiresAt then run.hold.amount else 0 := by
  have hfind : g.db.holds.find? run.hold.id = some run.hold := by
    have hgH : run.gH.db = g.db := run.read.rely.1
    rw [← hgH, run.hold_id]
    exact run.found
  have htotal := heldTotal_capture hfind run.txn.id run.amount run.gM.clock tenantId
    run.hold.accountId now
  rw [show run.hold.reserves tenantId run.hold.accountId now = decide (now < run.hold.expiresAt) by
    simp [Hold.reserves, run.hold_tenant, run.active]] at htotal
  simp only [decide_eq_true_eq] at htotal
  rw [← htotal]
  simp only [Database.heldTotal, CaptureRun.ws]
  rw [holds_after_capture]

/-- What a capture does to the available balance of the held account: it
    takes the amount, unless the account pays itself, and frees what the hold
    still reserved. -/
theorem CaptureRun.available {g : Shared Unit Database Write}
    (run : CaptureRun (alone env) tenantId id req g) (hbooks : Books g.db) {now : Time}
    {b : Balance}
    (hb : g.db.availableBalance tenantId run.hold.accountId now = some b) :
    ∃ b', (replay g.db run.ws).availableBalance tenantId run.hold.accountId now = some b' ∧
      b'.available = b.available -
        (if req.destinationAccountId = run.hold.accountId then 0 else run.amount) +
        (if now < run.hold.expiresAt then run.hold.amount else 0) := by
  have hnew : NoNewSnapshot run.ws := by
    intro r hr
    simp only [CaptureRun.ws, List.cons_append, List.mem_cons, List.mem_append, List.not_mem_nil,
      or_false, reduceCtorEq, false_or] at hr
    exact noNewSnapshot_legWrites _ r hr
  -- the legs
  have hgS : run.gS.db = g.db := (run.read.trans run.readSrc).rely.1
  have hgD : run.gD.db = g.db := ((run.read.trans run.readSrc).trans run.readDst).rely.1
  have hgM : run.gM.db = g.db := (run.read.trans run.prelude).rely.1
  have howns : ∀ spec ∈ pair run.hold.accountId req.destinationAccountId run.amount run.gM.clock,
      g.db.Owns tenantId spec.accountId := by
    simpa [pair] using And.intro ⟨run.src, hgS ▸ run.src_eq.1, run.src_eq.2.1⟩
      ⟨run.dst, hgD ▸ run.dst_eq.1, run.dst_eq.2.1⟩
  have hlegs := hbooks.delta (run.posted.block (by simp [run.txB_log, hgM])) howns
    run.hold.accountId
  have hdelta : delta run.ws run.hold.accountId =
      if req.destinationAccountId = run.hold.accountId then 0 else -run.amount := by
    have hws : delta run.ws run.hold.accountId = delta (legWrites run.legs) run.hold.accountId := by
      rw [CaptureRun.ws, delta_append, delta_cons,
        delta_of_table (w := .insTransaction _) (by simp [Write.table])]
      simp [delta, bumpsOn]
    rw [hws, hlegs]
    by_cases hdst : req.destinationAccountId = run.hold.accountId
    · simp [specsOn, pair, hdst, negate]
    · simp [specsOn, pair, hdst, negate, CaptureRun.amount]
  have hheld := run.held_after now
  refine ⟨_, availableBalance_replay hnew hb, ?_⟩
  obtain ⟨s, -, -, rfl⟩ := availableBalance_eq_some.mp hb
  simp only [Balance.available, hdelta, hheld]
  split_ifs <;> omega

/-- **Capture and the other holds**: a capture that succeeds keeps the held
    account's available balance nonnegative iff the hold still reserves, or
    the account pays itself, or the amount was available anyway. -/
theorem capture_keeps_available_iff (hreached : Attained d)
    (hexec : (Request.captureHold tenantId id req).executed env d = (.ok reply, d'))
    (hfound : d.holds.find? id = some hold) (hactive : hold.state = .ACTIVE) (now : Time)
    {b : Balance} (hb : d.availableBalance tenantId hold.accountId now = some b)
    (hcovered : 0 ≤ b.available) :
    (∃ b', d'.availableBalance tenantId hold.accountId now = some b' ∧ 0 ≤ b'.available) ↔
      now < hold.expiresAt ∨ req.destinationAccountId = hold.accountId ∨
        captureAmount hold req ≤ b.available := by
  cases capture_outcome hexec with
  | replayed hfound' hstate =>
    rw [hfound] at hfound'
    cases hfound'
    rw [hactive] at hstate
    cases hstate
  | executed run hg =>
    subst hg
    have hgH : run.gH.db = _ := run.read.rely.1
    have hrun := run.found
    rw [hgH, hfound] at hrun
    cases hrun
    -- the figures after the capture, by the figures before it
    obtain ⟨b', hb', heq⟩ := run.available hreached.books hb
    have hwithin := run.within
    have hpos := run.amount_pos
    have hamount : run.amount = captureAmount run.hold req := rfl
    rw [hb']
    constructor
    · rintro ⟨_, h, h0⟩
      cases h
      rw [heq] at h0
      by_cases hnow : now < run.hold.expiresAt
      · exact .inl hnow
      by_cases hdst : req.destinationAccountId = run.hold.accountId
      · exact .inr (.inl hdst)
      · rw [if_neg hnow, if_neg hdst] at h0
        exact .inr (.inr (by omega))
    · intro h
      refine ⟨b', rfl, ?_⟩
      rw [heq]
      rcases h with hnow | hdst | hcov
      · rw [if_pos hnow]
        split_ifs <;> omega
      · rw [if_pos hdst]
        split_ifs <;> omega
      · split_ifs <;> omega

end capture

section captureRuns

open Sample

/-- Alice's whole balance is on hold; the hold expires after a minute, and a
    minute later a second hold takes the same funds. -/
def overlapping : Database :=
  script (setup ++ [(reserve 200 60000000 "h1" twoHundred_pos, envAt 0 3000),
    (reserve 200 180000000 "h2" twoHundred_pos, envAt 120000000 4000)]) .empty

/-- The second hold still reserves: its capture leaves Alice covered. -/
theorem capture_keeps_available_second :
    ∃ b', ((capture 4005).executed (envAt 120000000 5000) overlapping).2.availableBalance "acme"
      alice 120000000 = some b' ∧ 0 ≤ b'.available := by
  have hreached : Reached (fun d r => r.Proper d) overlapping :=
    Reached.empty.script (by decide +kernel)
  have hok : ((capture 4005).executed (envAt 120000000 5000) overlapping).1.isOk = true := by
    decide +kernel
  obtain ⟨reply, hexec⟩ := executed_ok hok
  have hseen : (overlapping.holds.find? 4005).any (fun h =>
      h.state = .ACTIVE && h.accountId = alice && 120000000 < h.expiresAt) = true := by
    decide +kernel
  obtain ⟨hold, hfound, hhold⟩ := (Option.any_eq_true _ _).mp hseen
  simp only [Bool.and_eq_true, decide_eq_true_eq] at hhold
  have hb : overlapping.availableBalance "acme" alice 120000000 = some ⟨200, 200⟩ := by
    decide +kernel
  rw [← hhold.1.2] at hb ⊢
  exact (capture_keeps_available_iff hreached.attained hexec hfound hhold.1.1 120000000 hb
    (by decide)).mpr (.inl hhold.2)

/-- The first hold does not: its capture spends what the second has reserved. -/
theorem capture_spends_reserved : ∃ reply d',
    Reached (fun d r => r.Proper d) overlapping ∧
    (capture 3005).executed (envAt 120000000 5000) overlapping = (.ok reply, d') ∧
    (overlapping.holds.find? 3005).map Hold.state = some .ACTIVE ∧
    overlapping.availableBalance "acme" alice 120000000 = some ⟨200, 200⟩ ∧
    d'.availableBalance "acme" alice 120000000 = some ⟨0, 200⟩ := by
  obtain ⟨reply, hexec⟩ := executed_ok
    (show ((capture 3005).executed (envAt 120000000 5000) overlapping).1.isOk = true by
      decide +kernel)
  exact ⟨reply, _, Reached.empty.script (by decide +kernel), hexec, by decide +kernel,
    by decide +kernel, by decide +kernel⟩

end captureRuns

/-! ## Reversal -/

section reversal

variable [Runtime] {req : ReverseTransactionRequest} {key : String}

omit [Runtime] in
theorem specsOn_reversed (ps : List Posting) (t : Time) (account : UUID) :
    specsOn (reversed ps t) account =
      -((ps.filter fun p => p.accountId = account).map Posting.amount).sum := by
  induction ps with
  | nil => rfl
  | cons p ps ih =>
    rw [reversed, List.map_cons, specsOn_cons]
    rw [reversed] at ih
    rw [ih]
    by_cases hp : p.accountId = account
    · simp [hp, negate]
      omega
    · simp [hp]

/-- The writes of a reversal take from each account what the original
    transaction credited to it, and leave the holds alone. -/
theorem ReverseRun.effect {g : Shared Unit Database Write}
    (run : ReverseRun (alone env) tenantId id req key g) (hbooks : Books g.db) :
    NoNewSnapshot run.ws ∧ (∀ account, delta run.ws account = -g.db.credited id account) ∧
      (replay g.db run.ws).holds = g.db.holds ∧ (replay g.db run.ws).accounts = g.db.accounts := by
  have htable : ∀ w ∈ run.ws, w.table ≠ .holds ∧ w.table ≠ .accounts := by
    intro w hw
    simp only [ReverseRun.ws, List.cons_append, List.mem_cons, List.mem_append, List.not_mem_nil,
      or_false] at hw
    rcases hw with rfl | hw | rfl | rfl
    · simp [Write.table]
    · rcases table_legWrites hw with h | h <;> simp [h]
    · simp [Write.table]
    · simp [Write.table]
  have hgX : run.gX.db = g.db :=
    ((run.lookup.trans run.readOriginal).trans run.readExisting).rely.1
  have hgQ : run.gQ.db = g.db :=
    (((run.lookup.trans run.readOriginal).trans run.readExisting).trans run.readPostings).rely.1
  have hgM : run.gM.db = g.db := by
    have : run.gM.db = run.gQ.db := run.stamp.rely.1
    rw [this, hgQ]
  have hgT : run.gT.db = g.db := (run.lookup.trans run.readOriginal).rely.1
  have hposts : Posts g.db (.reverse tenantId id req key) tenantId
      (reversed run.postings run.gM.clock) (some id) := by
    rw [← run.postings_eq, hgQ]
    exact .reversal (hgT ▸ run.found) run.original_tenant run.original_plain
      (hgX ▸ run.unreversed)
  refine ⟨fun r hr => ?_, fun account => ?_, Database.replay_holds fun w hw => (htable w hw).1,
    Database.replay_accounts fun w hw => (htable w hw).2⟩
  · simp only [ReverseRun.ws, List.cons_append, List.mem_cons, List.mem_append, List.not_mem_nil,
      or_false, reduceCtorEq, false_or] at hr
    exact noNewSnapshot_legWrites _ r hr
  · have hlegs := hbooks.delta (run.posted.block (by simp [run.txQ_log, hgM]))
      (hposts.owned hbooks
        (by trivial : Request.Proper g.db (.reverse tenantId id req key))) account
    have hws : delta run.ws account = delta (legWrites run.legs) account := by
      rw [ReverseRun.ws, delta_append, delta_cons,
        delta_of_table (w := .insTransaction _) (by simp [Write.table])]
      simp [delta, bumpsOn]
    rw [hws, hlegs, specsOn_reversed, ← run.postings_eq, hgQ]
    -- the sum does not depend on the order of the query
    exact congrArg Neg.neg (((g.db.selectPostings_perm id).filter _).map _).sum_eq

/-- **Reversal and the holds**: a reversal that succeeds keeps every account
    outside the conversion accounts covered iff it is a replay, or each of
    these accounts still has available what the original transaction
    credited to it. -/
theorem reversal_keeps_covered_iff (hreached : Attained d)
    (hexec : (Request.reverse tenantId id req key).executed env d = (.ok reply, d')) (now : Time)
    (hcovered : Covered d now) :
    Covered d' now ↔ (d.records.find? ⟨tenantId, REVERSE_ENDPOINT, key⟩).isSome ∨
      ∀ a ∈ d.accounts.rows, underConversion a.path = false →
        ∀ b, d.availableBalance a.tenantId a.id now = some b →
          d.credited id a.id ≤ b.available := by
  cases reverse_outcome hexec with
  | replayed hfound => simp [hfound, hcovered]
  | @executed g₀ run hg hunseen =>
    subst hg
    obtain ⟨hnew, hdelta, hholds, haccounts⟩ := run.effect hreached.books
    have hafter : ∀ {a : Account} {b : Balance},
        g₀.db.availableBalance a.tenantId a.id now = some b →
        (replay g₀.db run.ws).availableBalance a.tenantId a.id now =
          some ⟨b.posted - g₀.db.credited id a.id, b.held⟩ := by
      intro a b hb
      have hb' := availableBalance_replay hnew hb
      obtain ⟨s, -, -, rfl⟩ := availableBalance_eq_some.mp hb
      rw [hb', hdelta]
      simp only [Database.heldTotal, hholds]
      rfl
    simp only [hunseen, Option.isSome_none, Bool.false_eq_true, false_or]
    constructor
    · intro h a ha hp b hb
      have h0 := h a (haccounts ▸ ha) hp _ (hafter hb)
      simp only [Balance.available] at h0 ⊢
      omega
    · intro h a ha hp b' hb'
      rw [haccounts] at ha
      obtain ⟨x, hx, hbt, -⟩ := hreached.books.snapshot a ha
      have hb : g₀.db.availableBalance a.tenantId a.id now =
          some ⟨x.balance, g₀.db.heldTotal a.tenantId a.id now⟩ :=
        availableBalance_eq_some.mpr ⟨x, Table.find?_of_filter_key hx, hbt, rfl⟩
      have hle := h a ha hp _ hb
      rw [hafter hb] at hb'
      cases hb'
      simp only [Balance.available] at hle ⊢
      omega

end reversal

section reversalRuns

open Sample

/-- Alice still has what the funding credited to her. -/
theorem reversal_keeps_covered_unspent :
    Covered ((reverse funding "r1").executed (envAt 0 2000) funded).2 0 := by
  have hreached : Reached (fun d r => r.Proper d) funded :=
    Reached.empty.script (by decide +kernel)
  obtain ⟨reply, hexec⟩ := executed_ok
    (show ((reverse funding "r1").executed (envAt 0 2000) funded).1.isOk = true by decide +kernel)
  have hleft : ∀ a ∈ funded.accounts.rows, underConversion a.path = false →
      ∀ b ∈ funded.availableBalance a.tenantId a.id 0,
        funded.credited funding a.id ≤ b.available := by
    decide +kernel
  exact (reversal_keeps_covered_iff hreached.attained hexec 0 (by decide +kernel)).mpr (.inr hleft)

/-- Alice pays Bob all she has. -/
def spent : Database := script (setup ++ [(pay bob 200 "t1" twoHundred_pos, envAt 0 2000)]) .empty

/-- Then the reversal of the funding overdraws her. -/
theorem reversal_overdraws : Reached (fun d r => r.Proper d) spent ∧ Covered spent 0 ∧
    ∃ reply d', (reverse funding "r1").executed (envAt 0 3000) spent = (.ok reply, d') ∧
      ¬ Covered d' 0 := by
  obtain ⟨reply, hexec⟩ := executed_ok
    (show ((reverse funding "r1").executed (envAt 0 3000) spent).1.isOk = true by decide +kernel)
  exact ⟨Reached.empty.script (by decide +kernel), by decide +kernel, reply, _, hexec,
    by decide +kernel⟩

end reversalRuns

end Ledger
