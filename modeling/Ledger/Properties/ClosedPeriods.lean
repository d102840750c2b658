import Ledger.Properties.Statements
import Ledger.Runs.Steps

/-! # Statements of Closed Periods

    The export selects on `effective_at`, which a transfer may name freely,
    and sorts by columns that need not tell two postings apart.

    * **Answers**: `Issued`, every list of rows the export may show.
    * **Condition**: `Backdates`, a request that posts to the account inside
      the window.
    * **Result**: `statement_reissued_iff`, what happens to the export when no
      later request does.
-/

namespace Ledger

open ReadCommitted

variable {d : Database} {accountId : UUID} {start stop : Time}

/-! ## Answers -/

/-- The export may show these rows: the query does not say which of two
    postings comes first that agree in both columns. -/
def Database.Issued (d : Database) (accountId : UUID) (start stop : Time) (openingBalance : Int)
    (rows : List StatementRow) : Prop :=
  ∃ ps, Sorting.Answers statementOrder (d.windowOf accountId start stop) ps ∧
    rows = statementRows openingBalance ps

/-- The service shows one of them. -/
theorem issued_streamStatement (d : Database) (accountId : UUID) (start stop : Time)
    (openingBalance : Int) :
    d.Issued accountId start stop openingBalance
      (d.streamStatement accountId start stop openingBalance) :=
  ⟨_, Sorting.answers_insertionSort _, rfl⟩

theorem statementRows_ids (running : Int) (ps : List Posting) :
    (statementRows running ps).map StatementRow.postingId = ps.map Posting.id := by
  induction ps generalizing running with
  | nil => rfl
  | cons p ps ih => rw [statementRows, List.map_cons, List.map_cons, ih]

/-- The rows name the postings, so they tell two lists of stored postings apart. -/
theorem statementRows_stored {running : Int} {ps qs : List Posting}
    (hps : ∀ p ∈ ps, p ∈ d.postings.rows) (hqs : ∀ p ∈ qs, p ∈ d.postings.rows)
    (h : statementRows running ps = statementRows running qs) : ps = qs := by
  have hids := congrArg (List.map StatementRow.postingId) h
  rw [statementRows_ids, statementRows_ids] at hids
  -- each id finds its posting again
  have hback : ∀ xs : List Posting, (∀ p ∈ xs, p ∈ d.postings.rows) →
      (xs.map Posting.id).map d.postings.find? = xs.map some := by
    intro xs hxs
    rw [List.map_map]
    exact List.map_congr_left fun p hp => Table.find?_of_mem (hxs p hp)
  have hsome := congrArg (List.map d.postings.find?) hids
  rw [hback ps hps, hback qs hqs] at hsome
  exact List.map_injective_iff.mpr (Option.some_injective Posting) hsome

/-- No two postings of the window agree in `effective_at` and `created_at`. -/
def Database.Untied (d : Database) (accountId : UUID) (start stop : Time) : Prop :=
  ∀ p ∈ d.windowOf accountId start stop, ∀ q ∈ d.windowOf accountId start stop,
    p.effectiveAt = q.effectiveAt → p.createdAt = q.createdAt → p = q

theorem untied_iff (d : Database) (accountId : UUID) (start stop : Time) :
    d.Untied accountId start stop ↔
      Sorting.Untied statementOrder (d.windowOf accountId start stop) := by
  have hiff : ∀ p q : Posting, statementOrder p q ∧ statementOrder q p ↔
      p.effectiveAt = q.effectiveAt ∧ p.createdAt = q.createdAt := by
    intro p q
    unfold statementOrder
    constructor
    · rintro ⟨h | h, h' | h'⟩
      · exact absurd (lt_trans h h') (lt_irrefl _)
      · exact absurd h'.1 (ne_of_gt h)
      · exact absurd h.1 (ne_of_gt h')
      · exact ⟨h.1, le_antisymm h.2 h'.2⟩
    · rintro ⟨he, hc⟩
      exact ⟨.inr ⟨he, le_of_eq hc⟩, .inr ⟨he.symm, le_of_eq hc.symm⟩⟩
  constructor
  · intro h p hp q hq hpq hqp
    obtain ⟨he, hc⟩ := (hiff p q).mp ⟨hpq, hqp⟩
    exact h p hp q hq he hc
  · intro h p hp q hq he hc
    obtain ⟨hpq, hqp⟩ := (hiff p q).mpr ⟨he, hc⟩
    exact h p hp q hq hpq hqp

/-! ## What a Request Adds to the Window -/

/-- The request, in the state it finds, posts to the account inside the window. -/
inductive Backdates (d : Database) (accountId : UUID) (start stop : Time) : Request → Prop where
  | posted {tenantId specs memo spec} (htwo : 2 ≤ specs.length)
      (hzero : (specs.map PostingSpec.amount).sum = 0) (hspec : spec ∈ specs)
      (hon : spec.accountId = accountId) (hin : inWindow start stop spec.effectiveAt = true) :
      Backdates d accountId start stop (.post tenantId specs memo)
  /-- A transfer that goes through and names an instant of the window. -/
  | transferred {tenantId req key src dst time}
      (hunseen : d.records.find? ⟨tenantId, ENDPOINT, key⟩ = none)
      (hsrc : d.HasAccount tenantId req.sourceAccountId src)
      (hdst : d.HasAccount tenantId req.destinationAccountId dst)
      (hcur : src.currency = dst.currency)
      (hfunded : ∃ now b, d.availableBalance tenantId req.sourceAccountId now = some b ∧
        req.amount ≤ b.available)
      (heffective : req.effectiveAt = some time) (hin : inWindow start stop time = true)
      (hon : accountId = req.sourceAccountId ∨ accountId = req.destinationAccountId) :
      Backdates d accountId start stop (.transfer tenantId req key)
  /-- The same across currencies, with the two conversion accounts. -/
  | converted {tenantId req key src dst srcConv dstConv time}
      (hconverts : Converts d tenantId req key src dst srcConv dstConv)
      (heffective : req.effectiveAt = some time) (hin : inWindow start stop time = true)
      (hon : accountId ∈ [src.id, srcConv.id, dstConv.id, dst.id]) :
      Backdates d accountId start stop (.transfer tenantId req key)

/-- The window after writes that insert no posting. -/
theorem windowOf_replay {ws : List Write} (h : ∀ w ∈ ws, w.table ≠ .postings) :
    (replay d ws).windowOf accountId start stop = d.windowOf accountId start stop := by
  unfold Database.windowOf
  rw [Database.replay_postings h]

/-- The window after legs that are all on other accounts or instants. -/
theorem windowOf_legs {txn : UUID} {specs : List PostingSpec} {legs : List Leg}
    (hcarried : List.Forall₂ (Leg.Of txn) specs legs)
    (h : ∀ spec ∈ specs, spec.accountId = accountId →
      inWindow start stop spec.effectiveAt = false) :
    (replay d (legWrites legs)).windowOf accountId start stop =
      d.windowOf accountId start stop := by
  refine replay_induction (P := fun d' => d'.windowOf accountId start stop =
    d.windowOf accountId start stop) d rfl fun d' w hw hd' => ?_
  rw [← hd']
  simp only [legWrites, List.mem_flatMap, Leg.writes] at hw
  obtain ⟨l, hl, hw⟩ := hw
  obtain ⟨spec, hspec, hof⟩ := Leg.Of.exists_spec hcarried hl
  -- the posting of the leg is not selected
  have hout : (decide (l.posting.accountId = accountId) && decide (start ≤ l.posting.effectiveAt) &&
      decide (l.posting.effectiveAt < stop)) = false := by
    rw [hof.account, hof.effective]
    by_cases hon : spec.accountId = accountId
    · have hno := h spec hspec hon
      unfold inWindow at hno
      rw [Bool.and_assoc, hno, Bool.and_false]
    · rw [decide_eq_false hon]
      rfl
  have hins : (d'.apply (.insPosting l.posting)).windowOf accountId start stop =
      d'.windowOf accountId start stop := Table.filter_insert hout
  split_ifs at hw
  · simp only [List.mem_cons, List.not_mem_nil, or_false] at hw
    rcases hw with rfl | rfl
    · exact hins
    · rfl
  · rw [List.mem_singleton] at hw
    rw [hw]
    exact hins

/-- An instant that is not before the end of the window is not in it. -/
theorem inWindow_late {t : Time} (h : stop ≤ t) : inWindow start stop t = false := by
  unfold inWindow
  simp [not_lt.mpr h]

/-- The legs of a transfer are outside the window: at the named instant unless
    it is in there, and otherwise at the current time. -/
theorem transfer_outside {effectiveAt : Option Time} {now : Time} (hnow : stop ≤ now)
    {P : Prop}
    (h : ∀ time, effectiveAt = some time → inWindow start stop time = true → ¬ P) (hP : P) :
    inWindow start stop (effectiveAt.getD now) = false := by
  cases heff : effectiveAt with
  | none => exact inWindow_late hnow
  | some time =>
    by_contra hin
    exact h time heff (Bool.eq_true_of_not_eq_false hin) hP

section requests

variable [Runtime]

/-- One call of the engine whose legs are all elsewhere. -/
theorem Emitted.windowOf {tenantId memo : String} {specs : List PostingSpec} {c : Option UUID}
    {txn : Transaction} {legs : List Leg} {event : OutboxEvent}
    (hpost : Emitted d tenantId specs memo c txn legs event)
    (h : ∀ spec ∈ specs, spec.accountId = accountId →
      inWindow start stop spec.effectiveAt = false) :
    (replay d (emission txn legs event)).windowOf accountId start stop =
      d.windowOf accountId start stop := by
  unfold emission
  rw [replay_append, replay_cons]
  exact windowOf_legs (d := Dbms.apply d (.insTransaction txn)) hpost.block.carried h

/-- **Step lemma.** -/
theorem windowOf_executed {issue : Time} (hclosed : stop ≤ issue) (r : Request) (env : Env)
    (hlater : ∀ n, issue ≤ env.clock n) (hstep : ¬ Backdates d accountId start stop r) :
    (r.executed env d).2.windowOf accountId start stop = d.windowOf accountId start stop := by
  obtain ⟨ws, hout, -, hafter⟩ := executed_outcome r env d
  rw [hafter]
  have hnow : ∀ {now}, env.Reads now → stop ≤ now := by
    rintro now ⟨n, rfl⟩
    exact le_trans hclosed (hlater n)
  cases hout with
  | posted hpost =>
    refine hpost.windowOf fun spec hspec hon => ?_
    by_contra hin
    exact hstep (.posted hpost.block.two hpost.block.zero hspec hon
      (Bool.eq_true_of_not_eq_false hin))
  | transferred hunseen hsrc hdst hcur hfunded hreads hpost hrecord =>
    rw [replay_append]
    refine hpost.windowOf fun spec hspec hon => ?_
    rcases List.mem_pair.mp hspec with rfl | rfl
    · refine transfer_outside (hnow hreads) (fun time heff hin hon => ?_) hon
      exact hstep (.transferred hunseen hsrc hdst hcur hfunded heff hin (.inl hon.symm))
    · refine transfer_outside (hnow hreads) (fun time heff hin hon => ?_) hon
      exact hstep (.transferred hunseen hsrc hdst hcur hfunded heff hin (.inr hon.symm))
  | converted hconverts hreads hrate hconv hpos hdebit hcredit hrecord =>
    rw [replay_append, replay_append]
    refine (hcredit.windowOf fun spec hspec hon => ?_).trans
      (hdebit.windowOf fun spec hspec hon => ?_)
    all_goals
      rcases List.mem_pair.mp hspec with rfl | rfl
      all_goals
        refine transfer_outside (hnow hreads) (fun time heff hin hon => ?_) hon
        exact hstep (.converted hconverts heff hin (by simp [← hon]))
  | captured hfound htenant hactive hsrc hdst hcur hamount hwithin hreads hpost =>
    rw [replay_append]
    refine hpost.windowOf fun spec hspec _ => ?_
    rcases List.mem_pair.mp hspec with rfl | rfl <;> exact inWindow_late (hnow hreads)
  | reversed hunseen hfound htenant hplain hunreversed hreads hpost hrecord =>
    rw [replay_append]
    refine hpost.windowOf fun spec hspec _ => ?_
    obtain ⟨p, -, rfl⟩ := List.mem_map.mp hspec
    exact inWindow_late (hnow hreads)
  | nothing | opened | placed | released | rated | dispatched | imported | swept =>
    exact windowOf_replay (by simp [Write.table])

/-- **Run lemma.** -/
theorem windowOf_script {issue : Time} (hclosed : stop ≤ issue) {rs : List (Request × Env)}
    (hlater : ∀ r ∈ rs, ∀ n, issue ≤ r.2.clock n)
    (hsteps : Admissible (fun d r => ¬ Backdates d accountId start stop r) d rs) :
    (script rs d).windowOf accountId start stop = d.windowOf accountId start stop := by
  induction rs generalizing d with
  | nil => rfl
  | cons r rs ih =>
    have hone := windowOf_executed hclosed r.1 r.2 (hlater r (by simp)) hsteps.1
    have hrest := ih (d := (r.1.executed r.2 d).2) (fun x hx => hlater x (by simp [hx])) hsteps.2
    exact hrest.trans hone

/-! ## Result -/

/-- **Closed periods**: after later requests none of which posts to the account
    inside the window, the export shows what it showed when it was issued, iff
    no two of its postings are tied. -/
theorem statement_reissued_iff {issue : Time} (hclosed : stop ≤ issue) (openingBalance : Int)
    (rs : List (Request × Env)) (hlater : ∀ r ∈ rs, ∀ n, issue ≤ r.2.clock n)
    (hsteps : Admissible (fun d r => ¬ Backdates d accountId start stop r) d rs) :
    (∀ rows rows', d.Issued accountId start stop openingBalance rows →
      (script rs d).Issued accountId start stop openingBalance rows' → rows' = rows) ↔
    d.Untied accountId start stop := by
  have hwindow := windowOf_script hclosed hlater hsteps
  rw [untied_iff, ← Sorting.answers_unique_iff]
  unfold Database.Issued
  rw [hwindow]
  have hstored : ∀ ps, Sorting.Answers statementOrder (d.windowOf accountId start stop) ps →
      ∀ p ∈ ps, p ∈ d.postings.rows := by
    intro ps hps p hp
    exact (List.mem_filter.mp (hps.1.subset hp)).1
  constructor
  · intro h ps qs hps hqs
    have hrows := h _ _ ⟨ps, hps, rfl⟩ ⟨qs, hqs, rfl⟩
    exact statementRows_stored (hstored qs hqs) (hstored ps hps) hrows
  · rintro h rows rows' ⟨ps, hps, rfl⟩ ⟨qs, hqs, rfl⟩
    rw [h ps qs hps hqs]

end requests

open Sample

/-- A payment and its reversal after the period leave its statement alone. -/
theorem statement_reissued_payment :
    {rows | (script [(pay bob 60 "t1" (by decide), envAt 60000000 2000),
      (reverse 2007 "r1", envAt 60000000 3000)] funded).Issued alice 0 60000000 0 rows} =
    {[⟨1007, 0, 200, 200⟩]} := by
  have hpay : ∀ d : Database, ¬ Backdates d alice 0 60000000 (pay bob 60 "t1" (by decide)) := by
    intro d h
    cases h with
    | transferred _ _ _ _ _ heff => cases heff
    | converted _ heff => cases heff
  have hreverse : ∀ d : Database, ¬ Backdates d alice 0 60000000 (reverse 2007 "r1") := by
    intro d h
    cases h
  have hiff := statement_reissued_iff (by decide : (60000000 : Time) ≤ 60000000) 0
    [(pay bob 60 "t1" (by decide), envAt 60000000 2000),
      (reverse 2007 "r1", envAt 60000000 3000)] (by simp [envAt]) ⟨hpay funded, hreverse _, trivial⟩
  have huntied : funded.Untied alice 0 60000000 := by
    unfold Database.Untied
    decide +kernel
  have hfirst : funded.streamStatement alice 0 60000000 = [⟨1007, 0, 200, 200⟩] := by decide +kernel
  have hsame := fun rows =>
    hiff.mpr huntied _ rows (issued_streamStatement funded alice 0 60000000 0)
  rw [← hfirst]
  ext rows
  constructor
  · intro hrows
    exact hsame rows hrows
  · intro hrows
    -- the statement that is issued is that one
    have hagain := issued_streamStatement (script [(pay bob 60 "t1" (by decide),
      envAt 60000000 2000), (reverse 2007 "r1", envAt 60000000 3000)] funded) alice 0 60000000 0
    rw [hsame _ hagain] at hagain
    rw [Set.mem_singleton_iff.mp hrows]
    exact hagain

/-- A payment after the period that names an instant of it rewrites its statement. -/
theorem statement_rewritten :
    (funded.streamStatement alice 0 120000000).map StatementRow.runningBalance = [200] ∧
    ((script [(.transfer "acme" ⟨alice, bob, 60, "", some 60000000, by decide⟩ "t1",
      envAt 180000000 2000)] funded).streamStatement alice 0 120000000).map
        StatementRow.runningBalance = [200, 140] := by
  decide +kernel

end Ledger
