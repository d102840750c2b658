import Ledger.Properties.Undo
import Ledger.Runs.IdentityMap
import Ledger.Runs.Inserts

/-! # The Net Effect of a Transfer

    What an executed transfer leaves behind, as a function of the state it
    found: a list of contributions to accounts, which add up where accounts
    coincide, and nothing else but new rows.

    * **Contributions**: two within one currency, four across currencies.
    * **Frame**: `NetEffect`, the snapshots moved by their contributions; the
      other snapshots, the holds and the rows already posted stay.
    * **Reply**: the balances the transfer answers with are the committed ones.
-/

namespace Ledger

open ReadCommitted

/-! ## Contributions -/

/-- What a list of contributions adds to an account. -/
def contributed (xs : List (UUID × Int)) (account : UUID) : Int :=
  ((xs.filter fun x => x.1 = account).map Prod.snd).sum

/-- What the transfer adds, account by account. -/
inductive Contributes (d : Database) (tenantId : String) (src dst : Account) (amount : Int)
    (effectiveAt : Time) : List (UUID × Int) → Prop where
  | same (hcur : src.currency = dst.currency) :
      Contributes d tenantId src dst amount effectiveAt [(src.id, -amount), (dst.id, amount)]
  | converted {rate srcConv dstConv} {target : Int} (hcur : src.currency ≠ dst.currency)
      (hrate : d.resolve src.currency dst.currency effectiveAt = some rate)
      (hconv : convert amount src.currency dst.currency rate.rate = some target)
      (hsrc : d.openAt tenantId (conversionPath src.currency) = [srcConv])
      (hdst : d.openAt tenantId (conversionPath dst.currency) = [dstConv]) :
      Contributes d tenantId src dst amount effectiveAt
        [(src.id, -amount), (srcConv.id, amount), (dstConv.id, -target), (dst.id, target)]

/-- From `d` to `d'` the snapshots moved by the contributions, and of what was
    there nothing else changed. -/
structure NetEffect (d d' : Database) (xs : List (UUID × Int)) : Prop where
  snapshot : ∀ a, d'.snapshot a = (d.snapshot a).map (· + contributed xs a)
  /-- Every account that is contributed to has a snapshot. -/
  present : ∀ x ∈ xs, d.snapshot x.1 ≠ none
  /-- The other rows are the same. -/
  others : ∀ a, (∀ x ∈ xs, x.1 ≠ a) → d'.balances.find? a = d.balances.find? a
  holds : d'.holds = d.holds
  transactions : d.transactions.rows <+: d'.transactions.rows
  postings : d.postings.rows <+: d'.postings.rows

/-- The leg as a contribution. -/
def PostingSpec.contribution (spec : PostingSpec) : UUID × Int := (spec.accountId, spec.amount)

theorem contributed_specs (first second : List PostingSpec) (a : UUID) :
    contributed ((first ++ second).map PostingSpec.contribution) a =
      specsOn first a + specsOn second a := by
  have hone : ∀ specs : List PostingSpec,
      contributed (specs.map PostingSpec.contribution) a = specsOn specs a := by
    intro specs
    simp only [contributed, specsOn, List.filter_map, List.map_map]
    rfl
  rw [← hone first, ← hone second]
  simp [contributed]

theorem Moves.contributes {d : Database} {tenantId : String} {src dst : Account} {amount : Int}
    {effectiveAt : Time} {first second : List PostingSpec}
    (h : Moves d tenantId src dst amount effectiveAt first second) :
    Contributes d tenantId src dst amount effectiveAt
      ((first ++ second).map PostingSpec.contribution) := by
  cases h with
  | direct hcur => exact .same hcur
  | routed hcur hrate hconv hpos hsrc hdst => exact .converted hcur hrate hconv hsrc hdst

/-! ## The Transfer -/

section transfer

variable [Runtime] {env : Env} {d d' : Database} {tenantId key : String} {req : TransferRequest}
  {reply : Reply}

/-- The balances a transfer answers with are those it commits. -/
theorem TransferRun.reported {g : Shared Unit Database Write}
    (run : TransferRun (alone env) tenantId req key g) :
    (replay g.db run.tx.log).snapshot req.sourceAccountId = some run.srcAfter.balance ∧
      (replay g.db run.tx.log).snapshot req.destinationAccountId = some run.dstAfter.balance := by
  have hgD : run.gD.db = g.db := ((run.lookup.trans run.readSrc).trans run.readDst).rely.1
  have hlogD : run.txD.log = [] := by
    simpa using ((run.lookup.trans run.readSrc).trans run.readDst).log
  have hgM : run.gM.db = g.db := run.prelude.rely.1
  have hmoved := run.prelude.trans run.moved.progress
  have hgA : run.gA.db = g.db := hmoved.rely.1
  have hlogA : run.txA.log = run.ws := by simpa using hmoved.log
  have hgS : run.gS'.db = g.db := (hmoved.trans run.readSrcAfter).rely.1
  have hlogS : run.txS'.log = run.ws := by simpa using (hmoved.trans run.readSrcAfter).log
  have hgD' : run.gD'.db = g.db := ((hmoved.trans run.readSrcAfter).trans run.readDstAfter).rely.1
  -- the loaded snapshots from the funds check to the last reading
  have hF : run.oF.InStep run.gM.db := by
    have h := run.funds.inStep (inStep_fresh _)
    rwa [hlogD, replay_nil, hgD, ← hgM] at h
  have hA := run.moved.inStep run.txM_log hF
  rw [hgM] at hA
  have hsrc := run.srcAfter_eq.inStep (by rwa [hlogA, hgS])
  rw [hlogA, hgS] at hsrc
  have hdst := run.dstAfter_eq.inStep (by rw [hlogS, hgD']; exact hsrc.2)
  rw [hlogS, hgD'] at hdst
  -- the event and the record do not touch the snapshots
  have hsame : (replay g.db run.tx.log).balances = (replay g.db run.ws).balances := by
    rw [run.log, replay_append]
    exact Database.replay_balances (by simp [Write.table])
  unfold Database.snapshot
  rw [hsame, ← hsrc.1, ← hdst.1]
  exact ⟨rfl, rfl⟩

/-- The rows of an executed transfer beside the snapshots. -/
theorem TransferRun.frame {g : Shared Unit Database Write}
    (run : TransferRun (alone env) tenantId req key g)
    (hunseen : g.db.records.find? ⟨tenantId, ENDPOINT, key⟩ = none) :
    (replay g.db run.tx.log).holds = g.db.holds ∧
      (replay g.db run.tx.log).records.rows = g.db.records.rows ++ [run.stored] := by
  obtain ⟨-, htables⟩ := run.moved.tables
  have hholds : (replay g.db run.ws).holds = g.db.holds :=
    Database.replay_holds fun w hw => by rcases htables w hw with h | h | h | h <;> simp [h]
  have hrecords : (replay g.db run.ws).records = g.db.records :=
    Database.replay_records fun w hw => by rcases htables w hw with h | h | h | h <;> simp [h]
  rw [run.log, replay_append]
  refine ⟨hholds, ?_⟩
  show ((replay g.db run.ws).records.insert run.stored).rows = _
  rw [hrecords, Table.insert_of_fresh hunseen]

/-- **Net effect**: a transfer that is executed moves the snapshots by its
    contributions and leaves everything else that was there as it was; it adds
    the record of its key, and answers with the committed balances. -/
theorem transfer_net_effect (hreached : Attained d)
    (hexec : (Request.transfer tenantId req key).executed env d = (.ok reply, d'))
    (hunseen : d.records.find? ⟨tenantId, ENDPOINT, key⟩ = none) :
    ∃ src dst now response xs, reply = .transfer 200 response ∧
      d.HasAccount tenantId req.sourceAccountId src ∧
      d.HasAccount tenantId req.destinationAccountId dst ∧ env.Reads now ∧
      Contributes d tenantId src dst req.amount (req.effectiveAt.getD now) xs ∧
      NetEffect d d' xs ∧
      (∃ record, record.id = ⟨tenantId, ENDPOINT, key⟩ ∧
        d'.records.rows = d.records.rows ++ [record]) ∧
      d'.snapshot req.sourceAccountId = some response.sourceBalance ∧
      d'.snapshot req.destinationAccountId = some response.destinationBalance ∧
      (d'.postingsOf response.transactionId).map Posting.effectiveAt =
        List.replicate 2 (req.effectiveAt.getD now) := by
  have hbooks := hreached.books
  cases transfer_outcome hexec with
  | replayed hfound =>
    rw [hunseen] at hfound
    cases hfound
  | executed run hg hnow _ =>
    subst hg
    obtain ⟨first, second, hmoves, hsrc, hdst, -, hsnapshot, -, howns, hothers⟩ :=
      run.effect hbooks
    obtain ⟨hholds, hrecords⟩ := run.frame hunseen
    rw [run.effective] at hmoves
    refine ⟨run.src, run.dst, run.gM.clock, run.response, _, rfl, hsrc, hdst, hnow,
      hmoves.contributes, ?_, ⟨run.stored, rfl, hrecords⟩, run.reported.1, run.reported.2,
      run.effective_postings hbooks⟩
    constructor
    · intro a
      rw [hsnapshot, contributed_specs]
    · intro x hx
      obtain ⟨spec, hspec, rfl⟩ := List.mem_map.mp hx
      exact hbooks.snapshot_isSome (howns spec hspec)
    · intro a hne
      exact hothers a fun spec hspec => hne _ (List.mem_map.mpr ⟨spec, hspec, rfl⟩)
    · exact hholds
    · exact rows_grow transactions_apply _ _
    · exact rows_grow postings_apply _ _

end transfer

open Sample

/-- Alice pays Carol in euros: four accounts move. -/
theorem transfer_net_effect_exchange : ∃ xs,
    NetEffect exchange ((pay carol 100 "t1" (by decide)).executed (envAt 0 2000) exchange).2 xs ∧
      (xs.map Prod.snd).sum = 0 := by
  obtain ⟨reply, hexec⟩ := executed_ok
    (show ((pay carol 100 "t1" (by decide)).executed (envAt 0 2000) exchange).1.isOk = true by
      decide +kernel)
  have hrecords : exchange.records.rows = [] := by decide +kernel
  have hunseen : exchange.records.find? ⟨"acme", ENDPOINT, "t1"⟩ = none := by
    rw [Table.find?, hrecords]
    rfl
  have hreached : Reached (fun d r => r.Proper d) exchange :=
    Reached.empty.script (by decide +kernel)
  obtain ⟨src, dst, now, response, xs, -, -, -, -, hxs, heffect, -⟩ :=
    transfer_net_effect hreached.attained hexec hunseen
  refine ⟨xs, heffect, ?_⟩
  cases hxs <;> simp

end Ledger
