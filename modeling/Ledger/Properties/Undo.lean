import Ledger.Properties.Reservations

/-! # Does a Reversal Undo a Transfer

    A transfer reports one transaction id.  Within one currency the transfer
    is that transaction; across currencies it is two transactions and the id
    is that of the first.  A reversal negates one transaction.

    * **Plan**: `Moves`, the legs a transfer posts, from the state it finds.
    * **Condition**: `Undoes`, exactly when the reversal of the reported
      transaction restores the balances the transfer found.
-/

namespace Ledger

open ReadCommitted

/-! ## The Plan of a Transfer -/

/-- The legs of the transaction a transfer reports, and of the other one. -/
inductive Moves (d : Database) (tenantId : String) (src dst : Account) (amount : Int)
    (effectiveAt : Time) : List PostingSpec → List PostingSpec → Prop where
  | direct (hcur : src.currency = dst.currency) :
      Moves d tenantId src dst amount effectiveAt (pair src.id dst.id amount effectiveAt) []
  | routed {rate srcConv dstConv} {target : Int} (hcur : src.currency ≠ dst.currency)
      (hrate : d.resolve src.currency dst.currency effectiveAt = some rate)
      (hconv : convert amount src.currency dst.currency rate.rate = some target)
      (hpos : 0 ≤ target)
      (hsrc : d.openAt tenantId (conversionPath src.currency) = [srcConv])
      (hdst : d.openAt tenantId (conversionPath dst.currency) = [dstConv]) :
      Moves d tenantId src dst amount effectiveAt (pair src.id srcConv.id amount effectiveAt)
        (pair dstConv.id dst.id target effectiveAt)

/-- Outside the transaction it reports, the transfer moves nothing. -/
inductive OneTransaction (d : Database) (tenantId : String) (src dst : Account) (amount : Int)
    (effectiveAt : Time) : Prop where
  /-- There is no other transaction. -/
  | same (hcur : src.currency = dst.currency)
  /-- The converted amount rounds to zero. -/
  | nothing {rate} (hcur : src.currency ≠ dst.currency)
      (hrate : d.resolve src.currency dst.currency effectiveAt = some rate)
      (hconv : convert amount src.currency dst.currency rate.rate = some 0)
  /-- The destination is the conversion account of its own currency. -/
  | own (hcur : src.currency ≠ dst.currency)
      (hdst : d.openAt tenantId (conversionPath dst.currency) = [dst])

/-- The transfer moves nothing at all. -/
inductive Idle (d : Database) (tenantId : String) (src dst : Account) (amount : Int)
    (effectiveAt : Time) : Prop where
  /-- The account pays itself. -/
  | self (hcur : src.currency = dst.currency) (hself : src.id = dst.id)
  /-- The source is its own conversion account, and nothing else moves. -/
  | routed (hcur : src.currency ≠ dst.currency)
      (hsrc : d.openAt tenantId (conversionPath src.currency) = [src])
      (hrest : OneTransaction d tenantId src dst amount effectiveAt)

section moves

variable {d : Database} {tenantId : String} {src dst : Account} {amount : Int} {effectiveAt : Time}
  {first second : List PostingSpec}

theorem specsOn_pair (s t : UUID) (amount : Int) (effectiveAt : Time) (a : UUID) :
    specsOn (pair s t amount effectiveAt) a =
      (if s = a then -amount else 0) + (if t = a then amount else 0) := by
  rw [pair, specsOn_cons, specsOn_cons]
  simp [specsOn, negate]

/-- A two-sided transaction moves nothing iff it is of nothing, or on one account. -/
theorem specsOn_pair_eq_zero_iff (s t : UUID) (amount : Int) (effectiveAt : Time) :
    (∀ a, specsOn (pair s t amount effectiveAt) a = 0) ↔ amount = 0 ∨ s = t := by
  simp only [specsOn_pair]
  constructor
  · intro h
    by_cases hst : s = t
    · exact .inr hst
    · have := h s
      rw [if_pos rfl, if_neg (Ne.symm hst)] at this
      exact .inl (by omega)
  · rintro (rfl | rfl) a
    · simp
    · split_ifs <;> omega

/-- An open account on a path is a row of the table. -/
theorem mem_openAt {path : String} {a : Account} (h : d.openAt tenantId path = [a]) :
    a ∈ d.accounts.rows ∧ a.tenantId = tenantId ∧ a.path = path := by
  have hmem : a ∈ d.openAt tenantId path := by simp [h]
  simp only [Database.openAt, List.mem_filter, Bool.and_eq_true, decide_eq_true_eq] at hmem
  exact ⟨hmem.1, hmem.2.1.1, hmem.2.1.2⟩

theorem Moves.second_eq_zero_iff (h : Moves d tenantId src dst amount effectiveAt first second)
    (hdst : dst ∈ d.accounts.rows) :
    (∀ a, specsOn second a = 0) ↔ OneTransaction d tenantId src dst amount effectiveAt := by
  cases h with
  | direct hcur => exact ⟨fun _ => .same hcur, fun _ _ => rfl⟩
  | routed hcur hrate hconv hpos hsrcConv hdstConv =>
    rw [specsOn_pair_eq_zero_iff]
    constructor
    · rintro (rfl | heq)
      · exact .nothing hcur hrate hconv
      · have := Table.eq_of_key_eq _ (mem_openAt hdstConv).1 hdst heq
        exact .own hcur (this ▸ hdstConv)
    · intro hone
      cases hone with
      | same hcur' => exact absurd hcur' hcur
      | nothing _ hrate' hconv' =>
        rw [hrate] at hrate'
        cases hrate'
        rw [hconv] at hconv'
        exact .inl (Option.some.inj hconv')
      | own _ hdst' =>
        rw [hdstConv] at hdst'
        cases hdst'
        exact .inr rfl

theorem Moves.total_eq_zero_iff (h : Moves d tenantId src dst amount effectiveAt first second)
    (hsrc : src ∈ d.accounts.rows) (hdst : dst ∈ d.accounts.rows) (hamount : 0 < amount) :
    (∀ a, specsOn first a + specsOn second a = 0) ↔
      Idle d tenantId src dst amount effectiveAt := by
  have hone := h.second_eq_zero_iff hdst
  cases h with
  | direct hcur =>
    have hpair := specsOn_pair_eq_zero_iff src.id dst.id amount effectiveAt
    constructor
    · intro h
      rcases hpair.mp fun a => by simpa [specsOn] using h a with h0 | h0
      · omega
      · exact .self hcur h0
    · intro hidle a
      cases hidle with
      | self _ hself => simpa [specsOn] using hpair.mpr (.inr hself) a
      | routed hcur' => exact absurd hcur hcur'
  | routed hcur hrate hconv hpos hsrcConv hdstConv =>
    rename_i rate srcConv dstConv target
    constructor
    · intro h
      -- the source pays, so it must be paid back as its own conversion account
      have hself : srcConv.id = src.id := by
        by_contra hne
        have hne' : dst.id ≠ src.id := fun e => hcur (by rw [Table.eq_of_key_eq _ hdst hsrc e])
        have := h src.id
        simp only [specsOn_pair, if_neg hne, if_neg hne', if_true] at this
        split_ifs at this <;> omega
      have hrow := Table.eq_of_key_eq _ (mem_openAt hsrcConv).1 hsrc hself
      refine .routed hcur (hrow ▸ hsrcConv) (hone.mp fun a => ?_)
      have := h a
      rw [(specsOn_pair_eq_zero_iff _ _ _ _).mpr (.inr hself.symm) a] at this
      omega
    · intro hidle a
      cases hidle with
      | self hcur' => exact absurd hcur' hcur
      | routed _ hsrc' hrest =>
        rw [hsrcConv] at hsrc'
        cases hsrc'
        rw [(specsOn_pair_eq_zero_iff _ _ _ _).mpr (.inr rfl) a, hone.mpr hrest a]
        rfl

/-- The postings of a transaction carry the requested amounts on each account. -/
theorem credited_legs {txn : UUID} {specs : List PostingSpec} {legs : List Leg}
    (h : List.Forall₂ (Leg.Of txn) specs legs) (a : UUID) :
    (((legs.map Leg.posting).filter fun p => p.accountId = a).map Posting.amount).sum =
      specsOn specs a := by
  induction h with
  | nil => rfl
  | @cons spec l specs legs hof _ ih =>
    rw [specsOn_cons, List.map_cons]
    by_cases ha : spec.accountId = a
    · simp [hof.account, hof.amount, ha, ih]
    · simp [hof.account, ha, ih]

/-- They take effect when it was requested. -/
theorem effective_legs {txn : UUID} {specs : List PostingSpec} {legs : List Leg}
    (h : List.Forall₂ (Leg.Of txn) specs legs) :
    (legs.map Leg.posting).map Posting.effectiveAt = specs.map PostingSpec.effectiveAt := by
  induction h with
  | nil => rfl
  | cons hof _ ih => rw [List.map_cons, List.map_cons, List.map_cons, hof.effective, ih]

theorem Moves.effective (h : Moves d tenantId src dst amount effectiveAt first second) :
    first.map PostingSpec.effectiveAt = List.replicate 2 effectiveAt := by
  cases h <;> rfl

/-- What the movement of a transfer adds to each snapshot, and the postings of
    the transaction it reports. -/
theorem MovedAlone.moves [Runtime] {req : TransferRequest} {ws : List Write} {id : UUID}
    {event : OutboxEvent}
    (h : MovedAlone d tenantId src dst req effectiveAt ws id event) (hbooks : Books d)
    (hsrc : d.HasAccount tenantId req.sourceAccountId src)
    (hdst : d.HasAccount tenantId req.destinationAccountId dst) :
    ∃ first second, Moves d tenantId src dst req.amount effectiveAt first second ∧
      (∀ a, delta ws a = specsOn first a + specsOn second a) ∧
      (∃ legs, (replay d ws).postingsOf id = legs.map Leg.posting ∧
        List.Forall₂ (Leg.Of id) first legs) ∧
      (∀ spec ∈ first ++ second, d.Owns tenantId spec.accountId) ∧
      ∀ a, (∀ spec ∈ first ++ second, spec.accountId ≠ a) → bumpsOn ws a = [] := by
  have hsrcKey : src.id = req.sourceAccountId := Table.key_of_find? hsrc.1
  have hdstKey : dst.id = req.destinationAccountId := Table.key_of_find? hdst.1
  have hsrcOwns : d.Owns tenantId src.id := ⟨src, hsrcKey ▸ hsrc.1, hsrc.2.1⟩
  have hdstOwns : d.Owns tenantId dst.id := ⟨dst, hdstKey ▸ hdst.1, hdst.2.1⟩
  have hblockDelta : ∀ (txn : Transaction) (legs : List Leg) (a : UUID),
      delta (.insTransaction txn :: legWrites legs) a = delta (legWrites legs) a := fun _ _ _ => rfl
  cases h with
  | direct hcur hpost =>
    -- one transaction: what is reported is what is posted
    have hblock := hpost.block
    rw [← hsrcKey, ← hdstKey] at hblock
    have howns : ∀ spec ∈ pair src.id dst.id req.amount effectiveAt,
        d.Owns tenantId spec.accountId := by
      simpa [pair] using And.intro hsrcOwns hdstOwns
    refine ⟨_, _, .direct hcur, fun a => ?_,
      ⟨_, hbooks.postingsOf_new hblock, hblock.carried⟩, by simpa using howns, fun a hne => ?_⟩
    · rw [hblockDelta, hbooks.delta hblock howns]
      simp [specsOn]
    · show bumpsOn (legWrites _) a = []
      exact bumpsOn_carried hblock.carried fun spec hspec => hne spec (by simp [hspec])
  | routed hcur hrate hconv hpos hsrcConv hdstConv hdebit hcredit =>
    rename_i rate srcConv dstConv debit credit legs₁ legs₂ event₁ target
    have hdebit := hdebit.block
    have hcredit := hcredit.block
    -- the accounts of the pair are the tenant's, as they are looked up by tenant
    have hconvOwns : ∀ {path : String} {conv : Account}, d.openAt tenantId path = [conv] →
        d.Owns tenantId conv.id := fun hc =>
      ⟨_, Table.find?_of_mem (mem_openAt hc).1, (mem_openAt hc).2.1⟩
    have howns₁ : ∀ spec ∈ pair src.id srcConv.id req.amount effectiveAt,
        d.Owns tenantId spec.accountId := by
      simpa [pair] using And.intro hsrcOwns (hconvOwns hsrcConv)
    have howns₂ : ∀ spec ∈ pair dstConv.id dst.id target effectiveAt,
        d.Owns tenantId spec.accountId := by
      simpa [pair] using And.intro (hconvOwns hdstConv) hdstOwns
    -- the state between the two transactions
    have hmid : replay d (emission debit legs₁ event₁) =
        (replay d (.insTransaction debit :: legWrites legs₁)).apply (.insOutbox event₁) := by
      unfold emission
      rw [replay_append]
      rfl
    have hbooks₁ : Books (replay d (emission debit legs₁ event₁)) :=
      hmid ▸ (hbooks.posted hdebit howns₁).plain (plain_insOutbox event₁)
    have howns₂' : ∀ spec ∈ pair dstConv.id dst.id target effectiveAt,
        (replay d (emission debit legs₁ event₁)).Owns tenantId spec.accountId :=
        fun spec hspec => by
      obtain ⟨a, ha, hat⟩ := howns₂ spec hspec
      exact ⟨a, (accounts_emission d debit legs₁ event₁).symm ▸ ha, hat⟩
    refine ⟨_, _, .routed hcur hrate hconv hpos hsrcConv hdstConv, fun a => ?_,
      ⟨legs₁, ?_, hdebit.carried⟩, fun spec hspec => ?_, fun a hne => ?_⟩
    · rw [emission, delta_append, delta_append, hblockDelta, hblockDelta,
        hbooks.delta hdebit howns₁,
        hbooks₁.delta hcredit howns₂',
        delta_of_table (w := .insOutbox event₁) (by simp [Write.table]),
        add_zero]
    · -- the reported transaction is the debit, which the credit leaves alone
      have hin : debit ∈ (replay d (emission debit legs₁ event₁)).transactions.rows := by
        rw [hmid]
        show debit ∈ (replay d (.insTransaction debit :: legWrites legs₁)).transactions.rows
        rw [hdebit.rows.2.1]
        simp
      rw [replay_append, hcredit.postingsOf_old hin, hmid]
      exact hbooks.postingsOf_new hdebit
    · rcases List.mem_append.mp hspec with hspec | hspec
      · exact howns₁ spec hspec
      · exact howns₂ spec hspec
    · have hnone : ∀ (txn : Transaction) (legs : List Leg),
          bumpsOn (.insTransaction txn :: legWrites legs) a = bumpsOn (legWrites legs) a :=
        fun _ _ => rfl
      rw [emission, bumpsOn_append, bumpsOn_append, hnone, hnone,
        bumpsOn_carried hdebit.carried fun spec hspec => hne spec (by simp [hspec]),
        bumpsOn_carried hcredit.carried fun spec hspec => hne spec (by simp [hspec])]
      rfl

end moves

/-! ## The Reversal of the Reported Transaction -/

/-- The balance in the snapshot of an account. -/
def Database.snapshot (d : Database) (account : UUID) : Option Int :=
  (d.balances.find? account).map AccountBalance.balance

theorem snapshot_replay {d : Database} {ws : List Write} (h : NoNewSnapshot ws) (a : UUID) :
    (replay d ws).snapshot a = (d.snapshot a).map (· + delta ws a) := by
  rw [Database.snapshot, Database.snapshot, replay_balance d ws h]
  cases d.balances.find? a with
  | none => rfl
  | some b => simp [AccountBalance.foldAll_balance, delta]

/-- Snapshots moved by amounts that vanish on accounts without one are where
    they were iff nothing moved. -/
theorem snapshot_eq_iff {d d' : Database} {total : UUID → Int}
    (h : ∀ a, d'.snapshot a = (d.snapshot a).map (· + total a))
    (hnone : ∀ a, d.snapshot a = none → total a = 0) :
    (∀ a, d'.snapshot a = d.snapshot a) ↔ ∀ a, total a = 0 := by
  refine forall_congr' fun a => ?_
  have hd' := h a
  have h0 := hnone a
  cases hs : d.snapshot a with
  | none => simp [hd', hs, h0 hs]
  | some x => simp [hd', hs]

/-- An account of a tenant has a snapshot. -/
theorem Books.snapshot_isSome {d : Database} (h : Books d) {tenantId : String} {account : UUID}
    (howns : d.Owns tenantId account) : d.snapshot account ≠ none := by
  have hm := h.matched howns
  intro hnone
  rw [Database.snapshot, Option.map_eq_none_iff] at hnone
  simp [Svc.matched, hnone] at hm

theorem specsOn_of_not_owned {d : Database} (h : Books d) {tenantId : String}
    {specs : List PostingSpec} (howns : ∀ spec ∈ specs, d.Owns tenantId spec.accountId) {a : UUID}
    (hnone : d.snapshot a = none) : specsOn specs a = 0 := by
  have hnil : (specs.filter fun s => s.accountId = a) = [] := by
    rw [List.filter_eq_nil_iff]
    intro spec hspec heq
    exact h.snapshot_isSome (decide_eq_true_eq.mp heq ▸ howns spec hspec) hnone
  simp [specsOn, hnil]

theorem credited_of_not_owned {d : Database} (h : Books d) {id a : UUID}
    (hnone : d.snapshot a = none) : d.credited id a = 0 := by
  have hnil : ((d.postingsOf id).filter fun p => p.accountId = a) = [] := by
    rw [List.filter_eq_nil_iff]
    intro p hp heq
    have hp' := hp
    simp only [Database.postingsOf, List.mem_filter, decide_eq_true_eq] at hp'
    obtain ⟨t, ht, htp⟩ := h.attached p hp'.1
    have howns := h.owned t ht p (by rw [htp, hp'.2]; exact hp)
    exact h.snapshot_isSome (decide_eq_true_eq.mp heq ▸ howns) hnone
  simp [Database.credited, hnil]

/-- When the reversal of the transaction a transfer reports restores the
    balances the transfer found: by whether each of the two requests executes
    or answers from the record of its key. -/
structure Undoes [Runtime] (d : Database) (tenantId : String) (req : TransferRequest)
    (key key' : String) (now : Time) : Prop where
  /-- Both execute: the transfer moved nothing but the transaction it reports. -/
  executed : d.records.find? ⟨tenantId, ENDPOINT, key⟩ = none →
    d.records.find? ⟨tenantId, REVERSE_ENDPOINT, key'⟩ = none →
    ∀ src dst, d.HasAccount tenantId req.sourceAccountId src →
      d.HasAccount tenantId req.destinationAccountId dst →
      OneTransaction d tenantId src dst req.amount (req.effectiveAt.getD now)
  /-- Only the transfer executes: it moved nothing. -/
  unreversed : d.records.find? ⟨tenantId, ENDPOINT, key⟩ = none →
    d.records.find? ⟨tenantId, REVERSE_ENDPOINT, key'⟩ ≠ none →
    ∀ src dst, d.HasAccount tenantId req.sourceAccountId src →
      d.HasAccount tenantId req.destinationAccountId dst →
      Idle d tenantId src dst req.amount (req.effectiveAt.getD now)
  /-- Only the reversal executes: the earlier transaction moved nothing. -/
  retried : ∀ rec p r, d.records.find? ⟨tenantId, ENDPOINT, key⟩ = some rec →
    replayOf key req.modelDump rec = .ok p → TransferResponse.modelValidate p.body = some r →
    d.records.find? ⟨tenantId, REVERSE_ENDPOINT, key'⟩ = none →
    ∀ a, d.credited r.transactionId a = 0

section undo

variable [Runtime] {env : Env} {d d₁ d₂ : Database} {tenantId : String} {req : TransferRequest}

/-- What an executed transfer did to the records, snapshots and postings. -/
theorem TransferRun.effect {key : String} {g : Shared Unit Database Write}
    (run : TransferRun (alone env) tenantId req key g) (hbooks : Books g.db) :
    ∃ first second, Moves g.db tenantId run.src run.dst req.amount run.effectiveAt first second ∧
      g.db.HasAccount tenantId req.sourceAccountId run.src ∧
      g.db.HasAccount tenantId req.destinationAccountId run.dst ∧
      (∀ key', (replay g.db run.tx.log).records.find? ⟨tenantId, REVERSE_ENDPOINT, key'⟩ =
        g.db.records.find? ⟨tenantId, REVERSE_ENDPOINT, key'⟩) ∧
      (∀ a, (replay g.db run.tx.log).snapshot a =
        (g.db.snapshot a).map (· + (specsOn first a + specsOn second a))) ∧
      (∃ legs, (replay g.db run.tx.log).postingsOf run.txnId = legs.map Leg.posting ∧
        List.Forall₂ (Leg.Of run.txnId) first legs) ∧
      (∀ spec ∈ first ++ second, g.db.Owns tenantId spec.accountId) ∧
      ∀ a, (∀ spec ∈ first ++ second, spec.accountId ≠ a) →
        (replay g.db run.tx.log).balances.find? a = g.db.balances.find? a := by
  have hgM : run.gM.db = g.db := run.prelude.rely.1
  have hgS : run.gS.db = g.db := (run.lookup.trans run.readSrc).rely.1
  have hgD : run.gD.db = g.db := ((run.lookup.trans run.readSrc).trans run.readDst).rely.1
  have hsrc : g.db.HasAccount tenantId req.sourceAccountId run.src := hgS ▸ run.src_eq
  have hdst : g.db.HasAccount tenantId req.destinationAccountId run.dst := hgD ▸ run.dst_eq
  have hmoved := run.moved.alone run.txM_log
  rw [hgM] at hmoved
  obtain ⟨first, second, hmoves, hdelta, ⟨legs, hlegs, hcarried⟩, howns, hothers⟩ :=
    hmoved.moves hbooks hsrc hdst
  obtain ⟨hnew, htables⟩ := run.moved.tables
  have hnew' : NoNewSnapshot run.tx.log := by
    rw [run.log]
    refine hnew.append fun r hr => ?_
    simp at hr
  refine ⟨first, second, hmoves, hsrc, hdst, fun key' => ?_, fun a => ?_, ⟨legs, ?_, hcarried⟩,
    howns, fun a hne => ?_⟩
  · -- the record that is inserted is that of the transfer's own endpoint
    have hrecords : (replay g.db run.ws).records = g.db.records :=
      Database.replay_records fun w hw => by rcases htables w hw with h | h | h | h <;> simp [h]
    rw [run.log, replay_append]
    show ((replay g.db run.ws).records.insert run.stored).find? _ = _
    rw [hrecords, Table.find?_insert_of_ne]
    intro heq
    have : ENDPOINT = REVERSE_ENDPOINT := congrArg RecordKey.endpoint heq
    exact absurd this (by decide)
  · rw [snapshot_replay hnew', run.log, delta_append, hdelta]
    simp [delta, bumpsOn]
  · rw [← hlegs, run.log, replay_append]
    rfl
  · rw [replay_balance g.db _ hnew', run.log, bumpsOn_append, hothers a hne]
    simp [bumpsOn]

section parties

variable {key key' : String} {req' : ReverseTransactionRequest} {env' : Env} {reply : Reply}

/-- A retried transfer moves nothing, so what matters is what the reversal negates. -/
theorem retried_undone_iff (hbooks : Books d) {r : TransferResponse} {rec : IdempotencyRecord}
    {p : Replay} (hfound : d.records.find? ⟨tenantId, ENDPOINT, key⟩ = some rec)
    (hreplay : replayOf key req.modelDump rec = .ok p)
    (hvalid : TransferResponse.modelValidate p.body = some r)
    (hreverse : (Request.reverse tenantId r.transactionId req' key').executed env' d =
      (.ok reply, d₂)) (now : Time) :
    (∀ a, d₂.snapshot a = d.snapshot a) ↔ Undoes d tenantId req key key' now := by
  cases reverse_outcome hreverse with
  | replayed hfound' =>
    refine iff_of_true (fun _ => rfl) ⟨fun h => ?_, fun h => ?_, fun _ _ _ _ _ _ h => ?_⟩
    · rw [hfound] at h; cases h
    · rw [hfound] at h; cases h
    · rw [hfound'] at h; cases h
  | executed run hg hunseen =>
    subst hg
    obtain ⟨hnew, hdelta, -⟩ := run.effect hbooks
    rw [snapshot_eq_iff (snapshot_replay hnew) fun a ha => by
      rw [hdelta, credited_of_not_owned hbooks ha]; rfl]
    simp only [hdelta, neg_eq_zero]
    constructor
    · refine fun h => ⟨fun h' => ?_, fun h' => ?_, fun _ _ _ hfound₂ hreplay₂ hvalid₂ _ a => ?_⟩
      · rw [hfound] at h'; cases h'
      · rw [hfound] at h'; cases h'
      · rw [hfound] at hfound₂
        cases hfound₂
        rw [hreplay] at hreplay₂
        cases hreplay₂
        rw [hvalid] at hvalid₂
        cases hvalid₂
        exact h a
    · exact fun h => h.retried _ _ _ hfound hreplay hvalid hunseen

/-- A transfer that executes is undone by its reversal when that negates all it moved. -/
theorem TransferRun.undone_iff {g : Shared Unit Database Write}
    (run : TransferRun (alone env) tenantId req key g) (hbooks : Books g.db)
    (hbooks₁ : Books (replay g.db run.tx.log))
    (hunseen : g.db.records.find? ⟨tenantId, ENDPOINT, key⟩ = none)
    (hreverse : (Request.reverse tenantId run.response.transactionId req' key').executed env'
      (replay g.db run.tx.log) = (.ok reply, d₂)) :
    (∀ a, d₂.snapshot a = g.db.snapshot a) ↔ Undoes g.db tenantId req key key' run.gM.clock := by
  obtain ⟨first, second, hmoves, hsrc, hdst, hrecords, hsnapshot, ⟨legs, hlegs, hcarried⟩, howns,
    -⟩ := run.effect hbooks
  have hcredited (a : UUID) : (replay g.db run.tx.log).credited run.txnId a = specsOn first a := by
    rw [Database.credited, hlegs]
    exact credited_legs hcarried a
  have hnone : ∀ a, g.db.snapshot a = none → specsOn first a = 0 ∧ specsOn second a = 0 :=
    fun a ha => ⟨specsOn_of_not_owned hbooks (fun s hs => howns s (by simp [hs])) ha,
      specsOn_of_not_owned hbooks (fun s hs => howns s (by simp [hs])) ha⟩
  have hsrcRow := Table.mem_of_find? hsrc.1
  have hdstRow := Table.mem_of_find? hdst.1
  -- the accounts are those the run read
  have hrows : ∀ src dst, g.db.HasAccount tenantId req.sourceAccountId src →
      g.db.HasAccount tenantId req.destinationAccountId dst → src = run.src ∧ dst = run.dst := by
    intro src dst hs hd
    exact ⟨Option.some.inj (hs.1.symm.trans hsrc.1), Option.some.inj (hd.1.symm.trans hdst.1)⟩
  cases reverse_outcome hreverse with
  | replayed hfound' =>
    rw [hrecords] at hfound'
    rw [snapshot_eq_iff hsnapshot fun a ha => by rw [(hnone a ha).1, (hnone a ha).2]; rfl,
      hmoves.total_eq_zero_iff hsrcRow hdstRow req.amount_pos, run.effective]
    constructor
    · refine fun hidle => ⟨fun _ h => ?_, fun _ _ src dst hs hd => ?_, fun _ _ _ h => ?_⟩
      · rw [hfound'] at h; cases h
      · obtain ⟨rfl, rfl⟩ := hrows src dst hs hd
        exact hidle
      · rw [hunseen] at h; cases h
    · exact fun h => h.unreversed hunseen (by simp [hfound']) _ _ hsrc hdst
  | executed run' hg' hunseen' =>
    rw [hrecords] at hunseen'
    rw [← hg'] at hbooks₁ hsnapshot hcredited
    obtain ⟨hnew, hdelta, -⟩ := run'.effect hbooks₁
    have htotal : ∀ a, (replay (replay g.db run.tx.log) run'.ws).snapshot a =
        (g.db.snapshot a).map (· + specsOn second a) := by
      intro a
      have hcred : Database.credited _ run.response.transactionId a = specsOn first a := hcredited a
      rw [← hg', snapshot_replay hnew, hdelta, hcred, hsnapshot]
      cases g.db.snapshot a with
      | none => rfl
      | some x =>
        simp only [Option.map_some, Option.some.injEq]
        omega
    rw [snapshot_eq_iff htotal fun a ha => (hnone a ha).2, hmoves.second_eq_zero_iff hdstRow,
      run.effective]
    constructor
    · refine fun hone => ⟨fun _ _ src dst hs hd => ?_, fun _ h => ?_, fun _ _ _ h => ?_⟩
      · obtain ⟨rfl, rfl⟩ := hrows src dst hs hd
        exact hone
      · exact absurd hunseen' h
      · rw [hunseen] at h; cases h
    · exact fun h => h.executed hunseen hunseen' _ _ hsrc hdst

end parties

/-- The two postings of the reported transaction take effect at the requested
    instant, or at the one that the transfer has read. -/
theorem TransferRun.effective_postings {g : Shared Unit Database Write}
    (run : TransferRun (alone env) tenantId req key g) (hbooks : Books g.db) :
    ((replay g.db run.tx.log).postingsOf run.response.transactionId).map Posting.effectiveAt =
      List.replicate 2 (req.effectiveAt.getD run.gM.clock) := by
  obtain ⟨first, second, hmoves, -, -, -, -, ⟨legs, hlegs, hcarried⟩, -⟩ := run.effect hbooks
  have hpostings : (replay g.db run.tx.log).postingsOf run.response.transactionId =
      legs.map Leg.posting := hlegs
  rw [hpostings, effective_legs hcarried, hmoves.effective, run.effective]

/-- **A reversal undoes a transfer** exactly when `Undoes` holds of the state
    the transfer finds and the instant it reads, with which it dates the
    transaction it reports. -/
theorem reversal_undoes_transfer_iff (hreached : Attained d)
    {key key' : String} {req' : ReverseTransactionRequest} {env' : Env} {status : Nat}
    {r : TransferResponse} {reply : Reply}
    (htransfer : (Request.transfer tenantId req key).executed env d =
      (.ok (.transfer status r), d₁))
    (hreverse : (Request.reverse tenantId r.transactionId req' key').executed env' d₁ =
      (.ok reply, d₂)) :
    ∃ now, env.Reads now ∧
      (d.records.find? ⟨tenantId, ENDPOINT, key⟩ = none →
        (d₁.postingsOf r.transactionId).map Posting.effectiveAt =
          List.replicate 2 (req.effectiveAt.getD now)) ∧
      ((∀ a, d₂.snapshot a = d.snapshot a) ↔ Undoes d tenantId req key key' now) := by
  have hbooks := hreached.books
  have hbooks₁ : Books d₁ := by
    have := hbooks.executed (r := .transfer tenantId req key) (by trivial) env
    rwa [htransfer] at this
  generalize hrep : Reply.transfer status r = rep at htransfer
  cases transfer_outcome htransfer with
  | replayed hfound hreplay hvalid =>
    cases hrep
    -- nothing is read but the record, so any instant will do
    refine ⟨env.clock 0, ⟨0, rfl⟩, fun hunseen => ?_,
      retried_undone_iff hbooks hfound hreplay hvalid hreverse _⟩
    rw [hfound] at hunseen
    cases hunseen
  | @executed g₀ run hg hnow hunseen =>
    subst hg
    cases hrep
    exact ⟨run.gM.clock, hnow, fun _ => run.effective_postings hbooks,
      run.undone_iff hbooks hbooks₁ hunseen hreverse⟩

end undo

open Sample

/-- A payment within one currency, and its reversal. -/
theorem reversal_undoes_payment :
    ((reverse 2007 "r1").executed (envAt 0 3000)
      ((pay bob 60 "t1" (by decide)).executed (envAt 0 2000) funded).2).2.snapshot =
      funded.snapshot := by
  have hreached : Reached (fun d r => r.Proper d) funded :=
    Reached.empty.script (by decide +kernel)
  have hpaid : ((pay bob 60 "t1" (by decide)).executed (envAt 0 2000) funded).1 =
      .ok (.transfer 200 ⟨2007, 140, 60⟩) := by decide +kernel
  obtain ⟨reply, hreverse⟩ := executed_ok (show ((reverse 2007 "r1").executed (envAt 0 3000)
      ((pay bob 60 "t1" (by decide)).executed (envAt 0 2000) funded).2).1.isOk = true by
    decide +kernel)
  have husd : ∀ a ∈ funded.accounts.rows, a.currency = .USD := by decide +kernel
  have hrecords : funded.records.rows = [] := by decide +kernel
  have hunseen : ∀ k, funded.records.find? k = none := fun k => by
    rw [Table.find?, hrecords]
    rfl
  obtain ⟨now, -, -, hiff⟩ :=
    reversal_undoes_transfer_iff hreached.attained (executed_eq hpaid) hreverse
  refine funext (hiff.mpr ⟨fun _ _ src dst hsrc hdst => .same ?_, fun _ h => absurd (hunseen _) h,
    fun rec _ _ h => ?_⟩)
  · rw [husd src (Table.mem_of_find? hsrc.1), husd dst (Table.mem_of_find? hdst.1)]
  · rw [hunseen] at h
    cases h

/-- Carol's account is in euros, and a dollar buys half a euro. -/
def exchange : Database :=
  script (setup ++ [(opening "platform.fx.conversion.eur" "conversion eur" .EUR, envAt 0 400),
    (opening "users.carol" "carol" .EUR, envAt 0 500),
    (.upsertRate "acme" ⟨.USD, .EUR, ⟨false, 5, -1⟩, "manual", some 0, half_pos⟩, envAt 0 600)])
    .empty

/-- A payment across currencies, and its reversal: Carol keeps the euros. -/
theorem reversal_leaves_converted : Reached (fun d r => r.Proper d) exchange ∧
    ∃ r reply d₁ d₂,
      (pay carol 100 "t1" (by decide)).executed (envAt 0 2000) exchange =
        (.ok (.transfer 200 r), d₁) ∧
      (reverse r.transactionId "r1").executed (envAt 0 3000) d₁ = (.ok reply, d₂) ∧
      exchange.snapshot carol = some 0 ∧ d₂.snapshot carol = some 50 := by
  have hpaid : ((pay carol 100 "t1" (by decide)).executed (envAt 0 2000) exchange).1 =
      .ok (.transfer 200 ⟨2010, 100, 50⟩) := by decide +kernel
  obtain ⟨reply, hreverse⟩ := executed_ok (show ((reverse 2010 "r1").executed (envAt 0 3000)
      ((pay carol 100 "t1" (by decide)).executed (envAt 0 2000) exchange).2).1.isOk = true by
    decide +kernel)
  exact ⟨Reached.empty.script (by decide +kernel), ⟨2010, 100, 50⟩, reply, _, _,
    executed_eq hpaid, hreverse, by decide +kernel, by decide +kernel⟩

end Ledger
