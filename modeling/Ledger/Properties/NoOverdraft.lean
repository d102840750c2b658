import Ledger.Runs.Sessions

/-! # No Overdraft

    Transfers, placements and releases, in any number and interleaved in any
    way, keep the available balance of every account nonnegative, conversion
    accounts apart.

    * **Rely**: while a session keeps the advisory lock of an account, the
      account's posted balance only grows and its holds only shrink.
    * **Funds check**: the two figures it reads at different points are
      therefore still bounds at the commit, and so is the hold expiry it
      judged by an earlier clock.
-/

namespace Ledger

open ReadCommitted

/-- The path lies under the prefix of the conversion accounts. -/
def underConversion (path : String) : Bool :=
  (CONVERSION_PATH_PREFIX ++ ".").toList.isPrefixOf path.toList

theorem underConversion_conversionPath (c : Currency) :
    underConversion (conversionPath c) = true := by
  cases c <;> decide

/-- Every account outside the conversion accounts has its holds covered at `now`. -/
def Covered (d : Database) (now : Time) : Prop :=
  ∀ a ∈ d.accounts.rows, underConversion a.path = false →
    ∀ b, d.availableBalance a.tenantId a.id now = some b → 0 ≤ b.available

instance (d : Database) (now : Time) : Decidable (Covered d now) :=
  inferInstanceAs (Decidable (∀ a ∈ d.accounts.rows, underConversion a.path = false →
    ∀ b ∈ d.availableBalance a.tenantId a.id now, 0 ≤ b.available))

/-- A covered state stays covered as holds expire. -/
theorem Covered.later {d : Database} {s t : Time} (h : Covered d s) (hst : s ≤ t) :
    Covered d t := by
  intro a ha hpath b hb
  obtain ⟨sb, hsb, ht, rfl⟩ := availableBalance_eq_some.mp hb
  have h0 := h a ha hpath _ (availableBalance_eq_some.mpr ⟨sb, hsb, ht, rfl⟩)
  have hmono := heldTotal_antitone d a.tenantId a.id hst
  simp only [Balance.available] at h0 ⊢
  omega

namespace NoOverdraft

variable {ι : Type}

/-- The figures of an account only improve: its snapshot grows, its holds shrink. -/
structure Improves (a : Account) (d d' : Database) : Prop where
  posted : ∀ b, d.balances.find? a.id = some b → ∃ b', d'.balances.find? a.id = some b' ∧
    b'.tenantId = b.tenantId ∧ b.balance ≤ b'.balance
  held : ∀ t, d'.heldTotal a.tenantId a.id t ≤ d.heldTotal a.tenantId a.id t

theorem Improves.refl (a : Account) (d : Database) : Improves a d d :=
  ⟨fun b hb => ⟨b, hb, rfl, le_refl _⟩, fun _ => le_refl _⟩

theorem Improves.trans {a : Account} {d d' d'' : Database} (h : Improves a d d')
    (h' : Improves a d' d'') : Improves a d d'' where
  posted b hb := by
    obtain ⟨b', hb', ht, hle⟩ := h.posted b hb
    obtain ⟨b'', hb'', ht', hle'⟩ := h'.posted b' hb'
    exact ⟨b'', hb'', ht'.trans ht, hle.trans hle'⟩
  held t := (h'.held t).trans (h.held t)

/-- What other sessions may do while the locks `rs` are kept. -/
structure Rely (rs : List Resource) (g g' : Shared ι Database Write) : Prop where
  clock : g.clock ≤ g'.clock
  accounts : g'.db.accounts = g.db.accounts
  locked : ∀ a ∈ g.db.accounts.rows, underConversion a.path = false →
    .advisory (lockKey a.id) ∈ rs → Improves a g.db g'.db
  covered : Covered g.db g.clock → Covered g'.db g'.clock

/-- The rely, and as guarantee what the holders of other locks rely on. -/
def rg (ι : Type) : RG ι Database Write Resource where
  rely := Rely
  allow := Sys.all
  guar _ tx g g' := ∀ rs, (∀ r ∈ rs, r ∉ tx.held) → Rely rs g g'
  rely_refl _ _ := ⟨le_refl _, rfl, fun a _ _ _ => .refl a _, id⟩
  rely_trans h h' :=
    { clock := h.clock.trans h'.clock
      accounts := h'.accounts.trans h.accounts
      locked := fun a ha hp hr =>
        (h.locked a ha hp hr).trans (h'.locked a (h.accounts ▸ ha) hp hr)
      covered := fun hc => h'.covered (h.covered hc) }
  rely_mono hsub h := { h with locked := fun a ha hp hr => h.locked a ha hp (hsub hr) }

theorem sound : (rg ι).Sound where
  tick _ _ _ ht := ⟨ht, rfl, fun a _ _ _ => .refl a _, fun hc => hc.later ht⟩
  commit _ _ _ hg rs hrs := hg rs hrs

/-- What a commit does to an account outside the conversion accounts: it only
    improves the account's figures, or the session keeps the account's lock
    and the holds are covered afterwards. -/
def Good (tx : Tx Write Resource) (g : Shared ι Database Write) (a : Account) : Prop :=
  (0 ≤ delta tx.log a.id ∧
    ∀ t, (replay g.db tx.log).heldTotal a.tenantId a.id t ≤ g.db.heldTotal a.tenantId a.id t) ∨
  (.advisory (lockKey a.id) ∈ tx.held ∧
    ∀ b, g.db.balances.find? a.id = some b → b.tenantId = a.tenantId →
      (replay g.db tx.log).heldTotal a.tenantId a.id g.clock ≤ b.balance + delta tx.log a.id)

/-- A commit that is good for every such account is within its guarantee. -/
theorem guar_of_good {me : ι} {tx : Tx Write Resource} {g : Shared ι Database Write}
    (hacc : ∀ w ∈ tx.log, w.table ≠ .accounts) (hnew : NoNewSnapshot tx.log)
    (hgood : ∀ a ∈ g.db.accounts.rows, underConversion a.path = false → Good tx g a) :
    (rg ι).guar me tx g (g.commit me tx) := by
  have haccounts : (replay g.db tx.log).accounts = g.db.accounts := Database.replay_accounts hacc
  intro rs hrs
  refine ⟨le_refl _, haccounts, fun a ha hp hr => ?_, fun hc a ha hp b hb => ?_⟩
  · -- an account whose lock is kept by someone else
    rcases hgood a ha hp with ⟨hdelta, hheld⟩ | ⟨hlock, -⟩
    · refine ⟨fun b hb => ?_, hheld⟩
      obtain ⟨b', hb', ht, hbal⟩ := replay_balance_some hnew hb
      exact ⟨b', hb', ht, by omega⟩
    · exact absurd hlock (hrs _ hr)
  · have ha' : a ∈ g.db.accounts.rows := by
      have : a ∈ (replay g.db tx.log).accounts.rows := ha
      rwa [haccounts] at this
    obtain ⟨s', hs', ht', rfl⟩ := availableBalance_eq_some.mp hb
    have hs'' : (replay g.db tx.log).balances.find? a.id = some s' := hs'
    obtain ⟨s, hs⟩ : ∃ s, g.db.balances.find? a.id = some s := by
      cases hs : g.db.balances.find? a.id with
      | none => rw [replay_balance_none hnew hs] at hs''; cases hs''
      | some s => exact ⟨s, rfl⟩
    obtain ⟨s₁, hs₁, ht₁, hbal⟩ := replay_balance_some hnew hs
    rw [hs₁] at hs''
    cases hs''
    have hst : s.tenantId = a.tenantId := ht₁ ▸ ht'
    show 0 ≤ s'.balance - (replay g.db tx.log).heldTotal a.tenantId a.id g.clock
    rcases hgood a ha' hp with ⟨hdelta, hheld⟩ | ⟨-, hcov⟩
    · have h0 := hc a ha' hp _ (availableBalance_eq_some.mpr ⟨s, hs, hst, rfl⟩)
      have h1 := hheld g.clock
      simp only [Balance.available] at h0
      omega
    · have := hcov s hs hst
      omega

/-! ## The Funds Check at the Commit -/

section funds

variable {g gC : Shared ι Database Write} {tx txC : Tx Write Resource} {o o' : OrmSession}
  {g' : Shared ι Database Write} {tx' : Tx Write Resource} {tenantId : String} {amount : Int}
  {ws : List Write} {start : Time}

/-- **The check still holds at the commit**: under the lock the account's
    snapshot minus its unexpired holds covers the amount when the session
    commits. -/
theorem FundsChecked.at_commit {a : Account} (ha : a ∈ g.db.accounts.rows)
    (hp : underConversion a.path = false) (ht : a.tenantId = tenantId) (hlog : tx.log = [])
    (hstart : tx.start = some start) (hclock : start ≤ g.clock)
    (hload : o.balances a.id = none)
    (h : FundsChecked (rg ι) tenantId a.id amount o g tx o' g' tx')
    (hC : Progress (rg ι) ws g' tx' gC txC) :
    .advisory (lockKey a.id) ∈ txC.held ∧ ∀ b, gC.db.balances.find? a.id = some b →
      amount ≤ b.balance - gC.db.heldTotal a.tenantId a.id gC.clock := by
  obtain ⟨lock, held, posted, loaded, tenant, holds, covers⟩ := h
  rename_i g₁ tx₁ g₂ tx₂ b₀
  have hbal := loaded.fresh hload
  rw [hlog, replay_nil] at hbal
  rw [hlog, replay_nil] at covers
  -- the lock is kept from the lock statement on
  have hheld₂ := posted.held held
  have hheld' := holds.held hheld₂
  refine ⟨hC.held hheld', fun b hb => ?_⟩
  have hacc₂ : g₂.db.accounts = g.db.accounts :=
    posted.rely.accounts.trans lock.rely.accounts
  have hacc' : g'.db.accounts = g.db.accounts := holds.rely.accounts.trans hacc₂
  -- the snapshot has grown since it was read
  have hsince := (rg ι).rely_trans holds.rely ((rg ι).rely_mono holds.held hC.rely)
  obtain ⟨b', hb', -, hle⟩ :=
    (hsince.locked a (hacc₂ ▸ ha) hp hheld₂).posted b₀ hbal.symm
  rw [hb] at hb'
  cases hb'
  -- the holds have shrunk since they were summed, and some have expired
  have hnow : tx'.now = start := by
    have h1 := (lock.start _ hstart).1
    have h2 := (posted.start _ h1).1
    have h3 := (holds.start _ h2).1
    simp [Tx.now, h3]
  have hlate : start ≤ gC.clock :=
    hclock.trans (((lock.trans posted).trans holds).rely.clock.trans hC.rely.clock)
  have h1 := (hC.rely.locked a (hacc' ▸ ha) hp hheld').held gC.clock
  have h2 := heldTotal_antitone g'.db a.tenantId a.id hlate
  rw [hnow, ← ht] at covers
  omega

end funds

/-! ## Each Request Keeps Its Guarantee -/

section requests

variable [Runtime] {me : ι} {g : Shared ι Database Write}

/-- The legs of one two-sided transaction of a nonnegative amount, for an
    account that is not its destination-side conversion account. -/
theorem moved_delta {tenantId : String} {src dst : Account} {req : TransferRequest}
    {effectiveAt : Time} {o o' : OrmSession} {g' : Shared ι Database Write}
    {tx tx' : Tx Write Resource} {ws : List Write} {id : UUID} {event : OutboxEvent}
    (h : Moved (rg ι) tenantId src dst req effectiveAt o g tx ws id event o' g' tx')
    (hlog : tx.log = []) (hsrc : src.id = req.sourceAccountId)
    {a : Account} (ha : a ∈ g.db.accounts.rows) (hp : underConversion a.path = false) :
    -req.amount ≤ delta ws a.id ∧ (a.id ≠ req.sourceAccountId → 0 ≤ delta ws a.id) := by
  cases h with
  | direct hcur hpost =>
    rw [delta_cons, delta_of_table (by simp [Write.table]), zero_add]
    exact delta_pair req.amount_pos.le hpost.carried a.id
  | routed hcur hrate hconv h₂ hsrcConv h₃ hdstConv hdebit hcredit =>
    rename_i rate target srcConv dstConv debit credit legs₁ legs₂ event₁ g₁ tx₁ g₂ tx₂ g₃ tx₃ g₄ tx₄
    have htarget : 0 ≤ target := convert_nonneg req.amount_pos.le hrate.neg hconv
    obtain ⟨h1, h1'⟩ := delta_pair req.amount_pos.le hdebit.carried a.id
    obtain ⟨-, h2⟩ := delta_pair htarget hcredit.carried a.id
    -- the account is not the conversion account the credit leg debits
    have hne : a.id ≠ dstConv.id := by
      intro heq
      have hacc : g₃.db.accounts = g.db.accounts :=
        ((hrate.progress.trans h₂).trans h₃).rely.accounts
      rw [hlog, replay_nil] at hdstConv
      have hmem : dstConv ∈ g₃.db.openAt tenantId (conversionPath dst.currency) := by
        simp [hdstConv]
      simp only [Database.openAt, List.mem_filter, Bool.and_eq_true, decide_eq_true_eq] at hmem
      have hrow : dstConv ∈ g.db.accounts.rows := hacc ▸ hmem.1
      have : a = dstConv := Table.eq_of_key_eq _ ha hrow heq
      rw [this, hmem.2.1.2, underConversion_conversionPath] at hp
      cases hp
    have h2 := h2 hne
    rw [hsrc] at h1'
    have hdelta : delta (.insTransaction debit :: legWrites legs₁ ++
        .insOutbox event₁ :: .insTransaction credit :: legWrites legs₂) a.id =
        delta (legWrites legs₁) a.id + delta (legWrites legs₂) a.id := by
      rw [delta_append, delta_cons (.insTransaction debit), delta_cons (.insOutbox event₁),
        delta_cons (.insTransaction credit),
        delta_of_table (w := .insTransaction debit) (by simp [Write.table]),
        delta_of_table (w := .insOutbox event₁) (by simp [Write.table]),
        delta_of_table (w := .insTransaction credit) (by simp [Write.table])]
      omega
    rw [hdelta]
    exact ⟨by omega, fun hs => by have := h1' hs; omega⟩

theorem keeps_transfer {tenantId key : String} {req : TransferRequest} :
    Keeps (rg ι) me (.transfer tenantId req key) g := by
  rw [Keeps, Request.service, swp_map]
  refine swp_executeTransfer (mayRaise_trivial _ _) (fun _ _ _ _ _ _ _ _ _ => trivial)
    fun run _ => ⟨?_, trivial⟩
  obtain ⟨hnew, htables⟩ := run.moved.tables
  have hlog := run.log
  have htable : ∀ w ∈ run.tx.log, w.table ≠ .accounts ∧ w.table ≠ .holds := by
    intro w hw
    rw [hlog] at hw
    simp only [List.mem_append, List.mem_cons, List.not_mem_nil, or_false] at hw
    rcases hw with hw | rfl | rfl
    · rcases htables w hw with h | h | h | h <;> simp [h]
    · simp [Write.table]
    · simp [Write.table]
  refine guar_of_good (fun w hw => (htable w hw).1) ?_ fun a ha hp => ?_
  · rw [hlog]
    refine hnew.append fun r hr => ?_
    simp at hr
  -- the account tables are the same everywhere
  have hacc : ∀ {ws g' tx'}, Progress (rg ι) ws g' tx' run.g run.tx →
      g'.db.accounts = run.g.db.accounts := fun h => h.rely.accounts.symm
  have hM : a ∈ run.gM.db.accounts.rows := by rw [hacc run.tail]; exact ha
  have hsrc : run.src.id = req.sourceAccountId := Table.key_of_find? run.src_eq.1
  obtain ⟨hlow, hother⟩ := moved_delta run.moved run.txM_log hsrc hM hp
  have hdelta : delta run.tx.log a.id = delta run.ws a.id := by
    rw [hlog, delta_append]
    simp [delta, bumpsOn]
  have hheld : ∀ t, (replay run.g.db run.tx.log).heldTotal a.tenantId a.id t =
      run.g.db.heldTotal a.tenantId a.id t := fun t => by
    simp only [Database.heldTotal]
    rw [Database.replay_holds fun w hw => (htable w hw).2]
  by_cases hs : a.id = req.sourceAccountId
  · -- the source: its lock is kept and its funds were checked
    right
    have htoC := run.stamp.trans run.tail
    have hfromL := run.readSrc.trans run.readDst
    obtain ⟨hstart, -⟩ := start_of_began run.began hfromL
    have hD : a ∈ run.gD.db.accounts.rows := by
      rw [hacc (run.funds.progress.trans htoC)]; exact ha
    have htenant : a.tenantId = tenantId := by
      have hS := run.src_eq.1
      have hmem : run.src ∈ run.gD.db.accounts.rows := by
        have h := run.readDst.rely.accounts
        rw [h]; exact Table.mem_of_find? hS
      have : a = run.src := Table.eq_of_key_eq _ hD hmem (hs.trans hsrc.symm)
      rw [this]; exact run.src_eq.2.1
    have hfunds := run.funds
    rw [← hs] at hfunds
    have hlogD : run.txD.log = [] := by
      simpa [run.txL_log] using hfromL.log
    obtain ⟨hlock, hcov⟩ := FundsChecked.at_commit hD hp htenant hlogD hstart hfromL.rely.clock rfl
      hfunds htoC
    refine ⟨hlock, fun b hb _ => ?_⟩
    have := hcov b hb
    rw [hheld, hdelta]
    omega
  · left
    exact ⟨hdelta ▸ hother hs, fun t => (hheld t).le⟩

theorem keeps_placeHold {tenantId key : String} {req : PlaceHoldRequest} :
    Keeps (rg ι) me (.placeHold tenantId req key) g := by
  rw [Keeps, Request.service, swp_map]
  refine swp_placeHold (mayRaise_trivial _ _) (fun _ _ _ _ _ _ _ _ _ => trivial)
    fun run _ => ⟨?_, trivial⟩
  have hlog := run.log
  refine guar_of_good (by rw [hlog]; simp [Write.table]) (by rw [hlog]; intro r hr; simp at hr)
    fun a ha hp => ?_
  have hdelta : delta run.tx.log a.id = 0 := by rw [hlog]; simp [delta, bumpsOn]
  have hheld : ∀ t, (replay run.g.db run.tx.log).heldTotal a.tenantId a.id t ≤
      run.g.db.heldTotal a.tenantId a.id t +
        if run.hold.accountId = a.id then run.hold.amount else 0 := fun t => by
    rw [hlog]
    exact heldTotal_insert_le run.g.db run.hold a.tenantId a.id t
  rw [run.hold_account, run.hold_amount] at hheld
  by_cases hs : a.id = req.accountId
  · -- the account of the hold: its lock is kept and its funds were checked
    right
    have hfromL := run.readAccount
    obtain ⟨hstart, -⟩ := start_of_began run.began hfromL
    have hS : a ∈ run.gS.db.accounts.rows := by
      rw [← (run.funds.progress.trans run.tail).rely.accounts]; exact ha
    have htenant : a.tenantId = tenantId := by
      have hmem := Table.mem_of_find? run.account_eq.1
      have hid : run.account.id = req.accountId := Table.key_of_find? run.account_eq.1
      have : a = run.account := Table.eq_of_key_eq _ hS hmem (hs.trans hid.symm)
      rw [this]; exact run.account_eq.2.1
    have hfunds := run.funds
    rw [← hs] at hfunds
    obtain ⟨hlock, hcov⟩ := FundsChecked.at_commit hS hp htenant run.txS_log hstart
      hfromL.rely.clock rfl hfunds run.tail
    refine ⟨hlock, fun b hb _ => ?_⟩
    have h1 := hcov b hb
    have h2 := hheld run.g.clock
    rw [if_pos hs.symm] at h2
    omega
  · left
    refine ⟨hdelta.ge, fun t => ?_⟩
    have := hheld t
    rwa [if_neg (Ne.symm hs), add_zero] at this

theorem keeps_releaseHold {tenantId : String} {hold : UUID} :
    Keeps (rg ι) me (.releaseHold tenantId hold) g := by
  rw [Keeps, Request.service, swp_map]
  refine swp_releaseHold (mayRaise_trivial _ _) (fun _ _ _ _ _ _ _ _ _ _ _ _ => trivial)
    fun run _ => ⟨?_, fun _ _ _ _ _ => trivial⟩
  have hlog := run.log
  refine guar_of_good (by rw [hlog]; simp [Write.table]) (by rw [hlog]; intro r hr; simp at hr)
    fun a ha hp => Or.inl ⟨?_, fun t => ?_⟩
  · rw [hlog]; simp [delta, bumpsOn]
  · rw [hlog]
    exact heldTotal_release_le run.g.db _ _ _ _ t

end requests

end NoOverdraft

/-- The requests that take or free funds under the advisory lock's discipline. -/
def Request.Reserves : Request → Prop
  | .transfer .. | .placeHold .. | .releaseHold .. => True
  | _ => False

/-- **No overdraft under concurrency.** -/
theorem covered_of_reachable [Runtime] {ι : Type} [DecidableEq ι] (requests : ι → Request)
    (hreq : ∀ i, (requests i).Reserves) (d : Database) (clock : Time) (hstart : Covered d clock)
    {s : Sys ι Database Write Resource Err Reply}
    (hr : Sys.Reachable Sys.all (serve requests d clock) s) :
    ∀ t, s.shared.clock ≤ t → Covered s.shared.db t := by
  have hk : ∀ i, Keeps (NoOverdraft.rg ι) i (requests i) ⟨d, clock, []⟩ := by
    intro i
    have := hreq i
    cases hri : requests i with
    | transfer tenantId req key => exact NoOverdraft.keeps_transfer
    | placeHold tenantId req key => exact NoOverdraft.keeps_placeHold
    | releaseHold tenantId hold => exact NoOverdraft.keeps_releaseHold
    | _ => rw [hri] at this; exact this.elim
  obtain ⟨-, hrely⟩ := serve_reachable NoOverdraft.sound hk hr
  exact fun t ht => (hrely.covered hstart).later ht

open Sample

/-- A payment and a reservation out of the same funds. -/
def rivals : Fin 2 → Request
  | 0 => pay bob 60 "t1" sixty_pos
  | 1 => reserve 100 60000000 "h1" hundred_pos

/-- Interleaved, both commit, and the funds cover both. -/
theorem covered_rivals : ∃ s, Sys.Reachable Sys.all (serve rivals funded 0) s ∧
    s.shared.wal.length = 2 ∧ ∀ t, s.shared.clock ≤ t → Covered s.shared.db t := by
  obtain ⟨s, hr, hp⟩ := Sys.Reachable.of_exec (s := serve rivals funded 0)
    (Sys.turns 0 2000 3 ++ Sys.turns 1 3000 30 ++ Sys.turns 0 2100 40)
    (fun s => s.shared.wal.length == 2) (by decide +kernel)
  exact ⟨s, hr, by simpa using hp, covered_of_reachable rivals
    (fun | 0 => trivial | 1 => trivial) funded 0 (by decide +kernel) hr⟩

end Ledger
