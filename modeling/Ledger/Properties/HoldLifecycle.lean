import Ledger.Properties.OutboxLedger

/-! # The Life of a Hold

    The fields of a hold and the transaction of its capture, in every state
    that requests run one after another can reach.

    * **Ledger**: `Grows`, what is posted stays posted.
    * **Invariant**: `Hold.Sound`, one case for each state of a hold.
    * **Steps**: `HoldStep`, a request places a hold, resolves an active one,
      or leaves the holds alone.
    * **Result**: `hold_lifecycle`.
-/

namespace Ledger

open ReadCommitted

variable {d d' : Database}

/-! ## The Ledger Only Grows -/

/-- Accounts and transactions stay, and a transaction keeps its postings. -/
structure Grows (d d' : Database) : Prop where
  accounts : ∀ {id a}, d.accounts.find? id = some a → d'.accounts.find? id = some a
  transactions : ∀ {id t}, d.transactions.find? id = some t →
    d'.transactions.find? id = some t ∧ d'.postingsOf id = d.postingsOf id

theorem Grows.refl (d : Database) : Grows d d := ⟨id, fun h => ⟨h, rfl⟩⟩

theorem Grows.trans {d'' : Database} (h : Grows d d') (h' : Grows d' d'') : Grows d d'' where
  accounts ha := h'.accounts (h.accounts ha)
  transactions ht := by
    obtain ⟨ht', hp⟩ := h.transactions ht
    obtain ⟨ht'', hp'⟩ := h'.transactions ht'
    exact ⟨ht'', hp'.trans hp⟩

theorem LedgerStep.grows [Runtime] {d₀ : Database} {r : Request} (h : LedgerStep d₀ r d d') :
    Grows d d' := by
  cases h with
  | @plain w hw =>
    obtain ⟨haccounts, -, htransactions, hpostings⟩ := hw
    have ha := Database.apply_accounts (d := d) haccounts
    have ht := Database.apply_transactions (d := d) htransactions
    have hp := Database.apply_postings (d := d) hpostings
    refine ⟨fun h => by rw [ha]; exact h, fun h => ⟨by rw [ht]; exact h, ?_⟩⟩
    unfold Database.postingsOf
    rw [hp]
  | opened a hadm =>
    exact ⟨fun h => Table.find?_insert_of_some h, fun h => ⟨h, rfl⟩⟩
  | posted _ _ _ hblock =>
    obtain ⟨haccounts, htransactions, -, -⟩ := hblock.rows
    refine ⟨fun h => by rw [haccounts]; exact h, fun {id t} h => ?_⟩
    obtain ⟨hmem, hkey⟩ := Table.find?_eq_some_iff.mp h
    constructor
    · refine Table.find?_eq_some_iff.mpr ⟨?_, hkey⟩
      rw [htransactions]
      exact List.mem_append_left _ hmem
    · rw [← hkey]
      exact hblock.postingsOf_old hmem

theorem grows_executed [Runtime] (r : Request) (env : Env) (d : Database) :
    Grows d (r.executed env d).2 := by
  have hsteps := executed_steps r env d
  generalize (r.executed env d).2 = d' at hsteps
  induction hsteps with
  | refl => exact .refl d
  | tail _ hstep ih => exact ih.trans hstep.grows

/-! ## Invariant -/

/-- The transaction moved the amount off the hold's account, to one of the
    same currency, and did nothing else. -/
structure Hold.PaidBy (h : Hold) (d : Database) (id : UUID) (amount : Int) : Prop where
  transaction : ∃ t, d.transactions.find? id = some t ∧ t.tenantId = h.tenantId
  postings : ∃ p q src dst, d.postingsOf id = [p, q] ∧
    p.accountId = h.accountId ∧ p.amount = -amount ∧ q.amount = amount ∧
    d.accounts.find? h.accountId = some src ∧ d.accounts.find? q.accountId = some dst ∧
    src.currency = dst.currency

/-- The fields of a hold agree with its state, and with the ledger. -/
inductive Hold.Sound (h : Hold) (d : Database) : Prop where
  | active (hstate : h.state = .ACTIVE) (htransaction : h.capturedTransactionId = none)
      (hamount : h.capturedAmount = none) (hresolved : h.resolvedAt = none)
  | released (time : Time) (hstate : h.state = .RELEASED)
      (htransaction : h.capturedTransactionId = none) (hamount : h.capturedAmount = none)
      (hresolved : h.resolvedAt = some time)
  | captured (id : UUID) (amount : Int) (time : Time) (hstate : h.state = .CAPTURED)
      (htransaction : h.capturedTransactionId = some id) (hamount : h.capturedAmount = some amount)
      (hresolved : h.resolvedAt = some time) (hpos : 0 < amount) (hwithin : amount ≤ h.amount)
      (hpaid : h.PaidBy d id amount)

/-- The holds are sound, and no two are captured by one transaction. -/
structure HoldsSound (d : Database) : Prop where
  sound : ∀ h ∈ d.holds.rows, h.Sound d
  distinct : ∀ a ∈ d.holds.rows, ∀ b ∈ d.holds.rows, ∀ id,
    a.capturedTransactionId = some id → b.capturedTransactionId = some id → a = b

theorem HoldsSound.empty : HoldsSound .empty where
  sound h hh := by cases hh
  distinct a ha := by cases ha

theorem Hold.PaidBy.mono {h : Hold} {id : UUID} {amount : Int} (hpaid : h.PaidBy d id amount)
    (hgrows : Grows d d') : h.PaidBy d' id amount := by
  obtain ⟨⟨t, ht, htenant⟩, p, q, src, dst, hpostings, hp, hpa, hqa, hsrc, hdst, hcur⟩ := hpaid
  obtain ⟨ht', hpostings'⟩ := hgrows.transactions ht
  exact ⟨⟨t, ht', htenant⟩, p, q, src, dst, hpostings'.trans hpostings, hp, hpa, hqa,
    hgrows.accounts hsrc, hgrows.accounts hdst, hcur⟩

theorem Hold.Sound.mono {h : Hold} (hsound : h.Sound d) (hgrows : Grows d d') : h.Sound d' := by
  cases hsound with
  | active hstate ht ha hr => exact .active hstate ht ha hr
  | released time hstate ht ha hr => exact .released time hstate ht ha hr
  | captured id amount time hstate ht ha hr hpos hwithin hpaid =>
    exact .captured id amount time hstate ht ha hr hpos hwithin (hpaid.mono hgrows)

/-- The transaction a sound hold names is stored. -/
theorem Hold.Sound.stored {h : Hold} {id : UUID} (hsound : h.Sound d)
    (hid : h.capturedTransactionId = some id) : ∃ t, d.transactions.find? id = some t := by
  cases hsound with
  | active _ ht => rw [ht] at hid; cases hid
  | released _ _ ht => rw [ht] at hid; cases hid
  | captured _ _ _ _ ht _ _ _ _ hpaid =>
    rw [ht] at hid
    cases hid
    obtain ⟨t, ht, -⟩ := hpaid.transaction
    exact ⟨t, ht⟩

/-! ## Steps -/

/-- What one request does to the holds. -/
inductive HoldStep (d d' : Database) : Prop where
  | same (h : d'.holds = d.holds)
  | placed (hold : Hold) (hfresh : d.holds.find? hold.id = none) (hactive : hold.state = .ACTIVE)
      (hopen : hold.capturedTransactionId = none ∧ hold.capturedAmount = none ∧
        hold.resolvedAt = none)
      (h : d'.holds = d.holds.insert hold)
  /-- The transaction is new, and its postings are the capture. -/
  | captured (hold : Hold) (id : UUID) (amount : Int) (time : Time)
      (hfound : d.holds.find? hold.id = some hold) (hactive : hold.state = .ACTIVE)
      (hnew : d.transactions.find? id = none) (hpos : 0 < amount) (hwithin : amount ≤ hold.amount)
      (hpaid : hold.PaidBy d' id amount)
      (h : d'.holds = (d.apply (.captureHold hold.id id amount time)).holds)
  | released (hold : Hold) (time : Time) (hfound : d.holds.find? hold.id = some hold)
      (hactive : hold.state = .ACTIVE)
      (h : d'.holds = (d.apply (.releaseHold hold.id time)).holds)

/-- An active hold names no transaction. -/
theorem Hold.Sound.open {h : Hold} (hsound : h.Sound d) (hactive : h.state = .ACTIVE) :
    h.capturedTransactionId = none ∧ h.capturedAmount = none := by
  cases hsound with
  | active _ ht ha => exact ⟨ht, ha⟩
  | released _ hstate => rw [hstate] at hactive; cases hactive
  | captured _ _ _ hstate => rw [hstate] at hactive; cases hactive

/-- One row that is new or changed, and names no transaction an old row names. -/
theorem HoldsSound.distinct_or (h : HoldsSound d) {x : Hold}
    (hmem : ∀ a ∈ d'.holds.rows, a = x ∨ a ∈ d.holds.rows)
    (hnew : ∀ id, x.capturedTransactionId = some id →
      ∀ y ∈ d.holds.rows, y.capturedTransactionId ≠ some id) :
    ∀ a ∈ d'.holds.rows, ∀ b ∈ d'.holds.rows, ∀ id, a.capturedTransactionId = some id →
      b.capturedTransactionId = some id → a = b := by
  intro a ha b hb id hid hid'
  rcases hmem a ha with rfl | ha
  · rcases hmem b hb with rfl | hb
    · rfl
    · exact absurd hid' (hnew id hid b hb)
  · rcases hmem b hb with rfl | hb
    · exact absurd hid (hnew id hid' a ha)
    · exact h.distinct a ha b hb id hid hid'

/-- **Step lemma.** -/
theorem HoldsSound.step (h : HoldsSound d) (hgrows : Grows d d') (hstep : HoldStep d d') :
    HoldsSound d' := by
  have hsound : ∀ x ∈ d.holds.rows, x.Sound d' := fun x hx => (h.sound x hx).mono hgrows
  cases hstep with
  | same heq =>
    constructor
    · rw [heq]
      exact hsound
    · rw [heq]
      exact h.distinct
  | placed hold hfresh hactive hopen heq =>
    have hmem : ∀ x ∈ d'.holds.rows, x = hold ∨ x ∈ d.holds.rows := by
      intro x hx
      rw [heq] at hx
      exact (Table.mem_insert.mp hx).symm.imp_left And.left
    refine ⟨fun x hx => ?_, h.distinct_or hmem fun id hid => ?_⟩
    · rcases hmem x hx with rfl | hx
      · exact .active hactive hopen.1 hopen.2.1 hopen.2.2
      · exact hsound x hx
    · -- the new hold names no transaction
      rw [hopen.1] at hid
      cases hid
  | captured hold id amount time hfound hactive hnew hpos hwithin hpaid heq =>
    have hmem : ∀ x ∈ d'.holds.rows, x = hold.capture id amount time ∨ x ∈ d.holds.rows := by
      intro x hx
      rw [heq] at hx
      have hrow := Table.mem_modify_of_find? hfound _ (Hold.key_capture id amount time) hx
      exact hrow.imp_right And.left
    refine ⟨fun x hx => ?_, h.distinct_or hmem fun u hu y hy hid => ?_⟩
    · rcases hmem x hx with rfl | hx
      · exact .captured id amount time rfl rfl rfl rfl hpos hwithin
          ⟨hpaid.transaction, hpaid.postings⟩
      · exact hsound x hx
    · -- no older hold names the new transaction
      cases hu
      obtain ⟨t, ht⟩ := (h.sound y hy).stored hid
      rw [hnew] at ht
      cases ht
  | released hold time hfound hactive heq =>
    -- an active hold names no transaction, and neither does its release
    have hopen := (h.sound hold (Table.mem_of_find? hfound)).open hactive
    have hmem : ∀ x ∈ d'.holds.rows, x = hold.release time ∨ x ∈ d.holds.rows := by
      intro x hx
      rw [heq] at hx
      have hrow := Table.mem_modify_of_find? hfound _ (Hold.key_release time) hx
      exact hrow.imp_right And.left
    have hnone : (hold.release time).capturedTransactionId = none := hopen.1
    refine ⟨fun x hx => ?_, h.distinct_or hmem fun id hid => ?_⟩
    · rcases hmem x hx with rfl | hx
      · exact .released time rfl hopen.1 hopen.2 rfl
      · exact hsound x hx
    · rw [hnone] at hid
      cases hid

/-- A resolved hold is never written again. -/
theorem HoldStep.frozen {hold : Hold} {id : UUID} (hstep : HoldStep d d')
    (hfound : d.holds.find? id = some hold) (hresolved : hold.state ≠ .ACTIVE) :
    d'.holds.find? id = some hold := by
  -- the hold that a step resolves is another one
  have hne : ∀ {x : Hold}, d.holds.find? x.id = some x → x.state = .ACTIVE → id ≠ x.id := by
    rintro x hx hactive rfl
    rw [hfound] at hx
    cases hx
    exact hresolved hactive
  cases hstep with
  | same heq => rw [heq]; exact hfound
  | placed x hfresh hactive hopen heq => rw [heq]; exact Table.find?_insert_of_some hfound
  | captured x t amount time hx hactive hnew hpos hwithin hpaid heq =>
    have hkept := Table.find?_modify_of_ne d.holds _ (Hold.key_capture t amount time)
      (hne hx hactive)
    rw [heq]
    exact hkept.trans hfound
  | released x time hx hactive heq =>
    have hkept := Table.find?_modify_of_ne d.holds _ (Hold.key_release time) (hne hx hactive)
    rw [heq]
    exact hkept.trans hfound

/-! ## Requests -/

section requests

variable [Runtime]

/-- The transaction of a capture, with the accounts it is between. -/
theorem Emitted.paid {hold : Hold} {destination : UUID} {amount : Int} {now : Time} {memo : String}
    {txn : Transaction} {legs : List Leg} {event : OutboxEvent} {src dst : Account}
    (hpost : Emitted d hold.tenantId (pair hold.accountId destination amount now) memo none txn
      legs event)
    (hattached : ∀ p ∈ d.postings.rows, ∃ t ∈ d.transactions.rows, t.id = p.transactionId)
    (hsrc : d.HasAccount hold.tenantId hold.accountId src)
    (hdst : d.HasAccount hold.tenantId destination dst) (hcur : src.currency = dst.currency) :
    hold.PaidBy (replay d (emission txn legs event)) txn.id amount := by
  have hblock := hpost.block
  have haccounts := accounts_emission d txn legs event
  have hpostings := hblock.postingsOf_new hattached
  obtain ⟨-, htransactions, -, -⟩ := hblock.rows
  -- the event comes after the legs, and touches neither
  have hsplit : replay d (emission txn legs event) =
      (replay d (.insTransaction txn :: legWrites legs)).apply (.insOutbox event) := by
    unfold emission
    rw [replay_append]
    rfl
  rw [hsplit] at haccounts ⊢
  obtain ⟨l, m, rfl, -, hla, hl, -, hma, hm⟩ := legs_of_pair hblock.carried
  constructor
  · refine ⟨txn, ?_, hblock.tenant⟩
    refine Table.find?_eq_some_iff.mpr ⟨?_, rfl⟩
    show txn ∈ (replay d (.insTransaction txn :: legWrites [l, m])).transactions.rows
    rw [htransactions]
    simp
  · refine ⟨l.posting, m.posting, src, dst, hpostings, hla, hl, hm, ?_, ?_, hcur⟩
    · rw [haccounts]
      exact hsrc.1
    · rw [haccounts, hma]
      exact hdst.1

/-- **Refinement**: every request takes one of the steps. -/
theorem Outcome.holdStep {env : Env} {r : Request} {ws : List Write} (h : Outcome env d r ws)
    (hadm : Admitted d ws)
    (hattached : ∀ p ∈ d.postings.rows, ∃ t ∈ d.transactions.rows, t.id = p.transactionId) :
    HoldStep d (replay d ws) := by
  cases h with
  | placed hunseen haccount hfunded htenant hon hamount hactive hopen hrecord =>
    exact .placed _ (Database.fresh_hold hadm.head) hactive hopen rfl
  | @captured tenantId id req src dst now txn legs event hold hfound htenant hactive hsrc hdst hcur
      hamount hwithin hnow hpost =>
    subst htenant
    have hpaid := hpost.paid hattached hsrc hdst hcur
    have hnew := Database.fresh_transaction hpost.block.admitted.head
    have hid : hold.id = id := Table.key_of_find? hfound
    have hholds := holds_emission d txn legs event
    rw [replay_append]
    refine .captured hold txn.id (captureAmount hold req) now (hid ▸ hfound) hactive hnew hamount
      hwithin ⟨hpaid.transaction, hpaid.postings⟩ ?_
    subst hid
    rw [replay_cons, replay_nil, Database.dbms_apply]
    unfold Database.apply
    simp only [hholds]
  | released hfound htenant hactive hnow =>
    have hid := Table.key_of_find? hfound
    rw [key_hold] at hid
    subst hid
    exact .released _ _ hfound hactive rfl
  | posted hpost => exact .same (holds_emission d _ _ _)
  | transferred hunseen hsrc hdst hcur hfunded hnow hpost hrecord =>
    rw [replay_append]
    exact .same (holds_emission d _ _ _)
  | converted hconverts hnow hrate hconv hpos hdebit hcredit hrecord =>
    rw [replay_append, replay_append]
    exact .same ((holds_emission _ _ _ _).trans (holds_emission d _ _ _))
  | reversed hunseen hfound htenant hplain hunreversed hnow hpost hrecord =>
    rw [replay_append]
    exact .same (holds_emission d _ _ _)
  | nothing | opened | rated | dispatched | imported | swept =>
    exact .same (Database.replay_holds (by simp [Write.table]))

theorem holdStep_executed {ok : Database → Request → Prop} (h : Reached ok d) (r : Request)
    (env : Env) : HoldStep d (r.executed env d).2 := by
  obtain ⟨ws, hout, hadm, hafter⟩ := executed_outcome r env d
  rw [hafter]
  exact hout.holdStep hadm (told_of_reached h).attached

/-- **Run lemma.** -/
theorem holdsSound_of_reached {ok : Database → Request → Prop} (h : Reached ok d) :
    HoldsSound d := by
  induction h with
  | empty => exact .empty
  | step r env hreached _ ih =>
    exact ih.step (grows_executed r env _) (holdStep_executed hreached r env)

/-- A resolved hold keeps its row through every later run. -/
theorem frozen_script {ok : Database → Request → Prop} {hold : Hold} {id : UUID}
    (h : Reached ok d) (rs : List (Request × Env)) (hfound : d.holds.find? id = some hold)
    (hresolved : hold.state ≠ .ACTIVE) : (script rs d).holds.find? id = some hold := by
  have hany : Reached (fun _ _ => True) d := h.mono fun _ _ _ => trivial
  clear h
  induction rs generalizing d with
  | nil => exact hfound
  | cons r rs ih =>
    have hstep := holdStep_executed hany r.1 r.2
    exact ih (hstep.frozen hfound hresolved) (hany.step r.1 r.2 trivial)

/-! ## Result -/

/-- The six fields of a hold agree, and its transaction is the capture. -/
structure Hold.Lifecycle (h : Hold) (d : Database) : Prop where
  transaction : h.state = .CAPTURED ↔ h.capturedTransactionId.isSome = true
  amount : h.state = .CAPTURED ↔ h.capturedAmount.isSome = true
  resolved : h.resolvedAt.isSome = true ↔ h.state ≠ .ACTIVE
  within : ∀ amount, h.capturedAmount = some amount → 0 < amount ∧ amount ≤ h.amount
  paid : ∀ id, h.capturedTransactionId = some id →
    ∃ amount, h.capturedAmount = some amount ∧ h.PaidBy d id amount

omit [Runtime] in
theorem Hold.Sound.lifecycle {h : Hold} (hsound : h.Sound d) : h.Lifecycle d := by
  cases hsound with
  | active hstate ht ha hr => constructor <;> simp [hstate, ht, ha, hr]
  | released time hstate ht ha hr => constructor <;> simp [hstate, ht, ha, hr]
  | captured id amount time hstate ht ha hr hpos hwithin hpaid =>
    constructor
    case within =>
      intro c hc
      rw [ha] at hc
      cases hc
      exact ⟨hpos, hwithin⟩
    case paid =>
      intro u hu
      rw [ht] at hu
      cases hu
      exact ⟨amount, ha, hpaid⟩
    all_goals simp [hstate, ht, ha, hr]

/-- **Hold lifecycle**: in every reachable state the fields of each hold agree
    with each other and with the ledger, no two holds share a transaction, a
    resolved hold never changes again, and only a capture posts. -/
theorem hold_lifecycle {ok : Database → Request → Prop} (h : Reached ok d) :
    (∀ hold ∈ d.holds.rows, hold.Lifecycle d) ∧
    (∀ a ∈ d.holds.rows, ∀ b ∈ d.holds.rows, ∀ id,
      a.capturedTransactionId = some id → b.capturedTransactionId = some id → a = b) ∧
    (∀ hold ∈ d.holds.rows, hold.state ≠ .ACTIVE →
      ∀ rs, (script rs d).holds.find? hold.id = some hold) ∧
    ∀ r, ((∃ tenantId req key, r = Request.placeHold tenantId req key) ∨
        ∃ tenantId id, r = Request.releaseHold tenantId id) →
      ∀ env, (r.executed env d).2.transactions = d.transactions ∧
        (r.executed env d).2.postings = d.postings := by
  have hsound := holdsSound_of_reached h
  refine ⟨fun hold hh => (hsound.sound hold hh).lifecycle, hsound.distinct, ?_, ?_⟩
  · intro hold hh hresolved rs
    exact frozen_script h rs (Table.find?_of_mem hh) hresolved
  · intro r hr env
    obtain ⟨ws, hout, -, hafter⟩ := executed_outcome r env d
    rw [hafter]
    rcases hr with ⟨tenantId, req, key, rfl⟩ | ⟨tenantId, id, rfl⟩
    · cases hout with
      | nothing => exact ⟨rfl, rfl⟩
      | placed => exact ⟨rfl, rfl⟩
    · cases hout with
      | nothing => exact ⟨rfl, rfl⟩
      | released => exact ⟨rfl, rfl⟩

end requests

open Sample

/-- A captured hold, and one that was placed and released after it. -/
theorem hold_lifecycle_busy :
    let d := script (busy ++ [(reserve 100 60000000 "h2" (by decide), envAt 0 6000),
      (.releaseHold "acme" 6005, envAt 0 7000)]) .empty
    d.holds.rows.map Hold.state = [.CAPTURED, .RELEASED] ∧
      ∀ hold ∈ d.holds.rows, hold.Lifecycle d := by
  intro d
  have hreached : Reached (fun _ _ => True) d := Reached.empty.script (by decide +kernel)
  exact ⟨by decide +kernel, (hold_lifecycle hreached).1⟩

end Ledger
