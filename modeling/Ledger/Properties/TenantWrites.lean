import Ledger.Properties.TenantIsolation

/-! # Tenant Writes

    No id in a request lets a tenant change a row of another.

    * **Writes**: `Write.Of`, the write concerns rows of one tenant, in the
      state it is made in; such a write leaves what other tenants own alone.
    * **Requests**: `Outcome.writesOf`, all a request writes is of its tenant.
      The accounts, holds and events it names are checked when they are read;
      a reversal relies on the books for the legs it negates.
-/

namespace Ledger

open ReadCommitted

/-! ## Writes of One Tenant -/

/-- The write inserts a row of the tenant, or changes one. -/
def Write.Of (d : Database) (tenantId : String) : Write → Prop
  | .insAccount r => r.tenantId = tenantId
  | .insBalance r => r.tenantId = tenantId
  | .insTransaction r => r.tenantId = tenantId
  | .insPosting r => d.ownsTransaction tenantId r.transactionId = true ∧ d.Owns tenantId r.accountId
  | .insOutbox r => r.tenantId = tenantId
  | .insHold r => r.tenantId = tenantId
  | .insRecord r => r.id.tenantId = tenantId
  -- rates are global
  | .insRate _ => True
  | .insImport r => r.tenantId = tenantId
  | .insLine r => d.ownsImport tenantId r.importId = true
  | .bump account _ _ => ∀ b, d.balances.find? account = some b → b.tenantId = tenantId
  | .captureHold id _ _ _ => ∀ h, d.holds.find? id = some h → h.tenantId = tenantId
  | .releaseHold id _ => ∀ h, d.holds.find? id = some h → h.tenantId = tenantId
  | .publish id _ => ∀ e, d.outbox.find? id = some e → e.tenantId = tenantId
  | .deleteRecords ks => ∀ k ∈ ks, k.tenantId = tenantId

/-- Every write of a list is, in the state it is made in. -/
def WritesOf (tenantId : String) : Database → List Write → Prop
  | _, [] => True
  | d, w :: ws => w.Of d tenantId ∧ WritesOf tenantId (d.apply w) ws

theorem writesOf_append {tenantId : String} {d : Database} {ws vs : List Write} :
    WritesOf tenantId d (ws ++ vs) ↔
      WritesOf tenantId d ws ∧ WritesOf tenantId (replay d ws) vs := by
  induction ws generalizing d with
  | nil => simp [WritesOf]
  | cons w ws ih =>
    show w.Of d tenantId ∧ WritesOf tenantId (d.apply w) (ws ++ vs) ↔
      (w.Of d tenantId ∧ WritesOf tenantId (d.apply w) ws) ∧ _
    rw [ih, and_assoc]
    rfl

section frame

variable {d : Database} {tenantId other : String} {w : Write} {ws : List Write}

/-- A transaction of one tenant is none of another's. -/
theorem ownsTransaction_insert {r : Transaction} (hne : r.tenantId ≠ other) (id : UUID) :
    (d.apply (.insTransaction r)).ownsTransaction other id = d.ownsTransaction other id :=
  Table.any_insert (t := d.transactions) (decide_eq_false hne) id

theorem ownsImport_insert {r : StatementImport} (hne : r.tenantId ≠ other) (id : UUID) :
    (d.apply (.insImport r)).ownsImport other id = d.ownsImport other id :=
  Table.any_insert (t := d.imports) (decide_eq_false hne) id

/-- A line of one tenant's import is of no import of another's. -/
theorem ownsLine_insert {r : StatementLine} (hother : d.ownsImport other r.importId = false)
    (id : UUID) : (d.apply (.insLine r)).ownsLine other id = d.ownsLine other id :=
  Table.any_insert (t := d.lines) (p := fun l => d.ownsImport other l.importId) hother id

/-- A row that has one property has none that excludes it. -/
theorem any_of_excluded {α : Type} {o : Option α} {p q : α → Bool} (h : o.any p = true)
    (hpq : ∀ a, p a = true → q a = false) : o.any q = false := by
  cases o with
  | none => rfl
  | some a => exact hpq a h

/-- No transaction is of two tenants. -/
theorem ownsTransaction_other {id : UUID} (h : d.ownsTransaction tenantId id = true)
    (hne : tenantId ≠ other) : d.ownsTransaction other id = false := by
  refine any_of_excluded h fun t ht => ?_
  rw [decide_eq_true_eq] at ht
  exact decide_eq_false (ht ▸ hne)

theorem ownsImport_other {id : UUID} (h : d.ownsImport tenantId id = true)
    (hne : tenantId ≠ other) : d.ownsImport other id = false := by
  refine any_of_excluded h fun i hi => ?_
  rw [decide_eq_true_eq] at hi
  exact decide_eq_false (hi ▸ hne)

/-- What a write of one tenant leaves alone, table by table. -/
theorem Write.Of.ownedBy (h : w.Of d tenantId) (hne : tenantId ≠ other) :
    (d.apply w).ownedBy other = d.ownedBy other := by
  have hno : ∀ {t : String}, t = tenantId → decide (t = other) = false := by
    rintro t rfl
    exact decide_eq_false hne
  cases w with
  | insAccount r =>
    have hrows := Table.filter_insert (t := d.accounts) (r := r)
      (p := fun a => a.tenantId = other) (hno h)
    exact congrArg (fun rows => { d.ownedBy other with accounts := rows }) hrows
  | insBalance r =>
    have hrows := Table.filter_insert (t := d.balances) (r := r)
      (p := fun b => b.tenantId = other) (hno h)
    exact congrArg (fun rows => { d.ownedBy other with balances := rows }) hrows
  | insHold r =>
    have hrows := Table.filter_insert (t := d.holds) (r := r)
      (p := fun x => x.tenantId = other) (hno h)
    exact congrArg (fun rows => { d.ownedBy other with holds := rows }) hrows
  | insTransaction r =>
    have hrows := Table.filter_insert (t := d.transactions) (r := r)
      (p := fun t => t.tenantId = other) (hno h)
    -- nor does the new row make a posting the other tenant's
    have howns := ownsTransaction_insert (d := d) fun heq : r.tenantId = other =>
      hne (h.symm.trans heq)
    have hpostings : (d.apply (.insTransaction r)).postings.rows.filter
        (fun p => (d.apply (.insTransaction r)).ownsTransaction other p.transactionId) =
          d.postings.rows.filter fun p => d.ownsTransaction other p.transactionId :=
      List.filter_congr fun p _ => howns p.transactionId
    exact congrArg₂
      (fun rows rows' => { d.ownedBy other with transactions := rows, postings := rows' })
      hrows hpostings
  | insPosting r =>
    have hrows := Table.filter_insert (t := d.postings) (r := r)
      (p := fun p => d.ownsTransaction other p.transactionId) (ownsTransaction_other h.1 hne)
    exact congrArg (fun rows => { d.ownedBy other with postings := rows }) hrows
  | insOutbox r =>
    have hrows := Table.filter_insert (t := d.outbox) (r := r)
      (p := fun e => e.tenantId = other) (hno h)
    exact congrArg (fun rows => { d.ownedBy other with outbox := rows }) hrows
  | insRecord r =>
    have hrows := Table.filter_insert (t := d.records) (r := r)
      (p := fun x => x.id.tenantId = other) (hno h)
    exact congrArg (fun rows => { d.ownedBy other with records := rows }) hrows
  | insRate r => rfl
  | insImport r =>
    have hrows := Table.filter_insert (t := d.imports) (r := r)
      (p := fun i => i.tenantId = other) (hno h)
    have howns := ownsImport_insert (d := d) fun heq : r.tenantId = other =>
      hne (h.symm.trans heq)
    have hlines : (d.apply (.insImport r)).lines.rows.filter
        (fun l => (d.apply (.insImport r)).ownsImport other l.importId) =
          d.lines.rows.filter fun l => d.ownsImport other l.importId :=
      List.filter_congr fun l _ => howns l.importId
    have hexceptions : (d.apply (.insImport r)).exceptions.rows.filter
        (fun e => (d.apply (.insImport r)).ownsLine other e.lineId) =
          d.exceptions.rows.filter fun e => d.ownsLine other e.lineId := by
      refine List.filter_congr fun e _ => ?_
      unfold Database.ownsLine
      simp only [howns]
      rfl
    simp only [Database.ownedBy, Owned.mk.injEq]
    exact ⟨rfl, rfl, rfl, rfl, rfl, rfl, rfl, hrows, hlines, hexceptions⟩
  | insLine r =>
    have hother := ownsImport_other h hne
    have hrows := Table.filter_insert (t := d.lines) (r := r)
      (p := fun l => d.ownsImport other l.importId) hother
    have hexceptions : (d.apply (.insLine r)).exceptions.rows.filter
        (fun e => (d.apply (.insLine r)).ownsLine other e.lineId) =
          d.exceptions.rows.filter fun e => d.ownsLine other e.lineId :=
      List.filter_congr fun e _ => ownsLine_insert hother e.lineId
    exact congrArg₂ (fun rows rows' => { d.ownedBy other with lines := rows, exceptions := rows' })
      hrows hexceptions
  | bump account amount posting =>
    have hrows : (d.balances.modify account _ (AccountBalance.key_fold amount posting)).rows.filter
        (fun b => b.tenantId = other) = d.balances.rows.filter fun b => b.tenantId = other :=
      Table.filter_modify fun b hb => ⟨hno (h b hb), hno (h b hb)⟩
    exact congrArg (fun rows => { d.ownedBy other with balances := rows }) hrows
  | captureHold id txn amount time =>
    have hrows : (d.holds.modify id _ (Hold.key_capture txn amount time)).rows.filter
        (fun x => x.tenantId = other) = d.holds.rows.filter fun x => x.tenantId = other :=
      Table.filter_modify fun x hx => ⟨hno (h x hx), hno (h x hx)⟩
    exact congrArg (fun rows => { d.ownedBy other with holds := rows }) hrows
  | releaseHold id time =>
    have hrows : (d.holds.modify id _ (Hold.key_release time)).rows.filter
        (fun x => x.tenantId = other) = d.holds.rows.filter fun x => x.tenantId = other :=
      Table.filter_modify fun x hx => ⟨hno (h x hx), hno (h x hx)⟩
    exact congrArg (fun rows => { d.ownedBy other with holds := rows }) hrows
  | publish id time =>
    have hrows : (d.outbox.modify id _ (OutboxEvent.key_publish time)).rows.filter
        (fun e => e.tenantId = other) = d.outbox.rows.filter fun e => e.tenantId = other :=
      Table.filter_modify fun e he => ⟨hno (h e he), hno (h e he)⟩
    exact congrArg (fun rows => { d.ownedBy other with outbox := rows }) hrows
  | deleteRecords ks =>
    have hrows : (d.records.erase ks).rows.filter (fun x => x.id.tenantId = other) =
        d.records.rows.filter fun x => x.id.tenantId = other :=
      Table.filter_erase fun x _ hx => hno (h x.id hx)
    exact congrArg (fun rows => { d.ownedBy other with records := rows }) hrows

/-- A write keeps the owner of every account. -/
theorem owns_apply {account : UUID} (h : d.Owns tenantId account) :
    (d.apply w).Owns tenantId account := by
  obtain ⟨a, ha, hat⟩ := h
  cases w with
  | insAccount r => exact ⟨a, Table.find?_insert_of_some ha, hat⟩
  | _ => exact ⟨a, ha, hat⟩

theorem owns_replay {account : UUID} (h : d.Owns tenantId account) :
    (replay d ws).Owns tenantId account :=
  replay_induction (P := fun d => d.Owns tenantId account) d h fun _ _ _ hd => owns_apply hd

/-- **Step lemma**: a posting that a write of the tenant adds is on an account
    of the tenant. -/
theorem Write.Of.postings (h : w.Of d tenantId) {p : Posting}
    (hp : p ∈ (d.apply w).postings.rows) : p ∈ d.postings.rows ∨ d.Owns tenantId p.accountId := by
  cases w with
  | insPosting r =>
    rcases Table.mem_insert.mp hp with hp | ⟨rfl, -⟩
    · exact .inl hp
    · exact .inr h.2
  | _ => exact .inl hp

/-- **Run lemma**: writes of one tenant leave what another owns as it was, and
    add postings on the tenant's accounts only. -/
theorem WritesOf.isolated (h : WritesOf tenantId d ws) :
    (∀ other, tenantId ≠ other → (replay d ws).ownedBy other = d.ownedBy other) ∧
      ∀ p ∈ (replay d ws).postings.rows,
        p ∈ d.postings.rows ∨ (replay d ws).Owns tenantId p.accountId := by
  induction ws generalizing d with
  | nil => exact ⟨fun _ _ => rfl, fun p hp => .inl hp⟩
  | cons w ws ih =>
    obtain ⟨hw, hws⟩ := h
    obtain ⟨howned, hpostings⟩ := ih hws
    constructor
    · intro other hne
      rw [replay_cons]
      exact (howned other hne).trans (hw.ownedBy hne)
    · intro p hp
      rcases hpostings p hp with hp | hown
      · rcases hw.postings hp with hp | hown
        · exact .inl hp
        · have hkept : (replay (d.apply w) ws).Owns tenantId p.accountId :=
            owns_replay (owns_apply hown)
          exact .inr hkept
      · exact .inr hown

/-- So another tenant keeps its rows, and gets no posting on its accounts. -/
theorem WritesOf.others (h : WritesOf tenantId d ws) {other : String} (hne : tenantId ≠ other) :
    (replay d ws).ownedBy other = d.ownedBy other ∧
      ∀ p ∈ (replay d ws).postings.rows, p ∉ d.postings.rows →
        ¬ (replay d ws).Owns other p.accountId := by
  obtain ⟨howned, hpostings⟩ := h.isolated
  refine ⟨howned other hne, fun p hp hnew hother => ?_⟩
  obtain ⟨a, ha, hat⟩ := (hpostings p hp).resolve_left hnew
  obtain ⟨b, hb, hbt⟩ := hother
  rw [ha] at hb
  cases hb
  exact hne (hat.symm.trans hbt)

end frame

/-! ## Requests -/

section requests

variable {d : Database} {tenantId : String} {txn : UUID}

/-- The legs of a transaction of the tenant, on its accounts. -/
theorem writesOf_legs {legs : List Leg} (howns : d.ownsTransaction tenantId txn = true)
    (hlegs : ∀ l ∈ legs, l.posting.transactionId = txn ∧ d.Owns tenantId l.posting.accountId)
    (hfolded : ∀ l ∈ legs, l.folded = true →
      Svc.matched d tenantId l.posting.accountId = true) :
    WritesOf tenantId d (legWrites legs) := by
  induction legs generalizing d with
  | nil => trivial
  | cons l legs ih =>
    rw [legWrites_cons, writesOf_append]
    obtain ⟨htxn, haccount⟩ := hlegs l (by simp)
    constructor
    · unfold Leg.writes
      refine ⟨⟨htxn ▸ howns, haccount⟩, ?_⟩
      cases hf : l.folded with
      | false => trivial
      | true =>
        -- the update matched a row of the tenant
        obtain ⟨b, hb, hbt⟩ := matched_iff.mp (hfolded l (by simp) hf)
        refine ⟨fun b' hb' => ?_, trivial⟩
        have hsame : d.balances.find? l.posting.accountId = some b' := hb'
        rw [hb] at hsame
        cases hsame
        exact hbt
    · have hframe : (replay d l.writes).transactions = d.transactions := by
        refine Database.replay_transactions fun w hw => ?_
        have hw' : w ∈ legWrites [l] := by simpa using hw
        rcases table_legWrites hw' with h | h <;> simp [h]
      apply ih
      · unfold Database.ownsTransaction
        rw [hframe]
        exact howns
      · intro m hm
        obtain ⟨hmtxn, hmaccount⟩ := hlegs m (by simp [hm])
        exact ⟨hmtxn, owns_replay hmaccount⟩
      · intro m hm hf
        have hnew : NoNewSnapshot l.writes := by simpa using noNewSnapshot_legWrites [l]
        rw [matched_replay hnew]
        exact hfolded m (by simp [hm]) hf

/-- One call of the engine for the tenant, with legs on its accounts. -/
theorem Emitted.writesOf [Runtime] {specs : List PostingSpec} {memo : String} {c : Option UUID}
    {txn : Transaction} {legs : List Leg} {event : OutboxEvent}
    (h : Emitted d tenantId specs memo c txn legs event)
    (howns : ∀ spec ∈ specs, d.Owns tenantId spec.accountId) :
    WritesOf tenantId d (emission txn legs event) := by
  have hfresh := Database.fresh_transaction h.block.admitted.head
  have hfind : (d.apply (.insTransaction txn)).transactions.find? txn.id = some txn :=
    Table.find?_insert_self (r := txn) hfresh
  unfold emission
  rw [writesOf_append]
  refine ⟨⟨h.block.tenant, @writesOf_legs _ _ txn.id _ ?_ ?_ ?_⟩, h.event_tenant, trivial⟩
  · unfold Database.ownsTransaction
    rw [hfind]
    simpa using h.block.tenant
  · intro l hl
    obtain ⟨spec, hspec, hof⟩ := Leg.Of.exists_spec h.block.carried hl
    exact ⟨hof.transaction, hof.account ▸ owns_apply (howns spec hspec)⟩
  · intro l hl hf
    exact (h.block.folded_eq l hl).symm.trans hf

/-- The events a dispatch marks are the tenant's. -/
theorem writesOf_publish {time : Time} {events : List OutboxEvent}
    (h : ∀ e ∈ events, ∀ row, d.outbox.find? e.id = some row → row.tenantId = tenantId) :
    WritesOf tenantId d (events.map fun e => .publish e.id time) := by
  induction events generalizing d with
  | nil => trivial
  | cons e events ih =>
    refine ⟨h e (by simp), ih fun e' he' row hrow => ?_⟩
    -- a dispatch keeps the tenant of the event
    have hrow' : (d.outbox.modify e.id (fun x => x.publish time)
        (OutboxEvent.key_publish time)).find? e'.id = some row := hrow
    rw [Table.find?_modify, Option.map_eq_some_iff] at hrow'
    obtain ⟨row', hfind, rfl⟩ := hrow'
    have := h e' (by simp [he']) row' hfind
    split <;> exact this

theorem writesOf_lines {rows : List StatementLine} {id : UUID}
    (howns : d.ownsImport tenantId id = true) (h : ∀ line ∈ rows, line.importId = id) :
    WritesOf tenantId d (rows.map .insLine) := by
  induction rows generalizing d with
  | nil => trivial
  | cons line rows ih =>
    have hline : d.ownsImport tenantId line.importId = true := by
      rw [h line (by simp)]
      exact howns
    exact ⟨hline, ih (d := d.apply (.insLine line)) howns fun l hl => h l (by simp [hl])⟩

/-- The tenant a request acts for. -/
def Request.tenant : Request → Option String
  | .openAccount t _ | .post t _ _ | .transfer t _ _ | .placeHold t _ _ | .captureHold t _ _
  | .releaseHold t _ | .reverse t _ _ _ | .upsertRate t _ | .dispatch t _
  | .importStatement t _ _ _ => some t
  | .sweep _ => none

/-- **Every write of a request** is of its tenant. -/
theorem Outcome.writesOf [Runtime] {env : Env} {r : Request} {ws : List Write}
    (h : Outcome env d r ws) (hbooks : Books d) (hproper : r.Proper d)
    (htenant : r.tenant = some tenantId) (hadm : Admitted d ws) : WritesOf tenantId d ws := by
  have howned := fun {specs c} (hposts : Posts d r tenantId specs c) => hposts.owned hbooks hproper
  cases h with
  | nothing => trivial
  | opened hrow =>
    cases htenant
    exact ⟨hrow.tenant, hrow.tenant, trivial⟩
  | posted hpost =>
    cases htenant
    exact hpost.writesOf (howned .post)
  | transferred hunseen hsrc hdst hcur hfunded hnow hpost hrecord =>
    cases htenant
    rw [writesOf_append]
    refine ⟨hpost.writesOf (howned (.transfer hsrc hdst hcur)), ?_, trivial⟩
    exact congrArg RecordKey.tenantId hrecord
  | converted hconverts hnow hrate hconv hpos hdebit hcredit hrecord =>
    cases htenant
    rw [writesOf_append, writesOf_append]
    refine ⟨⟨hdebit.writesOf (howned (.debit hconverts)), hcredit.writesOf fun spec hspec => ?_⟩,
      ?_, trivial⟩
    · -- the second call finds the rows of the first
      exact owns_replay (howned (.credit hconverts) spec hspec)
    · exact congrArg RecordKey.tenantId hrecord
  | placed hunseen haccount hfunded hholdTenant hon hamount hactive hopen hrecord =>
    cases htenant
    exact ⟨hholdTenant, congrArg RecordKey.tenantId hrecord, trivial⟩
  | captured hfound hholdTenant hactive hsrc hdst hcur hamount hwithin hnow hpost =>
    cases htenant
    rw [writesOf_append]
    refine ⟨hpost.writesOf (howned (.capture hsrc hdst hcur)), fun x hx => ?_, trivial⟩
    -- the posting does not touch the holds
    rw [holds_emission, hfound] at hx
    cases hx
    exact hholdTenant
  | released hfound hholdTenant hactive hnow =>
    cases htenant
    refine ⟨fun x hx => ?_, trivial⟩
    rw [hfound] at hx
    cases hx
    exact hholdTenant
  | reversed hunseen hfound hownerTenant hplain hunreversed hnow hpost hrecord =>
    cases htenant
    rw [writesOf_append]
    refine ⟨hpost.writesOf (howned (.reversal hfound hownerTenant hplain hunreversed)), ?_, trivial⟩
    exact congrArg RecordKey.tenantId hrecord
  | rated => exact ⟨trivial, trivial⟩
  | dispatched =>
    cases htenant
    -- a dispatch selects by tenant
    refine writesOf_publish fun e he row hrow => ?_
    obtain ⟨hmem, hselected⟩ := mem_events he
    obtain rfl := Option.some.inj ((Table.find?_of_mem hmem).symm.trans hrow)
    exact hselected.1
  | @imported _ _ _ _ row rows hrowTenant hlines =>
    cases htenant
    -- the lines are of the import inserted before them
    have hfind : (d.apply (.insImport row)).imports.find? row.id = some row :=
      Table.find?_insert_self (r := row) (Database.fresh_import hadm.head)
    refine ⟨hrowTenant, writesOf_lines ?_ hlines⟩
    unfold Database.ownsImport
    rw [hfind]
    simpa using hrowTenant
  | swept => cases htenant

end requests

end Ledger
