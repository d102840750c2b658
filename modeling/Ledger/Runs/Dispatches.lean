import Ledger.Framework.Sorting
import Ledger.Runs.Inserts
import Ledger.Runs.Sessions

/-! # What the Outbox Goes Through

    * **Events**: the events a list of writes adds (`enqueued`) and marks
      (`published`), and the rows of the outbox after it.
    * **Requests**: `swp_request`, a request other than a dispatch commits at
      most once, its events built on the way (`Stamped`), and hands back none.
    * **Commits**: `Ships`, what a commit does to the outbox; every commit of
      every run does it (`ships_of_traced`).
    * **Replies**: `Handed`, a session hands back the events it marked.
-/

namespace Ledger

open ReadCommitted

/-! ## Events -/

/-- The events a list of writes adds. -/
def enqueued (ws : List Write) : List OutboxEvent :=
  ws.filterMap fun
    | .insOutbox e => some e
    | _ => none

/-- The events a list of writes marks as published. -/
def published (ws : List Write) : List UUID :=
  ws.filterMap fun
    | .publish id _ => some id
    | _ => none

section events

variable {d : Database} {w : Write} {ws vs : List Write} {x : UUID} {e : OutboxEvent}

@[simp] theorem published_nil : published [] = [] := rfl

@[simp] theorem enqueued_append : enqueued (ws ++ vs) = enqueued ws ++ enqueued vs := by
  simp [enqueued]

@[simp] theorem published_append : published (ws ++ vs) = published ws ++ published vs := by
  simp [published]

theorem mem_enqueued : e ∈ enqueued ws ↔ .insOutbox e ∈ ws := by
  unfold enqueued
  rw [List.mem_filterMap]
  constructor
  · rintro ⟨w, hw, h⟩
    cases w <;> simp at h
    exact h ▸ hw
  · intro h
    exact ⟨_, h, rfl⟩

/-- Writes to other tables add and mark no event. -/
theorem quiet_of_tables (ws : List Write) (h : ∀ w ∈ ws, w.table ≠ .outbox) :
    enqueued ws = [] ∧ published ws = [] := by
  unfold enqueued published
  simp only [List.filterMap_eq_nil_iff]
  constructor <;>
  · intro w hw
    have hw := h w hw
    cases w <;> first | rfl | exact absurd rfl hw

theorem quiet_legWrites (legs : List Leg) :
    enqueued (legWrites legs) = [] ∧ published (legWrites legs) = [] :=
  quiet_of_tables _ fun w hw => by rcases table_legWrites hw with h | h <;> simp [h]

@[simp] theorem enqueued_insTransaction (txn : Transaction) (ws : List Write) :
    enqueued (.insTransaction txn :: ws) = enqueued ws := rfl

@[simp] theorem published_insTransaction (txn : Transaction) (ws : List Write) :
    published (.insTransaction txn :: ws) = published ws := rfl

/-- The writes of one transaction and of its event. -/
theorem events_posting (txn : Transaction) (legs : List Leg) (e : OutboxEvent) (vs : List Write)
    (hquiet : enqueued vs = [] ∧ published vs = []) :
    enqueued (.insTransaction txn :: legWrites legs ++ .insOutbox e :: vs) = [e] ∧
      published (.insTransaction txn :: legWrites legs ++ .insOutbox e :: vs) = [] := by
  obtain ⟨henqueued, hpublished⟩ := quiet_legWrites legs
  constructor
  · rw [enqueued_append, enqueued_insTransaction, henqueued]
    exact congrArg (e :: ·) hquiet.1
  · rw [published_append, published_insTransaction, hpublished]
    exact hquiet.2

theorem enqueued_publish (es : List OutboxEvent) (time : Time) :
    enqueued (es.map fun e => .publish e.id time) = [] := by
  induction es with
  | nil => rfl
  | cons e es ih => exact ih

theorem published_publish (es : List OutboxEvent) (time : Time) :
    published (es.map fun e => .publish e.id time) = es.map OutboxEvent.id := by
  induction es with
  | nil => rfl
  | cons e es ih => exact congrArg (e.id :: ·) ih

/-- The row of an event later on: it may have been published. -/
structure OutboxEvent.Later (e e' : OutboxEvent) : Prop where
  id : e'.id = e.id
  tenant : e'.tenantId = e.tenantId
  created : e'.createdAt = e.createdAt
  status : e.status = .PUBLISHED → e'.status = .PUBLISHED

theorem OutboxEvent.Later.refl (e : OutboxEvent) : e.Later e := ⟨rfl, rfl, rfl, fun h => h⟩

theorem OutboxEvent.Later.trans {e₁ e₂ e₃ : OutboxEvent} (h : e₁.Later e₂) (h' : e₂.Later e₃) :
    e₁.Later e₃ :=
  ⟨h'.id.trans h.id, h'.tenant.trans h.tenant, h'.created.trans h.created,
    fun hs => h'.status (h.status hs)⟩

/-- An event stays in the table, published from the first mark on. -/
theorem outbox_kept (ws : List Write) (h : d.outbox.find? x = some e) :
    ∃ e', (replay d ws).outbox.find? x = some e' ∧
    e.Later e' ∧ (x ∈ published ws → e'.status = .PUBLISHED) ∧ (x ∉ published ws → e' = e) := by
  induction ws generalizing d e with
  | nil => exact ⟨e, h, .refl e, by simp, fun _ => rfl⟩
  | cons w ws ih =>
    cases w with
    | insOutbox r => exact ih (Table.find?_insert_of_some h)
    | publish id time =>
      have hcons : published (.publish id time :: ws) = id :: published ws := rfl
      rw [replay_cons, hcons, List.mem_cons]
      by_cases hx : x = id
      · subst hx
        have hrow : (d.apply (.publish x time)).outbox.find? x = some (e.publish time) := by
          simp [Database.apply, h]
        obtain ⟨e', he', hlater, -, -⟩ := ih hrow
        have hpublished : e'.status = .PUBLISHED := hlater.status rfl
        refine ⟨e', he', ⟨hlater.id, hlater.tenant, hlater.created, fun _ => hpublished⟩, ?_, ?_⟩
        · exact fun _ => hpublished
        · exact fun hno => absurd (.inl rfl) hno
      · have hrow : (d.apply (.publish id time)).outbox.find? x = some e := by
          simpa [Database.apply, Table.find?_modify_of_ne _ _ _ hx] using h
        obtain ⟨e', he', hlater, hmarked, hsame⟩ := ih hrow
        refine ⟨e', he', hlater, fun hm => hmarked (hm.resolve_left hx), fun hno => hsame ?_⟩
        exact fun hm => hno (.inr hm)
    | _ => exact ih h

/-- An event that is new in the table was added. -/
theorem outbox_new {e' : OutboxEvent} (h : d.outbox.find? x = none)
    (h' : (replay d ws).outbox.find? x = some e') :
    ∃ e ∈ enqueued ws, e.id = x ∧ e.Later e' ∧ (x ∉ published ws → e' = e) := by
  induction ws generalizing d with
  | nil => rw [replay_nil, h] at h'; cases h'
  | cons w ws ih =>
    rw [replay_cons] at h'
    cases w with
    | insOutbox r =>
      have hcons : enqueued (.insOutbox r :: ws) = r :: enqueued ws := rfl
      rw [hcons]
      by_cases hx : r.id = x
      · -- the row that was added, later on
        subst hx
        have hrow : (d.apply (.insOutbox r)).outbox.find? r.id = some r :=
          Table.find?_insert_self (r := r) h
        obtain ⟨e, he, hlater, -, hsame⟩ := outbox_kept (ws) hrow
        rw [Database.dbms_apply, he] at h'
        cases h'
        exact ⟨r, by simp, rfl, hlater, hsame⟩
      · have hrow : (d.apply (.insOutbox r)).outbox.find? x = none := by
          show (d.outbox.insert r).find? x = none
          rw [Table.find?_insert_of_ne (r := r) hx]
          exact h
        obtain ⟨e, he, hrest⟩ := ih hrow h'
        exact ⟨e, List.mem_cons_of_mem r he, hrest⟩
    | publish id time =>
      have hrow : (d.apply (.publish id time)).outbox.find? x = none := by
        simp [Database.apply, Table.find?_modify, h]
      obtain ⟨e, he, hid, hlater, hsame⟩ := ih hrow h'
      exact ⟨e, he, hid, hlater, fun hno => hsame fun hm => hno (List.mem_cons_of_mem id hm)⟩
    | _ => exact ih (by exact h) h'

/-- An event that was added is in the table. -/
theorem outbox_added (h : e ∈ enqueued ws) : ∃ e', (replay d ws).outbox.find? e.id = some e' := by
  obtain ⟨pre, post, rfl⟩ := List.append_of_mem (mem_enqueued.mp h)
  rw [replay_append, replay_cons]
  have hrow : ∃ r, (Dbms.apply (replay d pre) (Write.insOutbox e)).outbox.find? e.id = some r := by
    cases hfind : (replay d pre).outbox.find? e.id with
    | none => exact ⟨e, Table.find?_insert_self (r := e) hfind⟩
    | some r => exact ⟨r, Table.find?_insert_of_some hfind⟩
  obtain ⟨r, hr⟩ := hrow
  obtain ⟨e', he', -⟩ := outbox_kept (post) hr
  exact ⟨e', he'⟩

end events

/-! ## Requests -/

/-- The events a reply hands over. -/
def Reply.events : Reply → List OutboxEvent
  | .dispatched es => es
  | _ => []

section requests

variable {ι : Type}

/-- The events were built one after the other, each when the transaction had
    written, with the reading of the clock then. -/
inductive Stamped (rg : RG ι Database Write Resource) : List OutboxEvent →
    Shared ι Database Write → Tx Write Resource → Shared ι Database Write → Tx Write Resource →
    Prop where
  | nil {ws g tx g' tx'} (h : Progress rg ws g tx g' tx') : Stamped rg [] g tx g' tx'
  | cons {e es ws g tx g₁ tx₁ g' tx'} (h : Progress rg ws g tx g₁ tx₁) (hws : ws ≠ [])
      (hpending : e.status = .PENDING) (hclock : e.createdAt = g₁.clock)
      (hs : Stamped rg es g₁ tx₁ g' tx') : Stamped rg (e :: es) g tx g' tx'

variable {rg : RG ι Database Write Resource} {me : ι} {g g' g₁ : Shared ι Database Write}
  {tx tx' tx₁ : Tx Write Resource} {ws : List Write} {es : List OutboxEvent}

theorem Stamped.after (h : Progress rg ws g tx g₁ tx₁) (hs : Stamped rg es g₁ tx₁ g' tx') :
    Stamped rg es g tx g' tx' := by
  cases hs with
  | nil h' => exact .nil (h.trans h')
  | cons h' hws hpending hclock hs =>
    exact .cons (h.trans h') (by simp [hws]) hpending hclock hs

theorem Stamped.before (hs : Stamped rg es g tx g₁ tx₁) (h : Progress rg ws g₁ tx₁ g' tx') :
    Stamped rg es g tx g' tx' := by
  induction hs with
  | nil h' => exact .nil (h'.trans h)
  | cons h' hws hpending hclock _ ih => exact .cons h' hws hpending hclock (ih h)

theorem Stamped.progress (h : Stamped rg es g tx g' tx') : ∃ ws, Progress rg ws g tx g' tx' := by
  induction h with
  | nil h => exact ⟨_, h⟩
  | cons h _ _ _ _ ih =>
    obtain ⟨ws, hp⟩ := ih
    exact ⟨_, h.trans hp⟩

/-- One call of the engine builds one event. -/
theorem Posted.stamped [Runtime] {tenantId memo : String} {specs : List PostingSpec}
    {c : Option UUID} {pend : List Write} {txn : Transaction} {legs : List Leg}
    {event : OutboxEvent}
    (h : Posted rg tenantId specs memo c pend txn legs event g tx g₁ tx₁)
    (hs : Stamped rg es g₁ tx₁ g' tx') : Stamped rg (event :: es) g tx g' tx' :=
  .cons h.progress (by simp) h.event_pending h.event_created hs

/-- A movement builds the events it adds, and the one it leaves pending. -/
theorem Moved.stamped [Runtime] {tenantId : String} {src dst : Account} {req : TransferRequest}
    {effectiveAt : Time} {o o' : OrmSession} {id : UUID} {event : OutboxEvent}
    (h : Moved rg tenantId src dst req effectiveAt o g tx ws id event o' g' tx') :
    published ws = [] ∧ Stamped rg (enqueued ws ++ [event]) g tx g' tx' := by
  cases h with
  | @direct txn legs _ _ _ hcur hpost =>
    obtain ⟨henqueued, hpublished⟩ := quiet_legWrites legs
    rw [enqueued_insTransaction, published_insTransaction, henqueued]
    exact ⟨hpublished, hpost.stamped (.nil (.refl _ _))⟩
  | @routed _ _ _ _ debit credit legs₁ legs₂ event₁ event₂ _ _ _ _ _ _ _ _ _ _
      hcur hrate hconv h₂ hsrc
      h₃ hdst hdebit hcredit =>
    have hquiet := quiet_legWrites legs₂
    rw [← enqueued_insTransaction credit, ← published_insTransaction credit] at hquiet
    obtain ⟨hevents, hmarks⟩ := events_posting debit legs₁ event₁ _ hquiet
    rw [hevents, hmarks]
    have hprelude := (hrate.progress.trans h₂).trans h₃
    exact ⟨rfl, .after hprelude (hdebit.stamped (hcredit.stamped (.nil (.refl _ _))))⟩

/-- **A request that is no dispatch** only reads, or commits once; whatever it
    does, it hands over no event. -/
theorem swp_request [Runtime] {Q : Ret ι Reply} {E : Raised ι} {r : Request}
    (hr : ∀ t l, r ≠ .dispatch t l) (hE : MayRaise rg E g {})
    (hread : ∀ reply o' g' tx', reply.events = [] → Progress rg [] g {} g' tx' →
      Q reply o' g' tx')
    (hrun : ∀ ws g' tx', Progress rg ws g {} g' tx' → published ws = [] →
      Stamped rg (enqueued ws) g {} g' tx' → rg.allow me tx' g' →
      rg.guar me tx' g' (g'.commit me tx') ∧
        ∀ reply o' g'' tx'', reply.events = [] → Progress rg [] (g'.commit me tx') {} g'' tx'' →
          Q reply o' g'' tx'') :
    swp rg me r.service Q E {} g {} := by
  cases r with
  | dispatch t l => exact absurd rfl (hr t l)
  | openAccount tenantId req =>
    rw [Request.service, swp_map]
    refine swp_openAccount hE fun a g' tx' ha hp hallow => ?_
    obtain ⟨hguar, hQ⟩ := hrun _ g' tx' hp rfl (.nil hp) hallow
    exact ⟨hguar, fun _ _ => hQ _ _ _ _ rfl (.refl _ _)⟩
  | post tenantId specs memo =>
    rw [Request.service, swp_map]
    refine swp_postAndCommit hE fun txn legs event g₁ tx₁ g' tx' posted hp hallow => ?_
    obtain ⟨hevents, hmarks⟩ := events_posting txn legs event [] ⟨rfl, rfl⟩
    -- the event is stamped by the engine and committed at once
    have hs : Stamped rg [event] g {} g' tx' := posted.stamped (.nil hp)
    obtain ⟨hguar, hQ⟩ := hrun _ g' tx' (posted.progress.trans hp) hmarks
      (by rw [List.nil_append, hevents]; exact hs) hallow
    exact ⟨hguar, fun _ => hQ _ _ _ _ rfl (.refl _ _)⟩
  | transfer tenantId req key =>
    rw [Request.service, swp_map]
    refine swp_executeTransfer hE (fun _ _ _ _ _ hp _ _ _ => hread _ _ _ _ rfl hp)
      fun run hallow => ?_
    obtain ⟨hmarks, hs⟩ := run.moved.stamped
    -- between the movement and the commit nothing is stamped
    have hafter := ((run.readSrcAfter.trans run.readDstAfter).trans run.stamped).trans run.finish
    have hwhole : Stamped rg (enqueued run.ws ++ [run.event]) g {} run.g run.tx :=
      (hs.after run.prelude).before hafter
    obtain ⟨hguar, hQ⟩ := hrun _ run.g run.tx run.whole (by rw [published_append, hmarks]; rfl)
      (by rw [enqueued_append]; exact hwhole) hallow
    exact ⟨hguar, hQ _ _ _ _ rfl (.refl _ _)⟩
  -- a placement and a release post nothing
  | placeHold tenantId req key =>
    rw [Request.service, swp_map]
    refine swp_placeHold hE (fun _ _ _ _ _ hp _ _ _ => hread _ _ _ _ rfl hp)
      fun run hallow => ?_
    obtain ⟨hguar, hQ⟩ := hrun _ run.g run.tx run.whole rfl (.nil run.whole) hallow
    exact ⟨hguar, hQ _ _ _ _ rfl (.refl _ _)⟩
  | captureHold tenantId id req =>
    rw [Request.service, swp_map]
    refine swp_captureHold hE
      (fun _ _ _ _ _ _ _ hp _ _ _ hr => hread _ _ _ _ rfl (hp.trans hr.progress))
      fun run hallow => ?_
    obtain ⟨hevents, hmarks⟩ := events_posting run.txn run.legs run.event
      [.captureHold run.hold.id run.txn.id run.amount run.gM.clock] ⟨rfl, rfl⟩
    have hs : Stamped rg [run.event] g {} run.g run.tx :=
      .after (run.read.trans run.prelude)
        (run.posted.stamped (.nil (run.readAfter.progress.trans run.finish)))
    obtain ⟨hguar, hQ⟩ := hrun _ run.g run.tx run.whole hmarks
      (by rw [CaptureRun.ws, hevents]; exact hs)
      hallow
    exact ⟨hguar, hQ _ _ _ _ rfl (.refl _ _)⟩
  | releaseHold tenantId id =>
    rw [Request.service, swp_map]
    refine swp_releaseHold hE
      (fun _ _ _ _ _ _ _ hp _ _ _ hr => hread _ _ _ _ rfl (hp.trans hr.progress))
      fun run hallow => ?_
    obtain ⟨hguar, hQ⟩ := hrun _ run.g run.tx run.whole rfl (.nil run.whole) hallow
    exact ⟨hguar, fun _ _ _ _ hr => hQ _ _ _ _ rfl hr.progress⟩
  | reverse tenantId id req key =>
    rw [Request.service, swp_map]
    refine swp_reverseTransaction hE (fun _ _ _ _ _ hp _ _ _ => hread _ _ _ _ rfl hp)
      fun run hallow => ?_
    obtain ⟨hevents, hmarks⟩ := events_posting run.txn run.legs run.event
      [.insRecord run.stored] ⟨rfl, rfl⟩
    have hprelude := (((run.lookup.trans run.readOriginal).trans run.readExisting).trans
      run.readPostings).trans run.stamp
    have hs : Stamped rg [run.event] g {} run.g run.tx :=
      .after hprelude (run.posted.stamped (.nil (run.stamped.trans run.finish)))
    obtain ⟨hguar, hQ⟩ := hrun _ run.g run.tx run.whole hmarks
      (by rw [ReverseRun.ws, hevents]; exact hs)
      hallow
    exact ⟨hguar, fun _ => hQ _ _ _ _ rfl (.refl _ _)⟩
  | upsertRate tenantId req =>
    rw [Request.service, swp_map]
    refine swp_upsertRate hE fun r g' tx' _ hp hallow => ?_
    obtain ⟨hguar, hQ⟩ := hrun _ g' tx' hp rfl (.nil hp) hallow
    exact ⟨hguar, fun _ => hQ _ _ _ _ rfl (.refl _ _)⟩
  | importStatement tenantId account raw lines =>
    rw [Request.service, swp_map]
    refine swp_importStatement hE (fun _ _ _ _ _ hp _ => hread _ _ _ _ rfl hp)
      fun run hallow => ?_
    -- an import writes to tables of its own
    obtain ⟨hevents, hmarks⟩ := quiet_of_tables (.insImport run.row :: run.rows.map .insLine)
      (by simp [Write.table])
    obtain ⟨hguar, hQ⟩ := hrun _ run.g run.tx run.whole hmarks
      (by rw [hevents]; exact .nil run.whole) hallow
    exact ⟨hguar, fun _ => hQ _ _ _ _ rfl (.refl _ _)⟩
  | sweep minAge =>
    rw [Request.service, swp_map]
    refine swp_sweepOnce hE fun run hallow => ?_
    obtain ⟨hguar, hQ⟩ := hrun _ run.g run.tx run.whole rfl (.nil run.whole) hallow
    exact ⟨hguar, fun _ _ => hQ _ _ _ _ rfl (.refl _ _)⟩

end requests

/-! ## Commits -/

section commits

variable {ι : Type}

/-- What a commit does to the outbox in a run from `d`. -/
structure Ships (d : Database) (tx : Tx Write Resource) (g : Shared ι Database Write) : Prop where
  pending : ∀ e ∈ enqueued tx.log, e.status = .PENDING
  fresh : ∀ e ∈ enqueued tx.log, g.db.outbox.find? e.id = none
  distinct : (enqueued tx.log).Pairwise fun e f => e.id ≠ f.id
  /-- Its events were built after the commits its first statement saw. -/
  since : ∀ e ∈ enqueued tx.log, ∀ c ∈ g.wal.take tx.began, c.time ≤ e.createdAt
  clock : ∀ e ∈ enqueued tx.log, e.createdAt ≤ g.clock
  ordered : (enqueued tx.log).Pairwise fun e f => e.createdAt ≤ f.createdAt
  /-- It marks nothing, or what its first statement selected. -/
  marks : published tx.log = [] ∨ ∃ t limit time, tx.log =
    ((afterCommits d (g.wal.take tx.began)).events t (some .PENDING) limit).map
      fun e => .publish e.id time

/-- Every commit ships. -/
abbrev shipping (allow : OfCommit ι Database Write Resource) (d : Database) :
    RG ι Database Write Resource :=
  .logging allow fun _ => Ships d

variable {allow P : OfCommit ι Database Write Resource} {g g' g₁ : Shared ι Database Write}
  {tx tx' tx₁ : Tx Write Resource} {ws vs : List Write} {es : List OutboxEvent} {d : Database}
  {time : Time}

theorem Stamped.clock_le (h : Stamped (.logging allow P) es g tx g' tx') : g.clock ≤ g'.clock := by
  induction h with
  | nil h => exact h.clock_le
  | cons h _ _ _ _ ih => exact h.clock_le.trans ih

theorem Stamped.pending {rg : RG ι Database Write Resource} (h : Stamped rg es g tx g' tx') :
    ∀ e ∈ es, e.status = .PENDING := by
  induction h with
  | nil h => simp
  | cons _ _ hpending _ _ ih => exact List.forall_mem_cons.mpr ⟨hpending, ih⟩

/-- The events carry readings of the clock, in order. -/
theorem Stamped.ordered (h : Stamped (.logging allow P) es g tx g' tx') :
    (∀ e ∈ es, g.clock ≤ e.createdAt ∧ e.createdAt ≤ g'.clock) ∧
      es.Pairwise fun e f => e.createdAt ≤ f.createdAt := by
  induction h with
  | nil h => simp
  | cons h _ _ hclock hs ih =>
    obtain ⟨hes, hordered⟩ := ih
    rw [List.pairwise_cons, List.forall_mem_cons, hclock]
    refine ⟨⟨⟨h.clock_le, hs.clock_le⟩, ?_⟩, ?_, hordered⟩
    · intro f hf
      exact ⟨h.clock_le.trans (hes f hf).1, (hes f hf).2⟩
    · intro f hf
      exact (hes f hf).1

/-- The events carry later readings than the commits the transaction saw at
    its start. -/
theorem Stamped.since {g₀ : Shared ι Database Write} (hwal : g₀.wal = [])
    (hp : Progress (.logging allow P) vs g₀ {} g tx)
    (h : Stamped (.logging allow P) es g tx g' tx') :
    ∀ e ∈ es, ∀ c ∈ g'.wal.take tx'.began, c.time ≤ e.createdAt := by
  induction h generalizing vs with
  | nil h => simp
  | cons h hws _ hclock hs ih =>
    rw [List.forall_mem_cons]
    refine ⟨fun c hc => ?_, ih (hp.trans h)⟩
    -- the commit was seen before the event was built
    obtain ⟨us, hto⟩ := hs.progress
    have hmem := (hp.trans h).seen (by simp [hws]) hto c hc
    obtain ⟨cs, hlogged, -⟩ := (hp.trans h).rely
    rw [hlogged.wal, hwal, List.nil_append] at hmem
    obtain ⟨c', hc', rfl⟩ := List.mem_map.mp hmem
    rw [hclock]
    exact (hlogged.times c' hc').2

/-- An event is new when it is committed, and no other event of its
    transaction has its id. -/
theorem fresh_events (h : Progress (.logging allow P) ws g {} g' tx') :
    (∀ e ∈ enqueued ws, g'.db.outbox.find? e.id = none) ∧
      (enqueued ws).Pairwise fun e f => e.id ≠ f.id := by
  obtain ⟨hnew, honce⟩ := (fresh_of_progress h).rows (t := .outbox)
    (f := fun | .insOutbox e => some e | _ => none) fun w e he => by cases w <;> cases he; rfl
  exact ⟨fun e he => by simpa [Database.has] using hnew e he, honce⟩

/-- Every request ships, whatever the others do. -/
theorem keeps_ships [Runtime] (me : ι) (r : Request) (d : Database) (clock : Time) :
    Keeps (shipping allow d) me r ⟨d, clock, []⟩ := by
  unfold Keeps
  by_cases hr : ∃ t l, r = .dispatch t l
  · obtain ⟨t, l, rfl⟩ := hr
    rw [Request.service, swp_map]
    refine swp_dispatchPending (mayRaise_trivial _ _) (fun _ _ _ _ => trivial)
      fun g₁ tx₁ time g' tx' hselect began hfinish _ => ⟨⟨?_, ?_⟩, fun _ => trivial⟩
    · have hlog := (hselect.trans hfinish).log
      simp only [List.nil_append] at hlog
      obtain ⟨cs, hlogged, -⟩ := hselect.rely
      obtain ⟨ds, hlater, -⟩ := hfinish.rely
      -- the selection is of the database the first statement saw
      have hbegan : tx'.began = g₁.wal.length := by
        have hstart : tx₁.start = some g₁.clock := by rw [began]; rfl
        rw [(hfinish.start _ hstart).2, began]
        rfl
      have htake : g'.wal.take tx'.began = g₁.wal := by
        rw [hlater.wal, hbegan, List.take_left]
      have hdb : g₁.db = afterCommits d g₁.wal := by
        rw [hlogged.db, hlogged.wal]
        rfl
      have hnone : enqueued tx'.log = [] := by rw [hlog, enqueued_publish]
      refine ⟨?_, ?_, ?_, ?_, ?_, ?_, .inr ⟨t, l.toNat, time, ?_⟩⟩
      all_goals first | simp [hnone] | rw [hlog, htake, ← hdb]
    · exact (hselect.trans hfinish).locked
  · have hr : ∀ t l, r ≠ .dispatch t l := fun t l heq => hr ⟨t, l, heq⟩
    refine swp_request hr (mayRaise_trivial _ _) (fun _ _ _ _ _ _ => trivial)
      fun ws g' tx' hp hmarks hs _ => ⟨⟨?_, hp.locked⟩, fun _ _ _ _ _ _ => trivial⟩
    have hlog : tx'.log = ws := by simpa using hp.log
    obtain ⟨hbounds, hordered⟩ := hs.ordered
    obtain ⟨hfresh, hdistinct⟩ := fresh_events hp
    rw [← hlog] at hs hmarks hbounds hordered hfresh hdistinct
    exact ⟨hs.pending, hfresh, hdistinct, hs.since rfl (.refl _ _), fun e he => (hbounds e he).2,
      hordered, .inl hmarks⟩

/-- **Every commit** of every run that takes it into account ships. -/
theorem ships_of_traced [Runtime] [DecidableEq ι] {requests : ι → Request} {clock : Time}
    {s : Sys ι Database Write Resource Err Reply} {cs : List (Commit ι Write Resource)}
    (h : Traced allow Sys.publishing (serve requests d clock) s cs) :
    Logged (fun i tx g => allow i tx g ∧ Ships d tx g) ⟨d, clock, []⟩ cs s.shared := by
  have hinit : (serve requests d clock).Initial := ⟨rfl, fun _ => rfl⟩
  have hv : Verified (shipping allow d) (serve requests d clock) :=
    .initial hinit fun i => wp_program (P := fun _ _ _ => True)
      (keeps_ships i (requests i) d clock)
  exact h.logged hv

/-- The events a history marks as published. -/
def marked (wal : List (Entry ι Write)) : List UUID := published (wal.flatMap Entry.writes)

theorem mem_marked {wal : List (Entry ι Write)} {x : UUID} :
    x ∈ marked wal ↔ ∃ c ∈ wal, x ∈ published c.writes := by
  simp only [marked, published, List.mem_filterMap, List.mem_flatMap]
  constructor
  · rintro ⟨w, ⟨c, hc, hw⟩, hx⟩
    exact ⟨c, hc, w, hw, hx⟩
  · rintro ⟨c, hc, w, hw, hx⟩
    exact ⟨w, ⟨c, hc, hw⟩, hx⟩

theorem mem_enqueued_flatMap {wal : List (Entry ι Write)} {e : OutboxEvent} :
    e ∈ enqueued (wal.flatMap Entry.writes) ↔ ∃ c ∈ wal, e ∈ enqueued c.writes := by
  simp only [mem_enqueued, List.mem_flatMap]

@[simp] theorem marked_append (wal es : List (Entry ι Write)) :
    marked (wal ++ es) = marked wal ++ marked es := by
  simp [marked]

variable {clock : Time} {cs : List (Commit ι Write Resource)} {x : UUID} {e : OutboxEvent}

/-- A row that is published was so at the start, or is marked. -/
theorem marked_of_published (h : Logged (fun _ => Ships d) ⟨d, clock, []⟩ cs g)
    (he : e ∈ g.db.outbox.rows) (hs : e.status = .PUBLISHED) :
    (∃ e₀, d.outbox.find? e.id = some e₀ ∧ e₀.status = .PUBLISHED) ∨ e.id ∈ marked g.wal := by
  by_cases hx : e.id ∈ marked g.wal
  · exact .inr hx
  · have hdb : g.db = replay d (g.wal.flatMap Entry.writes) := by
      rw [h.db, h.wal]
      rfl
    have hrow : (replay d (g.wal.flatMap Entry.writes)).outbox.find? e.id = some e :=
      hdb ▸ Table.find?_of_mem he
    cases hfind : d.outbox.find? e.id with
    | some e₀ =>
      obtain ⟨e', he', -, -, hsame⟩ := outbox_kept (g.wal.flatMap Entry.writes) hfind
      rw [hrow] at he'
      cases he'
      exact .inl ⟨e₀, rfl, hsame hx ▸ hs⟩
    | none =>
      -- it was added in the run, and pending
      obtain ⟨e', he', -, -, hsame⟩ := outbox_new hfind hrow
      obtain ⟨c, hc, hec⟩ := mem_enqueued_flatMap.mp he'
      rw [h.wal, List.nil_append] at hc
      obtain ⟨c', hc', rfl⟩ := List.mem_map.mp hc
      obtain ⟨cs₁, cs₂, hcs⟩ := List.append_of_mem hc'
      have hpending := (h.each cs₁ c' cs₂ hcs).pending e' hec
      rw [hsame hx, hpending] at hs
      cases hs

/-- What a commit marks, its first statement had selected. -/
theorem Ships.selected (h : Ships d tx g) (hx : x ∈ published tx.log) : ∃ t limit,
    published tx.log = ((afterCommits d (g.wal.take tx.began)).events t (some .PENDING) limit).map
      OutboxEvent.id ∧
    ∃ y ∈ (afterCommits d (g.wal.take tx.began)).events t (some .PENDING) limit, y.id = x := by
  rcases h.marks with hnone | ⟨t, limit, time, hlog⟩
  · rw [hnone] at hx
    cases hx
  · have hmarks : published tx.log =
        ((afterCommits d (g.wal.take tx.began)).events t (some .PENDING) limit).map
          OutboxEvent.id := by
      rw [hlog, published_publish]
    rw [hmarks] at hx
    obtain ⟨y, hy, hyx⟩ := List.mem_map.mp hx
    exact ⟨t, limit, hmarks, y, hy, hyx⟩

/-- An event that is marked was not published at the start, and is now. -/
theorem published_of_marked (h : Logged (fun _ => Ships d) ⟨d, clock, []⟩ cs g)
    (hx : x ∈ marked g.wal) :
    (∀ e₀, d.outbox.find? x = some e₀ → e₀.status ≠ .PUBLISHED) ∧
      ∃ e, g.db.outbox.find? x = some e ∧ e.status = .PUBLISHED := by
  obtain ⟨c, hc, hxc⟩ := mem_marked.mp hx
  rw [h.wal, List.nil_append] at hc
  obtain ⟨c', hc', rfl⟩ := List.mem_map.mp hc
  obtain ⟨cs₁, cs₂, hcs⟩ := List.append_of_mem hc'
  obtain ⟨t, limit, -, y, hy, rfl⟩ := (h.each cs₁ c' cs₂ hcs).selected hxc
  simp only [List.nil_append] at hy
  obtain ⟨hrow, -, hpending⟩ := mem_events hy
  have hfind := Table.find?_of_mem hrow
  constructor
  · -- it was pending when it was selected
    intro e₀ he₀ hs
    obtain ⟨e', he', hlater, -⟩ :=
      outbox_kept (((cs₁.map Commit.entry).take c'.tx.began).flatMap Entry.writes) he₀
    rw [afterCommits, key_outbox, he'] at hfind
    cases hfind
    have hpublished := hlater.status hs
    rw [hpending _ rfl] at hpublished
    cases hpublished
  · have hsplit : cs.map Commit.entry = (cs₁.map Commit.entry).take c'.tx.began ++
        ((cs₁.map Commit.entry).drop c'.tx.began ++ c'.entry :: cs₂.map Commit.entry) := by
      rw [← List.append_assoc, List.take_append_drop, hcs]
      simp
    obtain ⟨e', he', -, hmarked, -⟩ := outbox_kept (((cs₁.map Commit.entry).drop c'.tx.began ++
      c'.entry :: cs₂.map Commit.entry).flatMap Entry.writes) hfind
    have hdb : g.db = replay (afterCommits d ((cs₁.map Commit.entry).take c'.tx.began))
        (((cs₁.map Commit.entry).drop c'.tx.began ++
          c'.entry :: cs₂.map Commit.entry).flatMap Entry.writes) := by
      rw [h.db, hsplit, afterCommits_append]
      rfl
    refine ⟨e', hdb ▸ he', hmarked ?_⟩
    exact mem_marked.mpr ⟨c'.entry, by simp, hxc⟩

end commits

/-! ## Replies -/

section replies

variable {ι : Type} [DecidableEq ι]

/-- The events a session has marked as published. -/
def publishedBy (i : ι) (wal : List (Entry ι Write)) : List UUID :=
  published ((wal.filter fun e => e.who = i).flatMap Entry.writes)

/-- The reply hands over the events its session has marked. -/
def Handed : Result ι Write Reply :=
  fun i wal reply => reply.events.map OutboxEvent.id = publishedBy i wal

theorem publishedBy_others {i : ι} {wal es : List (Entry ι Write)} (h : ∀ e ∈ es, e.who ≠ i) :
    publishedBy i (wal ++ es) = publishedBy i wal := by
  have hnone : es.filter (fun e => e.who = i) = [] := by simpa using h
  simp [publishedBy, hnone]

theorem handed_own : (Handed : Result ι Write Reply).Own := by
  intro i wal es reply h hes
  unfold Handed
  rw [publishedBy_others hes]
  exact h

/-- Alone against any others, a request hands over what it marks. -/
theorem wp_handed [Runtime] (i : ι) (r : Request) (d : Database) (clock : Time) :
    wp (.others i) i r.program (Result.post Handed i) ⟨d, clock, []⟩ {} := by
  apply wp_program
  have hraise : MayRaise (.others i) (fun e (g : Shared ι Database Write) tx =>
      Result.post Handed i (.error e) g tx) ⟨d, clock, []⟩ {} := fun _ _ _ _ _ => trivial
  have hothers : ∀ {ws : List Write} {g g' : Shared ι Database Write} {tx tx' : Tx Write Resource},
      Progress (.others i) ws g tx g' tx' → publishedBy i g'.wal = publishedBy i g.wal := by
    intro ws g g' tx tx' hp
    obtain ⟨es, hwal, hes⟩ := hp.rely
    rw [hwal, publishedBy_others hes]
  have hcommit : ∀ (g : Shared ι Database Write) (tx : Tx Write Resource),
      publishedBy i (g.commit i tx).wal = publishedBy i g.wal ++ published tx.log := by
    intro g tx
    simp [publishedBy, Shared.commit]
  by_cases hr : ∃ t l, r = .dispatch t l
  · obtain ⟨t, l, rfl⟩ := hr
    rw [Request.service, swp_map]
    refine swp_dispatchPending hraise (fun o' g' tx' hp => (hothers hp).symm)
      fun g₁ tx₁ time g' tx' hselect _ hfinish _ => ⟨trivial, fun _ => ?_⟩
    have hlog := (hselect.trans hfinish).log
    simp only [List.nil_append] at hlog
    show _ = publishedBy i (g'.commit i tx').wal
    rw [hcommit, hothers (hselect.trans hfinish), hlog, published_publish]
    simp [Reply.events, publishedBy, Function.comp_def, OutboxEvent.publish]
  · have hr : ∀ t l, r ≠ .dispatch t l := fun t l heq => hr ⟨t, l, heq⟩
    refine swp_request hr hraise (fun reply o' g' tx' hreply hp => ?_)
      fun ws g' tx' hp hmarks _ _ => ⟨trivial, fun reply o' g'' tx'' hreply hp' => ?_⟩
    · show Handed i g'.wal reply
      unfold Handed
      rw [hreply, hothers hp]
      rfl
    · have hlog : tx'.log = ws := by simpa using hp.log
      show Handed i g''.wal reply
      unfold Handed
      rw [hreply, hothers hp', hcommit, hothers hp, hlog, hmarks]
      rfl

/-- **Every reply** of every run hands over what its session has marked. -/
theorem handed_of_reachable [Runtime] {allow : OfCommit ι Database Write Resource}
    {requests : ι → Request} {d : Database} {clock : Time}
    {s : Sys ι Database Write Resource Err Reply}
    (h : Sys.Reachable allow (serve requests d clock) s) {i : ι} {reply : Reply}
    (hret : (s.sess i).prog = .ret reply) : Handed i s.shared.wal reply :=
  handed_own.returned (fun i => wp_handed i (requests i) d clock) h hret

end replies

end Ledger
