import Ledger.Properties.DeliveryOrder
import Ledger.Runs.Alone

/-! # Batches of Events

    A relay takes the events of a tenant in batches.  Requests run one after
    another here, so every batch is marked before the next one is taken.

    * **Batch**: `Database.pending`, what a dispatch takes from, and
      `executed_dispatch`, what it hands back and leaves.
    * **Run**: `Relayed`, dispatches, other requests and new events in any
      order, from any outbox.
    * **Result**: `batches_partition`, from one invariant of the run.
-/

namespace Ledger

open ReadCommitted

/-! ## One Dispatch -/

/-- The tenant's pending events, in the order of delivery. -/
def Database.pending (d : Database) (tenantId : String) : List OutboxEvent :=
  (d.outbox.rows.filter fun e => e.tenantId = tenantId && e.status = .PENDING).insertionSort
    OutboxEvent.before

/-- The writes that mark a batch. -/
def marks (time : Time) (batch : List OutboxEvent) : List Write :=
  batch.map fun e => .publish e.id time

/-- The events of a batch as they are handed back. -/
def handed (time : Time) (batch : List OutboxEvent) : List OutboxEvent :=
  batch.map fun e => e.publish time

section dispatch

variable {env : Env} {d : Database} {tenantId : String} {time : Time} {e : OutboxEvent}

theorem mem_pending : e ∈ d.pending tenantId ↔
    e ∈ d.outbox.rows ∧ e.tenantId = tenantId ∧ e.status = .PENDING := by
  unfold Database.pending
  rw [List.mem_insertionSort, List.mem_filter, Bool.and_eq_true, decide_eq_true_eq,
    decide_eq_true_eq]

theorem events_pending (d : Database) (tenantId : String) (limit : Nat) :
    d.events tenantId (some .PENDING) limit = (d.pending tenantId).take limit := by
  unfold Database.events Database.pending
  simp

theorem pending_sorted (d : Database) (tenantId : String) :
    (d.pending tenantId).Pairwise OutboxEvent.before :=
  List.pairwise_insertionSort _ _

theorem pending_nodup (d : Database) (tenantId : String) :
    ((d.pending tenantId).map OutboxEvent.id).Nodup := by
  have hperm := List.perm_insertionSort OutboxEvent.before
    (d.outbox.rows.filter fun e => e.tenantId = tenantId && e.status = .PENDING)
  exact (hperm.map OutboxEvent.id).nodup_iff.mpr
    (d.outbox.nodup.sublist (List.filter_sublist.map OutboxEvent.id))

theorem admitted_marks (batch : List OutboxEvent) (d : Database) :
    Admitted d (marks time batch) := by
  induction batch generalizing d with
  | nil => exact admitted_nil d
  | cons e es ih => exact admitted_cons.mpr ⟨rfl, ih _⟩

/-- The updates wait in the session. -/
theorem returns_markPublished (env : Env) (time : Time) (batch : List OutboxEvent) (p : Point) :
    Svc.Returns env (markPublished time batch) p ()
      { p with orm := { p.orm with pending := p.orm.pending ++ marks time batch } } := by
  induction batch generalizing p with
  | nil =>
    show Svc.Returns env (pure ()) p () _
    simp only [marks, List.map_nil, List.append_nil]
    exact Svc.returns_pure () p
  | cons e es ih =>
    rw [markPublished]
    refine (Svc.returns_add _ p).bind ?_
    have hrest := ih
      { p with orm := { p.orm with pending := p.orm.pending ++ [.publish e.id time] } }
    rw [List.append_assoc] at hrest
    exact hrest

/-- **One dispatch**: it hands back the first pending events and marks them. -/
theorem executed_dispatch [Runtime] (env : Env) (d : Database) (tenantId : String) {limit : Int}
    (hlimit : 0 ≤ limit) : ∃ time, (Request.dispatch tenantId limit).executed env d =
      (.ok (.dispatched (handed time ((d.pending tenantId).take limit.toNat))),
        replay d (marks time ((d.pending tenantId).take limit.toNat))) := by
  generalize hbatch : (d.pending tenantId).take limit.toNat = batch
  let p : Point := { db := d }
  have hselect : Svc.Returns env (listEvents tenantId (some .PENDING) limit) p batch
      (p.read env) := by
    unfold listEvents
    rw [if_neg (not_lt.mpr hlimit), ← hbatch, ← events_pending]
    exact Svc.returns_select _ p
  let q : Point := (p.read env).next
  generalize htime : env.clock (p.read env).node = time
  have hnow : Svc.Returns env Svc.now (p.read env) time q := htime ▸ Svc.returns_now _
  have hmark := returns_markPublished env time batch q
  obtain ⟨r, hend, hdb⟩ : ∃ r, Svc.Returns env (dispatchPending tenantId limit) p
      (handed time batch) r ∧ r.db = replay d (marks time batch) := by
    by_cases hnone : batch = []
    · -- nothing is pending, and nothing is committed
      subst hnone
      exact ⟨_, hselect.bind (hnow.bind (hmark.bind (Svc.returns_pure [] _))), rfl⟩
    · obtain ⟨r, hcommit, hdb⟩ := (commit_alone _).1 (admitted_marks batch (Point.view { q with
        orm := { q.orm with pending := q.orm.pending ++ marks time batch } }))
      refine ⟨r, hselect.bind (hnow.bind (hmark.bind ?_)), hdb⟩
      rw [if_neg hnone]
      exact hcommit.bind (Svc.returns_pure _ _)
  have hservice : Svc.Returns env (Request.dispatch tenantId limit).service { db := d }
      (.dispatched (handed time batch)) r :=
    Svc.Returns.bind (f := fun es => pure (Reply.dispatched es)) hend (Svc.returns_pure _ r)
  exact ⟨time, by rw [executed_returns hservice, hdb]⟩

/-- The rows after a batch is marked. -/
theorem rows_marks (batch : List OutboxEvent) (d : Database) :
    (replay d (marks time batch)).outbox.rows =
      d.outbox.rows.map fun e => if e.id ∈ batch.map OutboxEvent.id then e.publish time else e := by
  induction batch generalizing d with
  | nil => simp [marks]
  | cons b bs ih =>
    show (replay (d.apply (.publish b.id time)) (marks time bs)).outbox.rows = _
    rw [ih]
    have hrows : (d.apply (.publish b.id time)).outbox.rows =
        d.outbox.rows.map fun e => if e.id = b.id then e.publish time else e := rfl
    rw [hrows, List.map_map]
    apply List.map_congr_left
    intro e _
    show (if _ then _ else _) = _
    by_cases hb : e.id = b.id
    · -- marking it twice is marking it once
      simp only [hb, if_true, List.map_cons, List.mem_cons, true_or]
      split <;> rfl
    · simp [hb]

/-- One event after a batch is marked. -/
theorem find?_marks (batch : List OutboxEvent) (d : Database) (x : UUID) :
    (replay d (marks time batch)).outbox.find? x = (d.outbox.find? x).map fun e =>
      if x ∈ batch.map OutboxEvent.id then e.publish time else e := by
  induction batch generalizing d with
  | nil => simp [marks]
  | cons b bs ih =>
    show (replay (d.apply (.publish b.id time)) (marks time bs)).outbox.find? x = _
    rw [ih]
    show ((d.outbox.modify b.id (fun e => e.publish time) (OutboxEvent.key_publish time)).find?
      x).map _ = _
    rw [Table.find?_modify]
    cases d.outbox.find? x with
    | none => simp
    | some e =>
      by_cases hb : x = b.id
      · simp only [hb, if_true, Option.map_some, List.map_cons, List.mem_cons, true_or]
        split <;> rfl
      · simp [hb]

/-- What is not in the batch waits on. -/
theorem pending_marks (d : Database) (tenantId : String) (n : Nat) :
    (replay d (marks time ((d.pending tenantId).take n))).pending tenantId =
      (d.pending tenantId).drop n := by
  rw [← Sorting.filter_notMem_take (pending_nodup d tenantId) n]
  generalize ((d.pending tenantId).take n) = batch
  unfold Database.pending
  rw [Sorting.filter_insertionSort, List.filter_filter, rows_marks]
  congr 1
  induction d.outbox.rows with
  | nil => rfl
  | cons e es ih =>
    rw [List.map_cons, List.filter_cons, List.filter_cons, ih]
    by_cases he : e.id ∈ batch.map OutboxEvent.id
    · simp [he, OutboxEvent.publish]
    · simp [he]

/-- The event, whenever it was published. -/
def OutboxEvent.unstamped (e : OutboxEvent) : OutboxEvent := { e with publishedAt := none }

/-- What is handed back does not depend on the time but for the stamps. -/
theorem unstamped_handed (time time' : Time) (batch : List OutboxEvent) :
    (handed time batch).map OutboxEvent.unstamped =
      (handed time' batch).map OutboxEvent.unstamped := by
  simp only [handed, List.map_map]
  rfl

/-- **Two batches make one**, whenever they are taken: the same events in the
    same order, and the same rows but for the stamps. -/
theorem batch_split [Runtime] (d : Database) (tenantId : String) {n m : Int} (hn : 0 ≤ n)
    (hm : 0 ≤ m) (env₁ env₂ env₃ : Env) : ∃ es₁ es₂ es d₁ d₂ d₃,
      (Request.dispatch tenantId n).executed env₁ d = (.ok (.dispatched es₁), d₁) ∧
      (Request.dispatch tenantId m).executed env₂ d₁ = (.ok (.dispatched es₂), d₂) ∧
      (Request.dispatch tenantId (n + m)).executed env₃ d = (.ok (.dispatched es), d₃) ∧
      (es₁ ++ es₂).map OutboxEvent.unstamped = es.map OutboxEvent.unstamped ∧
      d₂.outbox.rows.map OutboxEvent.unstamped = d₃.outbox.rows.map OutboxEvent.unstamped := by
  obtain ⟨t₁, h₁⟩ := executed_dispatch env₁ d tenantId hn
  obtain ⟨t₂, h₂⟩ := executed_dispatch env₂
    (replay d (marks t₁ ((d.pending tenantId).take n.toNat))) tenantId hm
  obtain ⟨t₃, h₃⟩ := executed_dispatch env₃ d tenantId (add_nonneg hn hm)
  rw [pending_marks] at h₂
  have hsum : (n + m).toNat = n.toNat + m.toNat := Int.toNat_add hn hm
  rw [hsum, List.take_add] at h₃
  generalize (d.pending tenantId).take n.toNat = first at h₁ h₂ h₃
  generalize ((d.pending tenantId).drop n.toNat).take m.toNat = second at h₂ h₃
  refine ⟨_, _, _, _, _, _, h₁, h₂, h₃, ?_, ?_⟩
  · rw [List.map_append, unstamped_handed t₁ t₃, unstamped_handed t₂ t₃, ← List.map_append]
    unfold handed
    rw [← List.map_append]
  · rw [rows_marks, rows_marks, rows_marks, List.map_map, List.map_map, List.map_map]
    apply List.map_congr_left
    intro e _
    simp only [Function.comp_apply, List.map_append, List.mem_append]
    by_cases hfirst : e.id ∈ first.map OutboxEvent.id
    · have hid : (e.publish t₁).id = e.id := rfl
      simp only [hfirst, if_true, true_or, hid]
      split <;> rfl
    · simp only [hfirst, if_false, false_or]
      split <;> rfl

end dispatch

/-! ## Runs -/

/-- A batch that was handed back, with what its dispatch was asked for. -/
structure Batch where
  tenantId : String
  limit : Int
  events : List OutboxEvent

/-- What the dispatches have handed back so far. -/
def returned (bs : List Batch) : List OutboxEvent := bs.flatMap Batch.events

/-- The event is in the outbox, and published. -/
def Database.Published (d : Database) (x : UUID) : Prop :=
  ∃ e, d.outbox.find? x = some e ∧ e.status = .PUBLISHED

/-- A sequential run from an outbox `d₀`, with the batches it has handed back. -/
inductive Relayed [Runtime] (d₀ : Database) : List Batch → Database → Prop where
  | start : Relayed d₀ [] d₀
  /-- A transaction commits an event, whenever it was created. -/
  | event {bs d} (e : OutboxEvent) (h : Relayed d₀ bs d) (hpending : e.status = .PENDING)
      (hnew : d.outbox.find? e.id = none) : Relayed d₀ bs (d.apply (.insOutbox e))
  /-- Another request runs, with the events it commits. -/
  | request {bs d} (r : Request) (env : Env) (h : Relayed d₀ bs d)
      (hr : ∀ t l, r ≠ .dispatch t l) : Relayed d₀ bs (r.executed env d).2
  | dispatch {bs d} (tenantId : String) (limit : Int) (env : Env) (es : List OutboxEvent)
      (h : Relayed d₀ bs d)
      (hlimit : 0 ≤ limit)
      (hrun : ((Request.dispatch tenantId limit).executed env d).1 = .ok (.dispatched es)) :
      Relayed d₀ (bs ++ [⟨tenantId, limit, es⟩])
        ((Request.dispatch tenantId limit).executed env d).2

/-- What a run keeps. -/
structure Batched (d₀ : Database) (bs : List Batch) (d : Database) : Prop where
  once : ((returned bs).map OutboxEvent.id).Nodup
  own : ∀ b ∈ bs, ∀ e ∈ b.events, e.tenantId = b.tenantId
  /-- An event that was handed back is published, and stays as it is. -/
  row : ∀ e ∈ returned bs, d.outbox.find? e.id = some e ∧ e.status = .PUBLISHED
  /-- It was not published before the run. -/
  new : ∀ e ∈ returned bs, ¬ d₀.Published e.id
  kept : ∀ x, d₀.Published x → d.Published x
  /-- Nothing else is published. -/
  only : ∀ x, d.Published x → x ∈ (returned bs).map OutboxEvent.id ∨ d₀.Published x

section runs

variable {d₀ d d' : Database} {bs : List Batch} {ws : List Write} {tenantId : String} {limit : Int}
  {time : Time} {es : List OutboxEvent}

theorem returned_append (b : Batch) : returned (bs ++ [b]) = returned bs ++ b.events := by
  simp [returned]

theorem Batched.start (d₀ : Database) : Batched d₀ [] d₀ where
  once := .nil
  own := by simp
  row := by simp [returned]
  new := by simp [returned]
  kept _ h := h
  only _ h := .inr h

/-- **New events** are pending, and change nothing else. -/
theorem Batched.enqueue (h : Batched d₀ bs d) (hmarks : published ws = [])
    (hpending : ∀ e ∈ enqueued ws, e.status = .PENDING) : Batched d₀ bs (replay d ws) := by
  have hkept : ∀ {x e}, d.outbox.find? x = some e → (replay d ws).outbox.find? x = some e := by
    intro x e he
    obtain ⟨e', he', -, -, hsame⟩ := outbox_kept ws he
    rw [he', hsame (by simp [hmarks])]
  refine ⟨h.once, h.own, ?_, h.new, ?_, ?_⟩
  · intro e he
    obtain ⟨hrow, hs⟩ := h.row e he
    exact ⟨hkept hrow, hs⟩
  · intro x hx
    obtain ⟨e, he, hs⟩ := h.kept x hx
    exact ⟨e, hkept he, hs⟩
  · rintro x ⟨e, he, hs⟩
    cases hold : d.outbox.find? x with
    | some e₀ =>
      rw [hkept hold] at he
      cases he
      exact h.only x ⟨e, hold, hs⟩
    | none =>
      obtain ⟨e', he', -, -, hsame⟩ := outbox_new hold he
      rw [hsame (by simp [hmarks]), hpending e' he'] at hs
      cases hs

/-- Another request commits pending events, and marks none. -/
theorem executed_enqueues [Runtime] (r : Request) (hr : ∀ t l, r ≠ .dispatch t l) (env : Env)
    (d : Database) : ∃ ws, (r.executed env d).2 = replay d ws ∧ published ws = [] ∧
      ∀ e ∈ enqueued ws, e.status = .PENDING := by
  refine executed_of_swp r env d (P := fun _ d' => ∃ ws, d' = replay d ws ∧ published ws = [] ∧
    ∀ e ∈ enqueued ws, e.status = .PENDING) fun g hg hnow => ?_
  subst hg
  have hnone : ∀ {vs : List Write} {g' : Shared Unit Database Write} {tx' : Tx Write Resource},
      Progress (alone env) vs g {} g' tx' → ∃ ws, g'.db = replay g.db ws ∧ published ws = [] ∧
        ∀ e ∈ enqueued ws, e.status = .PENDING :=
    fun hp => ⟨[], hp.rely.1, rfl, by simp [enqueued]⟩
  refine swp_request hr (fun _ _ _ _ hp => hnone hp) (fun _ _ _ _ _ hp => hnone hp)
    fun ws g' tx' hp hmarks hs _ => ⟨trivial, fun reply o' g'' tx'' _ hp' =>
      ⟨ws, ?_, hmarks, hs.pending⟩⟩
  have hdb : g'.db = g.db := hp.rely.1
  have hlog : tx'.log = ws := by simpa using hp.log
  have hcommit : g''.db = (g'.commit () tx').db := hp'.rely.1
  rw [hcommit]
  show replay g'.db tx'.log = _
  rw [hdb, hlog]

theorem handed_ids (time : Time) (batch : List OutboxEvent) :
    (handed time batch).map OutboxEvent.id = batch.map OutboxEvent.id := by
  simp [handed, Function.comp_def, OutboxEvent.publish]

/-- What is pending is not published. -/
theorem unpublished_of_pending {e : OutboxEvent} (he : e ∈ d.pending tenantId) :
    ¬ d.Published e.id := by
  obtain ⟨hrow, -, hwaiting⟩ := mem_pending.mp he
  have hfind : d.outbox.find? e.id = some e := Table.find?_of_mem hrow
  rintro ⟨e', he', hs⟩
  rw [hfind] at he'
  cases he'
  rw [hwaiting] at hs
  cases hs

/-- Marking a batch publishes it, and takes back nothing. -/
theorem published_marks {batch : List OutboxEvent} (hsub : batch ⊆ d.pending tenantId) {x : UUID} :
    (replay d (marks time batch)).Published x ↔
      x ∈ batch.map OutboxEvent.id ∨ d.Published x := by
  constructor
  · rintro ⟨e, he, hs⟩
    rw [find?_marks] at he
    by_cases hx : x ∈ batch.map OutboxEvent.id
    · exact .inl hx
    · simp only [hx, if_false, Option.map_id'] at he
      exact .inr ⟨e, he, hs⟩
  · rintro (hx | ⟨e, he, hs⟩)
    · obtain ⟨e, he, rfl⟩ := List.mem_map.mp hx
      have hfind : d.outbox.find? e.id = some e := Table.find?_of_mem (mem_pending.mp (hsub he)).1
      exact ⟨e.publish time, by rw [find?_marks, hfind, Option.map_some, if_pos hx], rfl⟩
    · refine ⟨_, by rw [find?_marks, he]; rfl, ?_⟩
      split_ifs
      · rfl
      · exact hs

/-- **A batch** is of events that were not handed back before. -/
theorem Batched.dispatch (h : Batched d₀ bs d) (time : Time) {batch : List OutboxEvent}
    (hsub : batch.Sublist (d.pending tenantId)) :
    Batched d₀ (bs ++ [⟨tenantId, limit, handed time batch⟩]) (replay d (marks time batch)) where
  once := by
    rw [returned_append, List.map_append, handed_ids, List.nodup_append]
    refine ⟨h.once, (pending_nodup d tenantId).sublist (hsub.map OutboxEvent.id), ?_⟩
    intro x hx y hy hxy
    subst hxy
    -- what was handed back is published, and the batch was pending
    obtain ⟨e, he, rfl⟩ := List.mem_map.mp hx
    obtain ⟨e', he', hid⟩ := List.mem_map.mp hy
    exact unpublished_of_pending (hsub.subset he') ⟨e, hid ▸ h.row e he⟩
  own := by
    intro b hb e he
    rcases List.mem_append.mp hb with hb | hb
    · exact h.own b hb e he
    · rw [List.mem_singleton] at hb
      subst hb
      obtain ⟨e', he', rfl⟩ := List.mem_map.mp he
      exact (mem_pending.mp (hsub.subset he')).2.1
  row := by
    intro e he
    rw [returned_append] at he
    rcases List.mem_append.mp he with he | he
    · -- it is not in the batch, so its row stays
      obtain ⟨hrow, hs⟩ := h.row e he
      have hout : e.id ∉ batch.map OutboxEvent.id := by
        intro hx
        obtain ⟨e', he', hid⟩ := List.mem_map.mp hx
        exact unpublished_of_pending (hsub.subset he') ⟨e, hid ▸ hrow, hs⟩
      exact ⟨by rw [find?_marks, hrow, Option.map_some, if_neg hout], hs⟩
    · obtain ⟨e', he', rfl⟩ := List.mem_map.mp he
      have hfind : d.outbox.find? e'.id = some e' :=
        Table.find?_of_mem (mem_pending.mp (hsub.subset he')).1
      have hin : e'.id ∈ batch.map OutboxEvent.id := List.mem_map_of_mem he'
      refine ⟨?_, rfl⟩
      show (replay d (marks time batch)).outbox.find? e'.id = _
      rw [find?_marks, hfind, Option.map_some, if_pos hin]
  new := by
    intro e he
    rw [returned_append] at he
    rcases List.mem_append.mp he with he | he
    · exact h.new e he
    · obtain ⟨e', he', rfl⟩ := List.mem_map.mp he
      exact fun hbefore => unpublished_of_pending (hsub.subset he') (h.kept e'.id hbefore)
  kept := fun x hx => (published_marks hsub.subset).mpr (.inr (h.kept x hx))
  only := by
    intro x hx
    rw [returned_append, List.map_append, handed_ids, List.mem_append]
    rcases (published_marks hsub.subset).mp hx with hin | hbefore
    · exact .inl (.inr hin)
    · rcases h.only x hbefore with hbefore | hbefore
      · exact .inl (.inl hbefore)
      · exact .inr hbefore

/-- **Run lemma.** -/
theorem Relayed.batched [Runtime] (h : Relayed d₀ bs d) : Batched d₀ bs d := by
  induction h with
  | start => exact .start d₀
  | event e h hpending hnew ih =>
    have hone : ∀ e' ∈ enqueued [.insOutbox e], e'.status = .PENDING := by
      intro e' he'
      obtain rfl : e' = e := by simpa [enqueued] using he'
      exact hpending
    exact ih.enqueue rfl hone
  | request r env h hr ih =>
    obtain ⟨ws, hdb, hmarks, hpending⟩ := executed_enqueues r hr env _
    rw [hdb]
    exact ih.enqueue hmarks hpending
  | @dispatch _ d tenantId limit env es h hlimit hrun ih =>
    obtain ⟨time, hdispatch⟩ := executed_dispatch env d tenantId hlimit
    rw [hdispatch] at hrun ⊢
    simp only [Except.ok.injEq, Reply.dispatched.injEq] at hrun
    subst hrun
    exact ih.dispatch time (List.take_sublist _ _)

/-- **Batches** neither skip nor repeat an event, in every run from any outbox:

    * what was handed back was handed back once, to its own tenant, and with
      what is pending it makes up the outbox, but for what the run found
      published;
    * the next dispatch hands back the first of the tenant's pending events,
      as many as it was asked for;
    * two dispatches in turn hand back what one of both limits would have. -/
theorem batches_partition [Runtime] (h : Relayed d₀ bs d) :
    (((returned bs).map OutboxEvent.id).Nodup ∧
      (∀ b ∈ bs, ∀ e ∈ b.events, e.tenantId = b.tenantId) ∧
      (∀ e ∈ returned bs, e ∈ d.outbox.rows ∧ ¬ d₀.Published e.id) ∧
      ∀ e ∈ d.outbox.rows, e.status = .PENDING ↔
        ¬ (e.id ∈ (returned bs).map OutboxEvent.id ∨ d₀.Published e.id)) ∧
    (∀ (tenantId : String) (limit : Int) (env : Env), 0 ≤ limit → ∃ time first rest,
      ((Request.dispatch tenantId limit).executed env d).1 =
        .ok (.dispatched (handed time first)) ∧
      (first ++ rest).Perm
        (d.outbox.rows.filter fun e => e.tenantId = tenantId && e.status = .PENDING) ∧
      (first ++ rest).Pairwise OutboxEvent.before ∧
      first.length = min limit.toNat (first ++ rest).length) ∧
    ∀ (tenantId : String) (n m : Int) (env₁ env₂ env₃ : Env), 0 ≤ n → 0 ≤ m →
      ∃ es₁ es₂ es d₁ d₂ d₃,
      (Request.dispatch tenantId n).executed env₁ d = (.ok (.dispatched es₁), d₁) ∧
      (Request.dispatch tenantId m).executed env₂ d₁ = (.ok (.dispatched es₂), d₂) ∧
      (Request.dispatch tenantId (n + m)).executed env₃ d = (.ok (.dispatched es), d₃) ∧
      (es₁ ++ es₂).map OutboxEvent.unstamped = es.map OutboxEvent.unstamped ∧
      d₂.outbox.rows.map OutboxEvent.unstamped = d₃.outbox.rows.map OutboxEvent.unstamped := by
  have hb := h.batched
  refine ⟨⟨hb.once, hb.own, ?_, ?_⟩, ?_, ?_⟩
  · intro e he
    exact ⟨Table.mem_of_find? (hb.row e he).1, hb.new e he⟩
  · intro e he
    have hfind : d.outbox.find? e.id = some e := Table.find?_of_mem he
    have hpublished : d.Published e.id ↔ e.status = .PUBLISHED := by
      constructor
      · rintro ⟨e', he', hs⟩
        rw [hfind] at he'
        cases he'
        exact hs
      · exact fun hs => ⟨e, hfind, hs⟩
    have hreturned : e.id ∈ (returned bs).map OutboxEvent.id ∨ d₀.Published e.id ↔
        d.Published e.id := by
      refine ⟨?_, hb.only e.id⟩
      rintro (hin | hbefore)
      · obtain ⟨e', he', hid⟩ := List.mem_map.mp hin
        exact ⟨e', hid ▸ hb.row e' he'⟩
      · exact hb.kept e.id hbefore
    rw [hreturned, hpublished]
    cases e.status <;> simp
  · intro tenantId limit env hlimit
    obtain ⟨time, hdispatch⟩ := executed_dispatch env d tenantId hlimit
    refine ⟨time, (d.pending tenantId).take limit.toNat, (d.pending tenantId).drop limit.toNat,
      by rw [hdispatch], ?_, ?_, ?_⟩
    · rw [List.take_append_drop]
      exact List.perm_insertionSort _ _
    · rw [List.take_append_drop]
      exact pending_sorted d tenantId
    · rw [List.take_append_drop, List.length_take]
  · intro tenantId n m env₁ env₂ env₃ hn hm
    exact batch_split d tenantId hn hm env₁ env₂ env₃

end runs

section

open Sample

/-- An event of the sample tenant. -/
def eventOf (id : UUID) (createdAt : Time) : OutboxEvent :=
  { id, tenantId := "acme", transactionId := 7, payload := "{}", createdAt }

/-- Two events, a batch of one, an event from before them, and the rest. -/
theorem batches_partition_late : ∃ bs d, Relayed .empty bs d ∧
    bs.map (fun b => b.events.map OutboxEvent.id) = [[2], [3, 1]] ∧
      ((returned bs).map OutboxEvent.id).Nodup ∧
      ∀ e ∈ d.outbox.rows, e.status = .PENDING ↔ ¬ e.id ∈ (returned bs).map OutboxEvent.id := by
  have h₂ : Relayed .empty [] _ :=
    (Relayed.start.event (eventOf 1 5) rfl rfl).event (eventOf 2 3) rfl (by decide +kernel)
  have h₃ : Relayed .empty _ _ :=
    .dispatch "acme" 1 (envAt 8 0) [(eventOf 2 3).publish 8] h₂ (by decide) (by decide +kernel)
  have h₄ : Relayed .empty _ _ := h₃.event (eventOf 3 1) rfl (by decide +kernel)
  have h₅ : Relayed .empty _ _ :=
    .dispatch "acme" 5 (envAt 9 0) [(eventOf 3 1).publish 9, (eventOf 1 5).publish 9] h₄
      (by decide) (by decide +kernel)
  obtain ⟨⟨honce, -, -, hpending⟩, -⟩ := batches_partition h₅
  refine ⟨_, _, h₅, rfl, honce, fun e he => ?_⟩
  have hnone : ¬ (Database.Published .empty e.id) := by
    rintro ⟨e', he', -⟩
    cases he'
  rw [hpending e he, or_iff_left hnone]

end

end Ledger
