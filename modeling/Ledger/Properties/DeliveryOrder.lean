import Ledger.Runs.Dispatches

/-! # Delivery in the Order of Posting

    An event is stamped when it is built and becomes visible at the commit of
    its transaction; a dispatch selects what it sees and marks it later.  Both
    gaps let events overtake each other.

    * **Deliveries**: the events the dispatches of a run hand over, commit by
      commit.
    * **Condition**: `InOrder`, on each commit: nothing becomes visible behind
      an event that is handed over, and events with one stamp have ids in the
      order of their transactions.
    * **Result**: `deliveries_in_order`, for every run whose commits meet it.
-/

namespace Ledger

open ReadCommitted

section order

instance : Std.Total OutboxEvent.before :=
  inferInstanceAs (Std.Total (Sorting.Lex OutboxEvent.createdAt fun e => e.id.toNat))

instance : IsTrans OutboxEvent OutboxEvent.before :=
  inferInstanceAs (IsTrans OutboxEvent (Sorting.Lex OutboxEvent.createdAt fun e => e.id.toNat))

/-- The order does not depend on what happened to the events since. -/
theorem OutboxEvent.Later.before_iff {e e' f f' : OutboxEvent} (he : e.Later e') (hf : f.Later f') :
    e'.before f' ↔ e.before f := by
  unfold OutboxEvent.before
  rw [he.created, hf.created, he.id, hf.id]

theorem OutboxEvent.before_antisymm {e f : OutboxEvent} (h : e.before f) (h' : f.before e) :
    e.id = f.id := by
  apply BitVec.eq_of_toNat_eq
  unfold OutboxEvent.before at h h'
  rcases h with h | ⟨heq, h⟩
  · rcases h' with h' | ⟨heq', -⟩
    · exact absurd h' (not_lt.mpr h.le)
    · exact absurd h (not_lt.mpr heq'.le)
  · rcases h' with h' | ⟨-, h'⟩
    · exact absurd h' (not_lt.mpr heq.le)
    · exact le_antisymm h h'

variable {d : Database} {t : String} {status : Option OutboxStatus} {limit : Nat}

theorem events_sorted : (d.events t status limit).Pairwise OutboxEvent.before :=
  (List.pairwise_insertionSort OutboxEvent.before _).sublist (List.take_sublist limit _)

/-- What a selection leaves out sorts after what it takes. -/
theorem before_of_not_selected {e f : OutboxEvent} (he : e ∈ d.events t status limit)
    (hf : f ∈ d.outbox.rows) (ht : f.tenantId = t) (hs : ∀ s ∈ status, f.status = s)
    (hout : f ∉ d.events t status limit) : e.before f := by
  unfold Database.events at he hout
  generalize hsorted : List.insertionSort OutboxEvent.before _ = l at he hout
  have hmem : f ∈ l := by
    rw [← hsorted, List.mem_insertionSort, List.mem_filter]
    refine ⟨hf, ?_⟩
    cases status with
    | none => simp [ht]
    | some s => simp [ht, hs s rfl]
  have hl : l.Pairwise OutboxEvent.before := hsorted ▸ List.pairwise_insertionSort _ _
  rw [← List.take_append_drop limit l] at hmem hl
  rcases List.mem_append.mp hmem with hin | hdrop
  · exact absurd hin hout
  · exact (List.pairwise_append.mp hl).2.2 e he f hdrop

end order

section runs

variable {ι : Type}

/-- The tenant's events that dispatches have handed over, commit by commit. -/
def deliveries (t : String) (g : Shared ι Database Write) : List OutboxEvent :=
  (marked g.wal).filterMap fun x => (g.db.outbox.find? x).filter fun e => e.tenantId = t

theorem mem_deliveries {t : String} {g : Shared ι Database Write} {e : OutboxEvent} :
    e ∈ deliveries t g ↔
      e.id ∈ marked g.wal ∧ g.db.outbox.find? e.id = some e ∧ e.tenantId = t := by
  simp only [deliveries, List.mem_filterMap, Option.filter_eq_some_iff, decide_eq_true_eq]
  constructor
  · rintro ⟨x, hx, hfind, ht⟩
    obtain ⟨-, rfl⟩ := Table.find?_eq_some_iff.mp hfind
    exact ⟨hx, hfind, ht⟩
  · rintro ⟨hx, hfind, ht⟩
    exact ⟨e.id, hx, hfind, ht⟩

/-- The transaction of `e` was posted before that of `f`: it had committed
    when the other one began, or the two are legs of one commit. -/
inductive PostedBefore (cs : List (Commit ι Write Resource)) (e f : OutboxEvent) : Prop where
  | committed {cs₁ cs₂ c} (h : cs = cs₁ ++ c :: cs₂) {b} (hb : b ∈ cs₁.take c.tx.began)
      (he : e ∈ enqueued b.tx.log) (hf : f ∈ enqueued c.tx.log)
  | together {c} (hc : c ∈ cs) (h : [e, f].Sublist (enqueued c.tx.log))

/-- The commit keeps the tenant's events in order. -/
structure InOrder (t : String) (tx : Tx Write Resource) (g : Shared ι Database Write) : Prop where
  /-- No event becomes visible behind one that was handed over. -/
  behind : ∀ f ∈ enqueued tx.log, f.tenantId = t → ∀ e ∈ g.db.outbox.rows, e.tenantId = t →
    e.id ∈ marked g.wal → e.before f
  /-- An event with the stamp of one of an earlier transaction has a later id. -/
  ties : ∀ f ∈ enqueued tx.log, f.tenantId = t → ∀ b ∈ g.wal.take tx.began,
    ∀ e ∈ enqueued b.writes, e.tenantId = t → e.createdAt = f.createdAt → e.before f
  /-- So do two events of this commit. -/
  legs : (enqueued tx.log).Pairwise fun e f => e.tenantId = t → f.tenantId = t →
    e.createdAt = f.createdAt → e.before f
  /-- Since a dispatch selected its events, none was handed over that sorts
      after one of them. -/
  overlap : ∀ y ∈ g.db.outbox.rows, y.tenantId = t → y.id ∈ published tx.log →
    ∀ z ∈ g.db.outbox.rows, z.tenantId = t → z.id ∈ marked (g.wal.drop tx.began) → z.before y
  /-- Since then no event became visible, and is pending, that sorts before
      one of them. -/
  missed : ∀ y ∈ g.db.outbox.rows, y.tenantId = t → y.id ∈ published tx.log →
    ∀ b ∈ g.wal.drop tx.began, ∀ f ∈ enqueued b.writes, f.tenantId = t → f.id ∉ marked g.wal →
      y.before f

set_option synthInstance.maxSize 512 in
instance (t : String) (tx : Tx Write Resource) (g : Shared ι Database Write) :
    Decidable (InOrder t tx g) :=
  decidable_of_iff
    ((∀ f ∈ enqueued tx.log, f.tenantId = t → ∀ e ∈ g.db.outbox.rows, e.tenantId = t →
        e.id ∈ marked g.wal → e.before f) ∧
      (∀ f ∈ enqueued tx.log, f.tenantId = t → ∀ b ∈ g.wal.take tx.began,
        ∀ e ∈ enqueued b.writes, e.tenantId = t → e.createdAt = f.createdAt → e.before f) ∧
      ((enqueued tx.log).Pairwise fun e f => e.tenantId = t → f.tenantId = t →
        e.createdAt = f.createdAt → e.before f) ∧
      (∀ y ∈ g.db.outbox.rows, y.tenantId = t → y.id ∈ published tx.log →
        ∀ z ∈ g.db.outbox.rows, z.tenantId = t → z.id ∈ marked (g.wal.drop tx.began) →
          z.before y) ∧
      ∀ y ∈ g.db.outbox.rows, y.tenantId = t → y.id ∈ published tx.log →
        ∀ b ∈ g.wal.drop tx.began, ∀ f ∈ enqueued b.writes, f.tenantId = t →
          f.id ∉ marked g.wal → y.before f)
    ⟨fun ⟨h₁, h₂, h₃, h₄, h₅⟩ => ⟨h₁, h₂, h₃, h₄, h₅⟩,
      fun h => ⟨h.behind, h.ties, h.legs, h.overlap, h.missed⟩⟩

/-! ## Invariant -/

/-- The event is in the table, perhaps published since. -/
def InTable (d : Database) (e : OutboxEvent) : Prop :=
  ∃ e', d.outbox.find? e.id = some e' ∧ e.Later e'

/-- The ids are of events in order, if they are the tenant's. -/
def Precedes (d : Database) (t : String) (x y : UUID) : Prop :=
  ∀ a b, d.outbox.find? x = some a → d.outbox.find? y = some b → a.tenantId = t → b.tenantId = t →
    a.before b

/-- After the commits `w` of a run from `d` to `d'`, what was handed over is
    in order, and before all that is pending. -/
structure Ordered (d d' : Database) (t : String) (w : List (Entry ι Write)) : Prop where
  sorted : (marked w).Pairwise (Precedes d' t)
  waiting : ∀ x ∈ marked w, ∀ y ∈ (afterCommits d w).outbox.rows, y.status = .PENDING →
    Precedes d' t x y.id

variable {d d' : Database} {t : String} {clock : Time} {g : Shared ι Database Write}
  {cs cs₁ cs₂ : List (Commit ι Write Resource)} {c : Commit ι Write Resource} {e f : OutboxEvent}
  {x y : UUID}

theorem Precedes.of_before (he : InTable d e) (hf : InTable d f)
    (h : e.tenantId = t → f.tenantId = t → e.before f) : Precedes d t e.id f.id := by
  obtain ⟨e', hefind, he⟩ := he
  obtain ⟨f', hffind, hf⟩ := hf
  intro a b ha hb hat hbt
  rw [hefind] at ha
  rw [hffind] at hb
  cases ha
  cases hb
  exact (he.before_iff hf).mpr (h (he.tenant ▸ hat) (hf.tenant ▸ hbt))

theorem Precedes.before (h : Precedes d t e.id f.id) (he : InTable d e) (hf : InTable d f)
    (het : e.tenantId = t) (hft : f.tenantId = t) : e.before f := by
  obtain ⟨e', hefind, he⟩ := he
  obtain ⟨f', hffind, hf⟩ := hf
  exact (he.before_iff hf).mp
    (h e' f' hefind hffind (he.tenant.trans het) (hf.tenant.trans hft))

/-- What was in the table is there at the end. -/
theorem inTable_of_initial {P : OfCommit ι Database Write Resource}
    (h : Logged P ⟨d, clock, []⟩ cs g) {w : List (Entry ι Write)} (hw : w <+: cs.map Commit.entry)
    (he : e ∈ (afterCommits d w).outbox.rows) : InTable g.db e := by
  obtain ⟨es, hes⟩ := hw
  obtain ⟨e', hfind, hlater, -⟩ :=
    outbox_kept (es.flatMap Entry.writes) (Table.find?_of_mem he)
  refine ⟨e', ?_, hlater⟩
  rw [h.db, ← hes, afterCommits_append]
  exact hfind

/-- What a commit added is in the table at the end, and pending unless marked. -/
theorem inTable_of_enqueued (h : Logged (fun _ => Ships d) ⟨d, clock, []⟩ cs g)
    (hcs : cs = cs₁ ++ c :: cs₂) (he : e ∈ enqueued c.tx.log) :
    InTable g.db e ∧ (e.id ∉ marked g.wal → e ∈ g.db.outbox.rows) := by
  have hships := h.each cs₁ c cs₂ hcs
  -- the row right after the commit
  obtain ⟨e₁, he₁⟩ := outbox_added (d := afterCommits d (cs₁.map Commit.entry)) he
  obtain ⟨e₂, hadded, hid, hlater, hsame⟩ := outbox_new (hships.fresh e he) he₁
  have hnodup : ((enqueued c.tx.log).map OutboxEvent.id).Nodup :=
    List.pairwise_map.mpr hships.distinct
  have heq : e₂ = e := List.inj_on_of_nodup_map hnodup hadded he hid
  subst heq
  have hdb : g.db = replay (replay (afterCommits d (cs₁.map Commit.entry)) c.tx.log)
      ((cs₂.map Commit.entry).flatMap Entry.writes) := by
    rw [h.db, hcs, List.map_append, afterCommits_append, List.map_cons, afterCommits_cons]
    rfl
  obtain ⟨e', hfind, hlater', -, hsame'⟩ :=
    outbox_kept ((cs₂.map Commit.entry).flatMap Entry.writes) he₁
  rw [← hdb] at hfind
  refine ⟨⟨e', hfind, hlater.trans hlater'⟩, fun hno => ?_⟩
  have hwal : g.wal = cs₁.map Commit.entry ++ c.entry :: cs₂.map Commit.entry := by
    rw [h.wal, hcs]
    simp
  have hc : e₂.id ∉ published c.tx.log := fun hm => hno (by
    rw [hwal]
    exact mem_marked.mpr ⟨c.entry, by simp, hm⟩)
  have hcs₂ : e₂.id ∉ published ((cs₂.map Commit.entry).flatMap Entry.writes) := fun hm => hno (by
    rw [hwal, marked_append, List.mem_append]
    refine .inr (mem_marked.mpr ?_)
    obtain ⟨b, hb, hxb⟩ := mem_marked.mp hm
    exact ⟨b, List.mem_cons_of_mem _ hb, hxb⟩)
  rw [hsame' hcs₂, hsame hc] at hfind
  exact Table.mem_of_find? hfind

/-- What one more commit marks. -/
theorem marked_snoc (cs₁ : List (Commit ι Write Resource)) (c : Commit ι Write Resource) :
    marked ((cs₁ ++ [c]).map Commit.entry) =
      marked (cs₁.map Commit.entry) ++ published c.tx.log := by
  rw [List.map_append, marked_append]
  show _ ++ published (c.tx.log ++ []) = _
  rw [List.append_nil]

/-- An event that is pending after one more commit waited before it, or is new. -/
theorem waiting_snoc (hy : e ∈ (afterCommits d ((cs₁ ++ [c]).map Commit.entry)).outbox.rows)
    (hpending : e.status = .PENDING) :
    ((afterCommits d (cs₁.map Commit.entry)).outbox.find? e.id = some e ∧
        e.id ∉ published c.tx.log) ∨
      ∃ f ∈ enqueued c.tx.log, f.id = e.id ∧ f.Later e := by
  rw [List.map_append, afterCommits_append] at hy
  have hrow : (replay (afterCommits d (cs₁.map Commit.entry)) c.tx.log).outbox.find? e.id =
      some e := by
    have hfind := Table.find?_of_mem hy
    simpa [afterCommits, Commit.entry] using hfind
  cases hold : (afterCommits d (cs₁.map Commit.entry)).outbox.find? e.id with
  | some e₁ =>
    obtain ⟨e₂, he₂, -, hmark, hsame⟩ := outbox_kept (c.tx.log) hold
    rw [hrow] at he₂
    cases he₂
    have hno : e.id ∉ published c.tx.log := by
      intro hm
      rw [hmark hm] at hpending
      cases hpending
    exact .inl ⟨by rw [hsame hno], hno⟩
  | none =>
    obtain ⟨f, hadded, hid, hlater, -⟩ := outbox_new hold hrow
    exact .inr ⟨f, hadded, hid, hlater⟩

/-- **A posting** keeps the order: what it adds waits behind all that was
    handed over. -/
theorem Ordered.post (h : Logged (fun _ tx g => InOrder t tx g ∧ Ships d tx g) ⟨d, clock, []⟩ cs g)
    (hcs : cs = cs₁ ++ c :: cs₂) (hw : Ordered d g.db t (cs₁.map Commit.entry))
    (hnone : published c.tx.log = []) :
    Ordered d g.db t ((cs₁ ++ [c]).map Commit.entry) := by
  obtain ⟨hin, hships⟩ := h.each cs₁ c cs₂ hcs
  have hall : Logged (fun _ => Ships d) ⟨d, clock, []⟩ cs g := h.mono fun _ _ _ hc => hc.2
  have hprefix : cs₁.map Commit.entry <+: cs.map Commit.entry := by
    rw [hcs, List.map_append]
    exact List.prefix_append _ _
  have hmarks : marked ((cs₁ ++ [c]).map Commit.entry) = marked (cs₁.map Commit.entry) := by
    rw [marked_snoc, hnone, List.append_nil]
  constructor
  · rw [hmarks]
    exact hw.sorted
  · intro x hx y hy hpending
    rw [hmarks] at hx
    rcases waiting_snoc hy hpending with ⟨hold, -⟩ | ⟨f, hadded, hid, hlater⟩
    · -- the event was waiting before
      exact hw.waiting x hx y (Table.mem_of_find? hold) hpending
    · have hleft : Logged (fun _ => Ships d) ⟨d, clock, []⟩ cs₁ _ := (hcs ▸ hall).left
      obtain ⟨-, e, he, -⟩ := published_of_marked hleft (by simpa using hx)
      obtain ⟨hemem, rfl⟩ := Table.find?_eq_some_iff.mp he
      rw [← hid]
      refine .of_before (inTable_of_initial h hprefix hemem)
        (inTable_of_enqueued hall hcs hadded).1 fun het hft => ?_
      exact hin.behind f hadded hft e hemem het (by simpa using hx)

/-! ## Dispatches -/

/-- The commit `c` of a run to `g` is a dispatch: it marks `batch`, which it
    selected from `seen`, the state its transaction began in. -/
structure Selection (d : Database) (t : String) (cs₁ : List (Commit ι Write Resource))
    (c : Commit ι Write Resource) (g : Shared ι Database Write) (seen : Database)
    (batch : List OutboxEvent) : Prop where
  order : InOrder t c.tx ⟨afterCommits d (cs₁.map Commit.entry), c.time, cs₁.map Commit.entry⟩
  began : afterCommits d ((cs₁.map Commit.entry).take c.tx.began) = seen
  quiet : enqueued c.tx.log = []
  marks : published c.tx.log = batch.map OutboxEvent.id
  sorted : batch.Pairwise OutboxEvent.before
  row : ∀ e ∈ batch, e ∈ seen.outbox.rows ∧ e.status = .PENDING ∧ InTable g.db e
  /-- What was pending then and was left out sorts after it. -/
  out : ∀ e ∈ batch, ∀ f ∈ seen.outbox.rows, f.tenantId = e.tenantId → f.status = .PENDING →
    f ∉ batch → e.before f
  table : ∀ e ∈ (afterCommits d (cs₁.map Commit.entry)).outbox.rows, InTable g.db e
  /-- What was handed over before is published. -/
  handed : ∀ x ∈ marked (cs₁.map Commit.entry), ∃ e, e.id = x ∧ e.status = .PUBLISHED ∧
    e ∈ (afterCommits d (cs₁.map Commit.entry)).outbox.rows

namespace Selection

variable {seen : Database} {batch : List OutboxEvent}

theorem of_log (h : Logged (fun _ tx g => InOrder t tx g ∧ Ships d tx g) ⟨d, clock, []⟩ cs g)
    (hcs : cs = cs₁ ++ c :: cs₂) {t' : String} {limit : Nat} {time : Time}
    (hlog : c.tx.log = ((afterCommits d ((cs₁.map Commit.entry).take c.tx.began)).events t'
      (some .PENDING) limit).map fun e => .publish e.id time) :
    Selection d t cs₁ c g (afterCommits d ((cs₁.map Commit.entry).take c.tx.began))
      ((afterCommits d ((cs₁.map Commit.entry).take c.tx.began)).events t'
        (some .PENDING) limit) := by
  have hall : Logged (fun _ => Ships d) ⟨d, clock, []⟩ cs g := h.mono fun _ _ _ hc => hc.2
  have hleft : Logged (fun _ => Ships d) ⟨d, clock, []⟩ cs₁ _ := (hcs ▸ hall).left
  have hprefix : cs₁.map Commit.entry <+: cs.map Commit.entry := by
    rw [hcs, List.map_append]
    exact List.prefix_append _ _
  have hbegan := (List.take_prefix c.tx.began (cs₁.map Commit.entry)).trans hprefix
  refine ⟨(h.each cs₁ c cs₂ hcs).1, rfl, ?_, ?_, events_sorted, ?_, ?_, ?_, ?_⟩
  · rw [hlog, enqueued_publish]
  · rw [hlog, published_publish]
  · intro e he
    obtain ⟨hmem, -, hs⟩ := mem_events he
    exact ⟨hmem, hs _ rfl, inTable_of_initial h hbegan hmem⟩
  · intro e he f hf htenant hs hout
    obtain ⟨-, het, -⟩ := mem_events he
    refine before_of_not_selected he hf (htenant.trans het) ?_ hout
    rintro s hsome
    cases hsome
    exact hs
  · exact fun e he => inTable_of_initial h hprefix he
  · intro x hx
    obtain ⟨-, z, hz, hs⟩ := published_of_marked hleft (by simpa using hx)
    obtain ⟨hmem, hid⟩ := Table.find?_eq_some_iff.mp hz
    exact ⟨z, hid, hs, hmem⟩

variable (s : Selection d t cs₁ c g seen batch)
include s

/-- What has happened between the selection and the commit. -/
theorem since : afterCommits d (cs₁.map Commit.entry) =
    replay seen (((cs₁.map Commit.entry).drop c.tx.began).flatMap Entry.writes) := by
  conv_lhs => rw [← List.take_append_drop c.tx.began (cs₁.map Commit.entry), afterCommits_append]
  rw [← s.began]
  rfl

/-- A row that the selection saw, at the commit. -/
theorem later (he : e ∈ seen.outbox.rows) : ∃ e', e.Later e' ∧
    (afterCommits d (cs₁.map Commit.entry)).outbox.find? e.id = some e' := by
  obtain ⟨e', he', hlater, -⟩ := outbox_kept
    (((cs₁.map Commit.entry).drop c.tx.began).flatMap Entry.writes) (Table.find?_of_mem he)
  rw [← s.since] at he'
  exact ⟨e', hlater, he'⟩

/-- What was handed over since the selection sorts before the batch. -/
theorem overlap (hy : f ∈ batch) (hz : e ∈ (afterCommits d (cs₁.map Commit.entry)).outbox.rows)
    (hmark : e.id ∈ marked ((cs₁.map Commit.entry).drop c.tx.began)) :
    Precedes g.db t e.id f.id := by
  obtain ⟨hrow, -, htable⟩ := s.row f hy
  obtain ⟨f₁, hlater, hf₁⟩ := s.later hrow
  refine .of_before (s.table e hz) htable fun het hft => ?_
  rw [← (OutboxEvent.Later.refl e).before_iff hlater]
  refine s.order.overlap f₁ (Table.mem_of_find? hf₁) (hlater.tenant.trans hft) ?_ e hz het hmark
  rw [s.marks, hlater.id]
  exact List.mem_map_of_mem hy

/-- What waited at the selection, and waits still, sorts after the batch. -/
theorem passed_over (he : e ∈ batch) (hf : f ∈ (afterCommits d (cs₁.map Commit.entry)).outbox.rows)
    (hpending : f.status = .PENDING) (hunmarked : f.id ∉ published c.tx.log) {f₀ : OutboxEvent}
    (hseen : seen.outbox.find? f.id = some f₀) : Precedes g.db t e.id f.id := by
  refine .of_before (s.row e he).2.2 (s.table f hf) fun het hft => ?_
  have hf₀ : f₀ ∈ seen.outbox.rows := Table.mem_of_find? hseen
  have hid : f₀.id = f.id := Table.key_of_find? hseen
  obtain ⟨f₁, hlater, hf₁⟩ := s.later hf₀
  have hfind : (afterCommits d (cs₁.map Commit.entry)).outbox.find? f.id = some f :=
    Table.find?_of_mem hf
  rw [hid, hfind] at hf₁
  cases hf₁
  rw [(OutboxEvent.Later.refl e).before_iff hlater]
  have hpending₀ : f₀.status = .PENDING := by
    cases hs : f₀.status with
    | PENDING => rfl
    | PUBLISHED =>
      rw [hlater.status hs] at hpending
      cases hpending
  refine s.out e he f₀ hf₀ ?_ hpending₀ fun hin => hunmarked ?_
  · rw [← hlater.tenant, hft, het]
  · rw [s.marks, hlater.id]
    exact List.mem_map_of_mem hin

/-- What became visible since the selection, and is pending, sorts after the batch. -/
theorem missed (he : e ∈ batch) (hf : f ∈ (afterCommits d (cs₁.map Commit.entry)).outbox.rows)
    (hpending : f.status = .PENDING) (hnew : seen.outbox.find? f.id = none) :
    Precedes g.db t e.id f.id := by
  obtain ⟨hrow, -, htable⟩ := s.row e he
  refine .of_before htable (s.table f hf) fun het hft => ?_
  have hfind := Table.find?_of_mem hf
  rw [s.since] at hfind
  obtain ⟨f₁, hf₁, hid, hlater, -⟩ := outbox_new hnew hfind
  obtain ⟨b, hb, hfb⟩ := mem_enqueued_flatMap.mp hf₁
  obtain ⟨e₁, helater, he₁⟩ := s.later hrow
  have hwaits : f₁.id ∉ marked (cs₁.map Commit.entry) := by
    intro hm
    obtain ⟨u, huid, hus, hu⟩ := s.handed f₁.id hm
    have hsame := Table.eq_of_key_eq _ hu hf (huid.trans hid)
    rw [hsame, hpending] at hus
    cases hus
  have hmarked : e₁.id ∈ published c.tx.log := by
    rw [s.marks, helater.id]
    exact List.mem_map_of_mem he
  have hbefore := s.order.missed e₁ (Table.mem_of_find? he₁) (helater.tenant.trans het) hmarked
    b hb f₁ hfb (hlater.tenant ▸ hft) hwaits
  rw [helater.before_iff (.refl f₁)] at hbefore
  exact ((OutboxEvent.Later.refl e).before_iff hlater).mpr hbefore

/-- **A dispatch** keeps the order: it hands over the first of what waited at
    its selection, and nothing has got ahead of that since. -/
theorem ordered (hw : Ordered d g.db t (cs₁.map Commit.entry))
    (hsel : Ordered d g.db t ((cs₁.map Commit.entry).take c.tx.began)) :
    Ordered d g.db t ((cs₁ ++ [c]).map Commit.entry) := by
  constructor
  · rw [marked_snoc, s.marks, List.pairwise_append, List.pairwise_map]
    refine ⟨hw.sorted, ?_, ?_⟩
    · refine s.sorted.imp_of_mem fun {y z} hy hz hyz => ?_
      exact .of_before (s.row y hy).2.2 (s.row z hz).2.2 fun _ _ => hyz
    · intro x hx y' hy'
      obtain ⟨y, hy, rfl⟩ := List.mem_map.mp hy'
      obtain ⟨z, rfl, -, hzrow⟩ := s.handed x hx
      rw [← List.take_append_drop c.tx.began (cs₁.map Commit.entry), marked_append,
        List.mem_append] at hx
      rcases hx with hbefore | hsince
      · -- handed over before the selection
        exact hsel.waiting z.id hbefore y (s.began ▸ (s.row y hy).1) (s.row y hy).2.1
      · exact s.overlap hy hzrow hsince
  · intro x hx y hy hpending
    rcases waiting_snoc hy hpending with ⟨hfind, hunmarked⟩ | ⟨f, hadded, -⟩
    · have hyrow := Table.mem_of_find? hfind
      rw [marked_snoc, s.marks] at hx
      rcases List.mem_append.mp hx with hx | hx
      · exact hw.waiting x hx y hyrow hpending
      · obtain ⟨z, hz, rfl⟩ := List.mem_map.mp hx
        cases hseen : seen.outbox.find? y.id with
        | some y₀ => exact s.passed_over hz hyrow hpending hunmarked hseen
        | none => exact s.missed hz hyrow hpending hseen
    · rw [s.quiet] at hadded
      cases hadded

end Selection

/-- **Run lemma**: after every stretch of the run the tenant's events are in
    order. -/
theorem ordered_take
    (h : Logged (fun _ tx g => InOrder t tx g ∧ Ships d tx g) ⟨d, clock, []⟩ cs g) (n : Nat) :
    Ordered d g.db t ((cs.map Commit.entry).take n) := by
  induction n using Nat.strong_induction_on with
  | _ n ih =>
    cases n with
    | zero => exact ⟨by simp [marked], by simp [marked]⟩
    | succ n =>
      by_cases hn : n < cs.length
      · have hcs : cs = cs.take n ++ cs[n] :: cs.drop (n + 1) := by
          rw [← List.drop_eq_getElem_cons hn, List.take_append_drop]
        have htake : (cs.map Commit.entry).take (n + 1) =
            (cs.take n ++ [cs[n]]).map Commit.entry := by
          rw [← List.map_take, List.take_succ_eq_append_getElem hn]
        have hbefore : Ordered d g.db t ((cs.take n).map Commit.entry) := by
          rw [List.map_take]
          exact ih n (by omega)
        rw [htake]
        rcases (h.each _ _ _ hcs).2.marks with hnone | ⟨t', limit, time, hlog⟩
        · exact hbefore.post h hcs hnone
        · rw [List.nil_append] at hlog
          refine (Selection.of_log h hcs hlog).ordered hbefore ?_
          rw [List.map_take, List.take_take]
          exact ih _ (by omega)
      · -- there are no more commits
        have hall : (cs.map Commit.entry).take (n + 1) = (cs.map Commit.entry).take n := by
          rw [List.take_of_length_le (by simp; omega), List.take_of_length_le (by simp; omega)]
        rw [hall]
        exact ih n (by omega)

/-- Both events are added by commits of the run. -/
theorem PostedBefore.enqueued (hp : PostedBefore cs e f) :
    (∃ c ∈ cs, e ∈ Ledger.enqueued c.tx.log) ∧ ∃ c ∈ cs, f ∈ Ledger.enqueued c.tx.log := by
  cases hp with
  | @committed cs₁ cs₂ c hcs b hb he hf =>
    rw [hcs]
    exact ⟨⟨b, List.mem_append_left _ (List.mem_of_mem_take hb), he⟩, c, by simp, hf⟩
  | together hc hsub => exact ⟨⟨_, hc, hsub.subset (by simp)⟩, _, hc, hsub.subset (by simp)⟩

/-- Of two events posted one after the other the second one sorts after the first. -/
theorem PostedBefore.strict
    (h : Logged (fun _ tx g => InOrder t tx g ∧ Ships d tx g) ⟨d, clock, []⟩ cs g)
    (hp : PostedBefore cs e f) (het : e.tenantId = t) (hft : f.tenantId = t) : ¬ f.before e := by
  -- a stamp that is not later, an id that is not earlier when the stamps agree, and another event
  suffices hkey : e.createdAt ≤ f.createdAt ∧ (e.createdAt = f.createdAt → e.before f) ∧
      e.id ≠ f.id by
    obtain ⟨hle, hties, hne⟩ := hkey
    intro hback
    have hstamp : e.createdAt = f.createdAt := by
      rcases hback with hlt | ⟨heq, -⟩
      · exact absurd hlt (not_lt.mpr hle)
      · exact heq.symm
    exact hne (OutboxEvent.before_antisymm (hties hstamp) hback)
  cases hp with
  | @committed cs₁ cs₂ c hcs b hb he hf =>
    obtain ⟨hin, hships⟩ := h.each cs₁ c cs₂ hcs
    simp only [List.nil_append] at hin hships
    have hall : Logged (fun _ => Ships d) ⟨d, clock, []⟩ cs g := h.mono fun _ _ _ hc => hc.2
    have hseen : b.entry ∈ (cs₁.map Commit.entry).take c.tx.began := by
      rw [← List.map_take]
      exact List.mem_map_of_mem hb
    obtain ⟨bs, bs', hbs⟩ := List.append_of_mem (List.mem_of_mem_take hb)
    have hb' := (h.each bs b (bs' ++ c :: cs₂) (by rw [hcs, hbs]; simp)).2
    refine ⟨(hb'.clock e he).trans (hships.since f hf b.entry hseen), ?_, ?_⟩
    · exact hin.ties f hf hft b.entry hseen e he het
    · -- the first event was in the table when the second one was added
      intro hid
      have hleft : Logged (fun _ => Ships d) ⟨d, clock, []⟩ cs₁ _ := (hcs ▸ hall).left
      obtain ⟨⟨e', he', -⟩, -⟩ := inTable_of_enqueued hleft hbs he
      have hfresh := hships.fresh f hf
      rw [← hid] at hfresh
      rw [hfresh] at he'
      cases he'
  | together hc hsub =>
    obtain ⟨cs₁, cs₂, hcs⟩ := List.append_of_mem hc
    obtain ⟨hin, hships⟩ := h.each cs₁ _ cs₂ hcs
    exact ⟨hships.ordered.forall_sublist hsub, hin.legs.forall_sublist hsub het hft,
      hships.distinct.forall_sublist hsub⟩

variable [Runtime] [DecidableEq ι] {requests : ι → Request}
  {s : Sys ι Database Write Resource Err Reply}

/-- **Order of delivery**: in a run whose commits keep the tenant's events in
    order, what its dispatches hand over is sorted, and an event has been
    handed over before any that was posted after it. -/
theorem deliveries_in_order
    (h : Traced (fun _ => InOrder t) Sys.publishing (serve requests d clock) s cs) :
    (deliveries t s.shared).Pairwise OutboxEvent.before ∧
      (∀ e f, PostedBefore cs e f → e.tenantId = t → f.tenantId = t →
        ∀ pre f' post, deliveries t s.shared = pre ++ f' :: post → f'.id = f.id →
          e.id ∈ pre.map OutboxEvent.id) ∧
      ∀ i reply, (s.sess i).prog = .ret reply →
        reply.events.map OutboxEvent.id = publishedBy i s.shared.wal := by
  have hlogged := ships_of_traced h
  -- the proof is about the commits of the run
  have hall : Logged (fun _ => Ships d) ⟨d, clock, []⟩ cs s.shared :=
    hlogged.mono fun _ _ _ hc => hc.2
  have hwal : s.shared.wal = cs.map Commit.entry := hlogged.wal
  obtain ⟨hsorted, hwaiting⟩ := ordered_take hlogged cs.length
  rw [List.take_of_length_le (by simp)] at hsorted hwaiting
  have hdb : s.shared.db = afterCommits d (cs.map Commit.entry) := hlogged.db
  have hpairwise : (deliveries t s.shared).Pairwise OutboxEvent.before := by
    unfold deliveries
    rw [List.pairwise_filterMap, hwal]
    refine hsorted.imp fun {x y} hxy a ha b hb => ?_
    simp only [Option.filter_eq_some_iff, decide_eq_true_eq] at ha hb
    exact hxy a b ha.1 hb.1 ha.2 hb.2
  refine ⟨hpairwise, ?_, fun i reply hret => handed_of_reachable h.reachable hret⟩
  intro e f hp het hft pre f' post hsplit hid
  have hstrict := hp.strict hlogged het hft
  obtain ⟨⟨b, hb, heb⟩, c, hc, hfc⟩ := hp.enqueued
  obtain ⟨bs, bs', hbs⟩ := List.append_of_mem hb
  obtain ⟨cs₁, cs₂, hcs⟩ := List.append_of_mem hc
  obtain ⟨⟨e', he', helater⟩, heunmarked⟩ := inTable_of_enqueued hall hbs heb
  obtain ⟨hftable, -⟩ := inTable_of_enqueued hall hcs hfc
  have hf'mem : f' ∈ deliveries t s.shared := by
    rw [hsplit]
    simp
  obtain ⟨hfmarked, hf', -⟩ := mem_deliveries.mp hf'mem
  have hflater : f.Later f' := by
    obtain ⟨f'', hf'', hflater⟩ := hftable
    rw [← hid, hf'] at hf''
    cases hf''
    exact hflater
  have hemarked : e.id ∈ marked s.shared.wal := by
    -- else it is still waiting, in front of the other one
    by_contra hno
    have herow := heunmarked hno
    have hpending := (hall.each bs b bs' hbs).pending e heb
    rw [hwal, hid] at hfmarked
    have hprecedes := hwaiting f.id hfmarked e (hdb ▸ herow) hpending
    exact hstrict (hprecedes.before hftable ⟨e', he', helater⟩ hft het)
  have hdelivered : e' ∈ deliveries t s.shared :=
    mem_deliveries.mpr ⟨helater.id ▸ hemarked, helater.id ▸ he', helater.tenant.trans het⟩
  rw [hsplit] at hdelivered hpairwise
  have hback : ¬ f'.before e' := fun hback => hstrict ((hflater.before_iff helater).mp hback)
  rcases List.mem_append.mp hdelivered with hpre | hrest
  · rw [← helater.id]
    exact List.mem_map_of_mem hpre
  · rcases List.mem_cons.mp hrest with rfl | hpost
    · exact absurd ((Std.Total.total (r := OutboxEvent.before) e' e').elim (fun h => h)
        fun h => h) hback
    · have hpairs := (List.pairwise_append.mp hpairwise).2.1
      exact absurd ((List.pairwise_cons.mp hpairs).1 e' hpost) hback

end runs

open Sample

/-- The sample ledger with an account for Carol. -/
def withCarol : Database := script [(opening "users.carol" "carol" .USD, envAt 0 500)] funded

/-- Alice pays Bob, Carol is funded, and two dispatches. -/
def postersAndDispatchers : Fin 4 → Request
  | 0 => pay bob 60 "k1" sixty_pos
  | 1 => .post "acme" [⟨usd, -5, 0⟩, ⟨carol, 5, 0⟩] "funding"
  | _ => .dispatch "acme" 100

/-- One after the other: Carol is funded, Alice pays, and both dispatches. -/
theorem deliveries_in_turn : ∃ s cs,
    Traced (fun _ => InOrder "acme") Sys.publishing (serve postersAndDispatchers withCarol 0) s cs ∧
      (deliveries "acme" s.shared).map (fun e => e.createdAt) = [0, 60000000, 120000000] ∧
        (deliveries "acme" s.shared).Pairwise OutboxEvent.before := by
  have hinit : Traced (fun _ => InOrder "acme") Sys.publishing
      (serve postersAndDispatchers withCarol 0) _ [] := .init
  obtain ⟨s, cs, h, hp⟩ := hinit.of_follow
    (fun s i => !s.committing i || decide (InOrder "acme" (s.sess i).tx s.shared))
    (fun s i hcheck hcommits => by simpa [hcommits] using hcheck)
    (.tick 60000000 :: Sys.turns 1 4000 16 ++ Sys.turns 2 0 6 ++
      .tick 120000000 :: Sys.turns 0 3000 26 ++ Sys.turns 3 0 5)
    (fun s _ => (deliveries "acme" s.shared).map (fun e => e.createdAt) = [0, 60000000, 120000000])
    (by decide +kernel)
  exact ⟨s, cs, h, of_decide_eq_true hp, (deliveries_in_order h).1⟩

/-- Alice's payment is stamped first and commits last; what was posted in
    between has been handed over by then. -/
theorem deliveries_overtaken : ¬ ∀ s cs,
    Traced Sys.all Sys.publishing (serve postersAndDispatchers withCarol 0) s cs →
      (deliveries "acme" s.shared).Pairwise OutboxEvent.before := by
  intro hall
  have hinit : Traced Sys.all Sys.publishing (serve postersAndDispatchers withCarol 0) _ [] := .init
  obtain ⟨s, cs, h, hp⟩ := hinit.of_follow (fun _ _ => true) (fun _ _ _ _ => trivial)
    (Sys.turns 0 3000 20 ++ .tick 60000000 :: Sys.turns 1 4000 16 ++ Sys.turns 2 0 6 ++
      Sys.turns 0 3020 6 ++ Sys.turns 3 0 5)
    (fun s _ => !decide ((deliveries "acme" s.shared).Pairwise OutboxEvent.before))
    (by decide +kernel)
  simp only [Bool.not_eq_eq_eq_not, Bool.not_true, decide_eq_false_iff_not] at hp
  exact hp (hall s cs h)

end Ledger
