import Ledger.Api.Lifespan
import Ledger.Services.Reads
import Ledger.Runs.Outcomes
import Ledger.Runs.Alone

/-! # When a Record Is Swept

    The application starts the sweep with the age the sweeper defaults to, and
    the inspection endpoint reports the deadline from the same age.  The
    configured window is read by neither.

    * **Pass**: `executed_sweep`, what a pass deletes, and `mem_pass`.
    * **Run**: `Background`, passes and other requests in any order, from any
      database.
    * **Result**: `window_respected_iff`.
-/

namespace Ledger

open ReadCommitted

/-! ## One Pass -/

section pass

variable {env : Env} {d : Database} {minAge cutoff : Time} {r : IdempotencyRecord}

/-- The keys that are swept are those of the records before the cutoff. -/
theorem mem_swept (hr : r ∈ d.records.rows) : r.id ∈ d.swept cutoff ↔ r.createdAt < cutoff := by
  unfold Database.swept
  constructor
  · intro hmem
    obtain ⟨r', hr', hid⟩ := List.mem_map.mp hmem
    rw [List.mem_filter, decide_eq_true_eq] at hr'
    -- a key has one record
    obtain rfl : r' = r := d.records.eq_of_key_eq hr'.1 hr hid
    exact hr'.2
  · intro hold
    exact List.mem_map_of_mem (List.mem_filter.mpr ⟨hr, by simpa using hold⟩)

/-- After a statement that writes. -/
def Point.wrote (env : Env) (p : Point) (ws : List Write) : Point :=
  { p.read env with tx := Tx.write (D := Database) (p.read env).tx ws }

theorem returns_deleteBefore (env : Env) (cutoff : Time) (p : Point) :
    Svc.Returns env (deleteBefore cutoff) p (p.view.swept cutoff).length
      (p.wrote env [.deleteRecords (p.view.swept cutoff)]) := by
  simp [Svc.Returns, deleteBefore, Prog.run, Point.view, Point.read, Point.wrote]

/-- **One pass** deletes the records that are older than `minAge`. -/
theorem executed_sweep [Runtime] (env : Env) (d : Database) (minAge : Time) : ∃ result,
    (Request.sweep minAge).executed env d =
      (.ok (.swept result), d.apply (.deleteRecords (d.swept (env.clock 0 - minAge)))) := by
  let p : Point := { db := d }
  let keys : List RecordKey := d.swept (env.clock 0 - minAge)
  let q : Point := p.next.wrote env [.deleteRecords keys]
  have hnow : Svc.Returns env Svc.now p (env.clock 0) p.next := Svc.returns_now p
  have hdelete : Svc.Returns env (deleteBefore (env.clock 0 - minAge)) p.next keys.length q :=
    returns_deleteBefore env _ _
  have hselect : Svc.Returns env (Svc.select fun d _ => d.records.rows.length) q
      q.view.records.rows.length (q.read env) := Svc.returns_select _ q
  -- nothing waits in the session for the commit
  obtain ⟨r, hcommit, hdb⟩ := (commit_alone (q.read env)).1 (admitted_nil _)
  let result : SweepResult := ⟨keys.length, q.view.records.rows.length⟩
  have hend : Svc.Returns env (sweepOnce minAge) p result r :=
    hnow.bind (hdelete.bind (hselect.bind (hcommit.bind (Svc.returns_pure result r))))
  have hservice : Svc.Returns env (Request.sweep minAge).service p (.swept result) r :=
    Svc.Returns.bind (f := fun x => pure (Reply.swept x)) hend (Svc.returns_pure _ r)
  refine ⟨result, ?_⟩
  rw [executed_returns hservice, hdb]
  rfl

end pass

/-! ## Other Requests -/

/-- Nothing deletes a record but a sweep. -/
theorem Outcome.keeps_records [Runtime] {env : Env} {d : Database} {r : Request} {ws : List Write}
    (h : Outcome env d r ws) (hr : ∀ minAge, r ≠ .sweep minAge) (ks : List RecordKey) :
    .deleteRecords ks ∉ ws := by
  have hemission : ∀ txn legs event, .deleteRecords ks ∉ emission txn legs event := by
    intro txn legs event hmem
    have htable := table_emission hmem
    simp [Write.table] at htable
  cases h with
  | swept => exact absurd rfl (hr _)
  | _ => simp [hemission]

theorem replay_keeps_records {d : Database} {ws : List Write}
    (h : ∀ ks, .deleteRecords ks ∉ ws) : d.records.rows ⊆ (replay d ws).records.rows := by
  refine replay_induction (P := fun d' => d.records.rows ⊆ d'.records.rows) d (fun _ h => h)
    fun d' w hw ih => ?_
  cases w with
  | insRecord s => exact fun _ hr => Table.subset_insert _ s (ih hr)
  | deleteRecords ks => exact absurd hw (h ks)
  | _ => exact ih

/-- **Another request** leaves every record where it is. -/
theorem executed_keeps_records [Runtime] {r : Request} (hr : ∀ minAge, r ≠ .sweep minAge)
    (env : Env)
    (d : Database) : d.records.rows ⊆ (r.executed env d).2.records.rows := by
  obtain ⟨ws, hout, -, hdb⟩ := executed_outcome r env d
  rw [hdb]
  exact replay_keeps_records (hout.keeps_records hr)

/-! ## Runs -/

/-- A pass, with what it found and what it left. -/
structure Pass where
  time : Time
  before : Database
  after : Database

/-- From `d` on, the sweep that startup leaves running makes these passes, on a
    clock that does not go back; between them other requests run. -/
inductive Background [Runtime] (settings : Settings) : Database → List Pass → Prop where
  | stop (d : Database) : Background settings d []
  | request {d ps} (r : Request) (env : Env) (hr : ∀ minAge, r ≠ .sweep minAge)
      (hrest : Background settings (r.executed env d).2 ps) : Background settings d ps
  | pass {d ps} (env : Env) (hclock : ∀ p ∈ ps, env.clock 0 ≤ p.time)
      (hrest : Background settings ((lifespan settings).pass.executed env d).2 ps) :
      Background settings d (⟨env.clock 0, d, ((lifespan settings).pass.executed env d).2⟩ :: ps)

/-- No pass deletes a record that is younger than the configured window. -/
def WindowRespected (settings : Settings) (ps : List Pass) : Prop :=
  ∀ p ∈ ps, ∀ r ∈ p.before.records.rows, r ∉ p.after.records.rows →
    settings.idempotencyMinAgeMinutes * 60 * 1000000 ≤ p.time - r.createdAt

/-- The inspection endpoint reports that the record is swept at `t`. -/
def Database.Reports (d : Database) (r : IdempotencyRecord) (t : Time) : Prop :=
  ∃ response, d.getIdempotencyKeyEndpoint r.id.tenantId r.id.endpoint r.id.key =
    .idempotencyKey response ∧ response.sweptAt = t

/-- The passes keep to the deadlines that are reported. -/
structure DeadlinesKept (d : Database) (ps : List Pass) : Prop where
  /-- A pass deletes what was due before it, and only that. -/
  due : ∀ p ∈ ps, ∀ r ∈ p.before.records.rows, ∃ t, p.before.Reports r t ∧
    (r ∉ p.after.records.rows ↔ t < p.time)
  /-- It touches nothing else. -/
  untouched : ∀ p ∈ ps, p.after = { p.before with records := p.after.records } ∧
    p.after.records.rows.Sublist p.before.records.rows
  /-- A record stays until the first pass after its deadline. -/
  first : ∀ r ∈ d.records.rows, ∃ t, d.Reports r t ∧ ∀ qs p rest, ps = qs ++ p :: rest →
    (∀ q ∈ qs, q.time ≤ t) → r ∈ p.before.records.rows ∧ (r ∉ p.after.records.rows ↔ t < p.time)

section runs

variable [Runtime] {settings : Settings} {d : Database} {ps : List Pass} {p : Pass}
  {r : IdempotencyRecord}

omit [Runtime] in
theorem reports_deadline (hr : r ∈ d.records.rows) :
    d.Reports r (r.createdAt + DEFAULT_MIN_AGE) := by
  have hfind : d.records.find? ⟨r.id.tenantId, r.id.endpoint, r.id.key⟩ = some r :=
    Table.find?_of_mem hr
  refine ⟨.fromRow r DEFAULT_MIN_AGE, ?_, rfl⟩
  unfold Database.getIdempotencyKeyEndpoint
  rw [hfind]

/-- What a pass of the application leaves: the settings do not matter. -/
theorem after_pass (settings : Settings) (env : Env) (d : Database) :
    ((lifespan settings).pass.executed env d).2 =
      d.apply (.deleteRecords (d.swept (env.clock 0 - DEFAULT_MIN_AGE))) := by
  obtain ⟨result, hrun⟩ := executed_sweep env d DEFAULT_MIN_AGE
  exact congrArg Prod.snd hrun

/-- It deletes what was due before it. -/
theorem mem_pass (settings : Settings) (env : Env) (hr : r ∈ d.records.rows) :
    r ∉ ((lifespan settings).pass.executed env d).2.records.rows ↔
      r.createdAt + DEFAULT_MIN_AGE < env.clock 0 := by
  rw [after_pass]
  show r ∉ (d.records.erase _).rows ↔ _
  rw [Table.mem_erase, not_and, not_not]
  have hswept : r.id ∈ d.swept (env.clock 0 - DEFAULT_MIN_AGE) ↔
      r.createdAt + DEFAULT_MIN_AGE < env.clock 0 := (mem_swept hr).trans lt_sub_iff_add_lt
  exact ⟨fun h => hswept.mp (h hr), fun hdue _ => hswept.mpr hdue⟩

/-- **Run lemma**: the first pass after the deadline deletes the record. -/
theorem Background.first (h : Background settings d ps) (hr : r ∈ d.records.rows)
    {qs rest : List Pass}
    (hps : ps = qs ++ p :: rest) (hqs : ∀ q ∈ qs, q.time ≤ r.createdAt + DEFAULT_MIN_AGE) :
    r ∈ p.before.records.rows ∧
      (r ∉ p.after.records.rows ↔ r.createdAt + DEFAULT_MIN_AGE < p.time) := by
  induction h generalizing qs with
  | stop => simp at hps
  | request r' env hother _ ih => exact ih (executed_keeps_records hother env _ hr) hps hqs
  | pass env _ _ ih =>
    cases qs with
    | nil =>
      obtain ⟨rfl, -⟩ := List.cons.inj hps
      exact ⟨hr, mem_pass _ env hr⟩
    | cons q qs =>
      obtain ⟨rfl, htail⟩ := List.cons.inj hps
      -- it was not due at this pass, so it is there at the next one
      have hwaits := not_lt.mpr (hqs _ List.mem_cons_self)
      have hkept := not_not.mp (mt (mem_pass settings env hr).mp hwaits)
      exact ih hkept htail fun q hq => hqs q (List.mem_cons_of_mem _ hq)

/-- Every pass of a run is a pass of the application from what it found. -/
theorem Background.passes (h : Background settings d ps) (hp : p ∈ ps) : ∃ env : Env,
    p.time = env.clock 0 ∧ p.after = ((lifespan settings).pass.executed env p.before).2 := by
  induction h with
  | stop => cases hp
  | request _ _ _ _ ih => exact ih hp
  | pass env _ _ ih =>
    rcases List.mem_cons.mp hp with rfl | hp
    · exact ⟨env, rfl, rfl⟩
    · exact ih hp

/-- **Deadlines** are kept, whatever the window. -/
theorem Background.deadlines (h : Background settings d ps) : DeadlinesKept d ps where
  due p hp r hr := by
    obtain ⟨env, htime, hafter⟩ := h.passes hp
    rw [htime, hafter]
    exact ⟨_, reports_deadline hr, mem_pass _ env hr⟩
  untouched p hp := by
    obtain ⟨env, -, hafter⟩ := h.passes hp
    rw [hafter, after_pass]
    exact ⟨rfl, List.filter_sublist⟩
  first r hr := ⟨_, reports_deadline hr, fun _ _ _ hps hqs => h.first hr hps hqs⟩

/-- A window within the age of the sweep is respected. -/
theorem Background.window (h : Background settings d ps)
    (hwindow : settings.idempotencyMinAgeMinutes ≤ 24 * 60) : WindowRespected settings ps := by
  intro p hp r hr hgone
  obtain ⟨env, htime, hafter⟩ := h.passes hp
  rw [hafter, mem_pass settings env hr, ← htime] at hgone
  have hage : DEFAULT_MIN_AGE < p.time - r.createdAt := lt_sub_iff_add_lt'.mpr hgone
  refine le_trans ?_ hage.le
  show _ ≤ (24 * 3600 * 1000000 : Int)
  omega

/-- A database with one record. -/
def Database.keeping (r : IdempotencyRecord) : Database :=
  { Database.empty with records := .single r }

/-- A record from the start of the clock. -/
def earliest : IdempotencyRecord :=
  { id := ⟨"acme", ENDPOINT, "k"⟩,
    requestFingerprint := "44136fa355b3678a1146ad16f7e8649e94fb4fc21fe77e8310c060f61caaff8a",
    responseJson := "{}", statusCode := 200, createdAt := 0 }

/-- The first instant at which that record is swept. -/
def justDue : Env := ⟨fun _ => DEFAULT_MIN_AGE + 1, fun n => n⟩

/-- One pass, as early as it deletes the record. -/
theorem swept_early (settings : Settings) (hwindow : 24 * 60 < settings.idempotencyMinAgeMinutes) :
    ∃ p : Pass, Background settings (.keeping earliest) [p] ∧ p.time = DEFAULT_MIN_AGE + 1 ∧
      earliest ∈ p.before.records.rows ∧ earliest ∉ p.after.records.rows ∧
      p.time - earliest.createdAt < settings.idempotencyMinAgeMinutes * 60 * 1000000 := by
  have hmem : earliest ∈ (Database.keeping earliest).records.rows := List.mem_singleton.mpr rfl
  have hgone := (mem_pass settings justDue hmem).mpr (by decide)
  refine ⟨_, .pass justDue (by simp) (.stop _), rfl, hmem, hgone, ?_⟩
  show (24 * 3600 * 1000000 + 1 : Int) - 0 < _
  omega

/-- **The sweep** keeps to the deadlines the inspection endpoint reports, in
    every run of the application; it respects the configured window just when
    the window is no longer than the day the sweeper defaults to. -/
theorem window_respected_iff (settings : Settings) :
    (∀ d ps, Background settings d ps → DeadlinesKept d ps) ∧
    ((∀ d ps, Background settings d ps → WindowRespected settings ps ∧ DeadlinesKept d ps) ↔
      settings.idempotencyMinAgeMinutes ≤ 24 * 60) := by
  refine ⟨fun d ps h => h.deadlines, fun hall => ?_, fun hwindow d ps h => ?_⟩
  · by_contra hlong
    obtain ⟨p, hrun, -, hmem, hgone, hyoung⟩ := swept_early settings (not_le.mp hlong)
    have hold := (hall _ [p] hrun).1 p List.mem_cons_self earliest hmem hgone
    exact absurd hyoung (not_lt.mpr hold)
  · exact ⟨h.window hwindow, h.deadlines⟩

end runs

section

open Sample

/-- A window of two days, and a record that is swept after one. -/
theorem window_of_two_days :
    (∃ p : Pass, Background ⟨2880⟩ (.keeping earliest) [p] ∧ p.time = 24 * 3600 * 1000000 + 1 ∧
      earliest ∈ p.before.records.rows ∧ earliest ∉ p.after.records.rows ∧
      p.time - earliest.createdAt < 2880 * 60 * 1000000) ∧
    ¬ ∀ (settings : Settings) (d : Database) (ps : List Pass), Background settings d ps →
      WindowRespected settings ps ∧ DeadlinesKept d ps := by
  obtain ⟨p, hrun, htime, hmem, hgone, hyoung⟩ := swept_early ⟨2880⟩ (by decide)
  refine ⟨⟨p, hrun, htime, hmem, hgone, hyoung⟩, fun hall => ?_⟩
  have hold := (hall ⟨2880⟩ _ [p] hrun).1 p List.mem_cons_self earliest hmem hgone
  exact absurd hyoung (not_lt.mpr hold)

end

end Ledger
