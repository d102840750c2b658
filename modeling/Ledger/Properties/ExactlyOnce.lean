import Ledger.Runs.Replays

/-! # A Key Executes at Most Once

    Keyed requests and sweeps, in any number and interleaved in any way.

    * **Record store**: `RecordStep`, what one commit may do to the records.
      A request adds one where there was none; a sweep removes old ones.
    * **Rely**: the commits of other sessions are such steps, and leave alone
      the records whose row locks are kept.
    * **Result**: `executes_once`.
-/

namespace Ledger

open ReadCommitted

section runs

variable {ι : Type} [Runtime]

/-- What a commit does to the records of the database it finds. -/
inductive RecordStep (requests : ι → Request) (d : Database) (e : Entry ι Write) : Prop where
  /-- A request is executed: its key was free, its record is added. -/
  | executed {stored : IdempotencyRecord} {reply : Reply}
      (hstores : (requests e.who).Stores reply stored) (hwrites : .insRecord stored ∈ e.writes)
      (hfree : d.records.find? stored.id = none)
      (hafter : (replay d e.writes).records = d.records.insert stored)
  /-- A sweep deletes records older than its minimal age. -/
  | swept {minAge : Time} {keys : List RecordKey} (hsweep : requests e.who = .sweep minAge)
      (hold : ∀ r ∈ d.records.rows, r.id ∈ keys → minAge < e.time - r.createdAt)
      (hafter : (replay d e.writes).records = d.records.erase keys)

/-- The commit of a keyed request finds its key free and leaves its record. -/
theorem RecordStep.of_keyed {requests : ι → Request} {d : Database} {e : Entry ι Write}
    {k : RecordKey} {body : Json} (h : RecordStep requests d e)
    (hkeyed : (requests e.who).keyed = some (k, body)) : ∃ stored reply,
    (requests e.who).Stores reply stored ∧ .insRecord stored ∈ e.writes ∧ stored.id = k ∧
      d.records.find? k = none ∧ (replay d e.writes).records.find? k = some stored := by
  cases h with
  | @executed stored reply hstores hwrites hfree hafter =>
    obtain ⟨body', hbody', -⟩ := hstores.keyed
    rw [hkeyed] at hbody'
    cases hbody'
    rw [hafter]
    exact ⟨stored, reply, hstores, hwrites, rfl, hfree, Table.find?_insert_self hfree⟩
  | swept hsweep => rw [hsweep] at hkeyed; cases hkeyed

/-- A record that a commit takes away was too old for a sweep. -/
theorem RecordStep.of_lost {requests : ι → Request} {d : Database} {e : Entry ι Write}
    {r : IdempotencyRecord} (h : RecordStep requests d e) (hfind : d.records.find? r.id = some r)
    (hlost : (replay d e.writes).records.find? r.id ≠ some r) :
    ∃ minAge, requests e.who = .sweep minAge ∧ minAge < e.time - r.createdAt ∧
      (replay d e.writes).records.find? r.id = none := by
  cases h with
  | executed _ _ _ hafter =>
    rw [hafter] at hlost
    exact absurd (Table.find?_insert_of_some hfind) hlost
  | @swept minAge keys hsweep hold hafter =>
    have hmem : r.id ∈ keys := by
      by_contra hout
      rw [hafter, Table.find?_erase_of_not_mem hout] at hlost
      exact hlost hfind
    rw [hafter]
    exact ⟨minAge, hsweep, hold r (Table.mem_of_find? hfind) hmem, Table.find?_erase_of_mem hmem⟩

namespace ExactlyOnce

/-- What other sessions may do while the locks `rs` are kept. -/
structure Rely (requests : ι → Request) (rs : List Resource) (g g' : Shared ι Database Write) :
    Prop where
  clock : g.clock ≤ g'.clock
  locked : ∀ k, .record k ∈ rs → g'.db.records.find? k = g.db.records.find? k
  commits : ∃ es, g'.wal = g.wal ++ es ∧ Commits (RecordStep requests) g.db es g'.db

/-- The rely, and as guarantee what the holders of other locks rely on. -/
def rg (requests : ι → Request) : RG ι Database Write Resource where
  rely := Rely requests
  allow := Sys.all
  guar _ tx g g' := ∀ rs, (∀ r ∈ rs, r ∉ tx.held) → Rely requests rs g g'
  rely_refl _ g := ⟨le_refl _, fun _ _ => rfl, [], by simp, .nil _⟩
  rely_trans := by
    rintro rs g₁ g₂ g₃ ⟨hclock, hlocked, es, hwal, hes⟩ ⟨hclock', hlocked', fs, hwal', hfs⟩
    exact ⟨hclock.trans hclock', fun k hk => (hlocked' k hk).trans (hlocked k hk), es ++ fs,
      by rw [hwal', hwal, List.append_assoc], hes.append hfs⟩
  rely_mono hsub h := { h with locked := fun k hk => h.locked k (hsub hk) }

theorem sound (requests : ι → Request) : (rg requests).Sound where
  tick _ _ _ ht := ⟨ht, fun _ _ => rfl, [], by simp, .nil _⟩
  commit _ _ _ hg rs hrs := hg rs hrs

variable {requests : ι → Request} {me : ι} {g₀ g : Shared ι Database Write}
  {tx : Tx Write Resource}

/-- A commit is within its guarantee if it is a step of the record store and
    keeps the locks of the records it changes. -/
theorem guar_of_step (hstep : RecordStep requests g.db ⟨me, g.clock, tx.log⟩)
    (hlocks : ∀ k, .record k ∉ tx.held →
      (replay g.db tx.log).records.find? k = g.db.records.find? k) :
    (rg requests).guar me tx g (g.commit me tx) := by
  intro rs hrs
  exact ⟨le_refl _, fun k hk => hlocks k (hrs _ hk), [⟨me, g.clock, tx.log⟩], rfl,
    .cons hstep (.nil _)⟩

/-- **An execution** keeps its guarantee: the insertion of its record, the
    last write, was admitted, and the key has been locked since. -/
theorem guar_of_record {pre : List Write} {stored : IdempotencyRecord} {reply : Reply}
    (hstores : (requests me).Stores reply stored) (hpre : ∀ w ∈ pre, w.table ≠ .records)
    (h : Progress (rg requests) (pre ++ [.insRecord stored]) g₀ {} g tx) :
    (rg requests).guar me tx g (g.commit me tx) := by
  have hlog : tx.log = pre ++ [.insRecord stored] := by simpa using h.log
  have hafter : (replay g.db tx.log).records = g.db.records.insert stored := by
    rw [hlog, replay_append]
    show (replay g.db pre).records.insert stored = _
    rw [Database.replay_records hpre]
  obtain ⟨gs, hs, -, hsince, hlocks, hheld, hadm⟩ := h.wrote pre (.insRecord stored) [] rfl
  have hlocked : .record stored.id ∈ hs := hlocks (by simp [Dbms.locks, Write.locks])
  have hfree : gs.db.records.find? stored.id = none := by
    rw [Database.dbms_admits] at hadm
    simpa [Database.constrain, Database.replay_records hpre] using hadm
  rw [← hsince.locked _ hlocked] at hfree
  refine guar_of_step (.executed hstores (by simp [hlog]) hfree hafter) fun k hk => ?_
  rw [hafter]
  refine Table.find?_insert_of_ne fun heq => hk ?_
  rw [key_record] at heq
  exact heq ▸ hheld hlocked

/-! ## Each Request Keeps Its Guarantee -/

theorem keeps_transfer {t key : String} {req : TransferRequest}
    (hme : requests me = .transfer t req key) : Keeps (rg requests) me (.transfer t req key) g := by
  rw [Keeps, Request.service, swp_map]
  refine swp_executeTransfer (mayRaise_trivial _ _) (fun _ _ _ _ _ _ _ _ _ => trivial)
    fun run _ => ⟨?_, trivial⟩
  have hstores : (requests me).Stores (.transfer 200 run.response) run.stored := by
    rw [hme]
    exact .transfer t req key run.response run.gR.clock
  have hpre : ∀ w ∈ run.ws ++ [.insOutbox run.event], w.table ≠ .records := by
    intro w hw
    rcases List.mem_append.mp hw with hw | hw
    · rcases run.moved.tables.2 w hw with h | h | h | h <;> simp [h]
    · simp [List.mem_singleton.mp hw, Write.table]
  exact guar_of_record hstores hpre (by simpa using run.whole)

theorem keeps_placeHold {t key : String} {req : PlaceHoldRequest}
    (hme : requests me = .placeHold t req key) :
    Keeps (rg requests) me (.placeHold t req key) g := by
  rw [Keeps, Request.service, swp_map]
  refine swp_placeHold (mayRaise_trivial _ _) (fun _ _ _ _ _ _ _ _ _ => trivial)
    fun run _ => ⟨?_, trivial⟩
  have hstores : (requests me).Stores (.placed 200 run.response) run.stored := by
    rw [hme]
    exact .placeHold t req key run.response run.gR.clock
  have hpre : ∀ w ∈ [Write.insHold run.hold], w.table ≠ .records := by
    intro w hw
    simp [List.mem_singleton.mp hw, Write.table]
  exact guar_of_record hstores hpre run.whole

theorem keeps_reverse {t key : String} {txn : UUID} {req : ReverseTransactionRequest}
    (hme : requests me = .reverse t txn req key) :
    Keeps (rg requests) me (.reverse t txn req key) g := by
  rw [Keeps, Request.service, swp_map]
  refine swp_reverseTransaction (mayRaise_trivial _ _) (fun _ _ _ _ _ _ _ _ _ => trivial)
    fun run _ => ⟨?_, fun _ => trivial⟩
  have hstores : (requests me).Stores (.reversal 200 run.response) run.stored := by
    rw [hme]
    exact .reverse t txn req key run.response run.gR.clock
  have hpre : ∀ w ∈ .insTransaction run.txn :: legWrites run.legs ++ [.insOutbox run.event],
      w.table ≠ .records := by
    intro w hw
    rcases List.mem_append.mp hw with hw | hw
    · rcases List.mem_cons.mp hw with rfl | hw
      · simp [Write.table]
      · rcases table_legWrites hw with h | h <;> simp [h]
    · simp [List.mem_singleton.mp hw, Write.table]
  exact guar_of_record hstores hpre (by simpa [ReverseRun.ws] using run.whole)

/-- The records a sweep deletes have been locked since it saw them to be old. -/
theorem keeps_sweep {minAge : Time} (hme : requests me = .sweep minAge) :
    Keeps (rg requests) me (.sweep minAge) g := by
  rw [Keeps, Request.service, swp_map]
  refine swp_sweepOnce (mayRaise_trivial _ _) fun run _ => ⟨?_, fun _ _ => trivial⟩
  have hafter : (replay run.g.db run.tx.log).records = run.g.db.records.erase run.keys := by
    rw [run.log]
    rfl
  refine guar_of_step (.swept hme (fun r hr hmem => ?_) hafter) fun k hk => ?_
  · -- the row at the commit is the one the deletion saw
    have hlocked := run.finish.rely.locked r.id (run.locked r.id hmem)
    obtain ⟨r', hr', heq⟩ := List.mem_map.mp hmem
    simp only [List.mem_filter, decide_eq_true_eq] at hr'
    have hseen := Table.find?_of_mem hr'.1
    have hrow := Table.find?_of_mem hr
    rw [key_record, heq, ← hlocked] at hseen
    rw [key_record, hseen] at hrow
    cases hrow
    have hclock : run.gN.clock ≤ run.g.clock :=
      run.deleted.rely.clock.trans run.finish.rely.clock
    have hold : r.createdAt < run.gN.clock - minAge := hr'.2
    exact lt_sub_comm.mp (hold.trans_le (sub_le_sub_right hclock _))
  · rw [hafter]
    exact Table.find?_erase_of_not_mem fun hmem => hk (run.finish.held (run.locked k hmem))

end ExactlyOnce

/-! ## Result -/

/-- A keyed request, or a sweep. -/
def Request.KeyedOrSweep : Request → Prop
  | .transfer .. | .placeHold .. | .reverse .. | .sweep .. => True
  | _ => False

/-- The session of a request runs its lookup, and that is the end of it:
    nothing changes, then or later. -/
structure EndsUnchanged [DecidableEq ι] (s : Sys ι Database Write Resource Err Reply) (j : ι)
    (outcome : Prog Database Write Resource Err Reply) : Prop where
  shared : ∀ u, (s.advance j u).shared = s.shared
  outcome : ∀ u, ((s.advance j u).sess j).prog = outcome
  later : ∀ u s', Sys.Reachable Sys.all (s.advance j u) s' →
    ∃ es, s'.shared.wal = s.shared.wal ++ es ∧ ∀ e ∈ es, e.who ≠ j

/-- Each key executed at most once, sweeps apart, in the run up to `s`. -/
structure ExecutedOnce [DecidableEq ι] (requests : ι → Request) (d : Database)
    (s : Sys ι Database Write Resource Err Reply) : Prop where
  /-- Between two commits of requests with one key, a sweep deleted the record
      of the first, which was older than the sweep's minimal age. -/
  once : ∀ es₁ e es₂ e' es₃ k body body', s.shared.wal = es₁ ++ e :: (es₂ ++ e' :: es₃) →
    (requests e.who).keyed = some (k, body) → (requests e'.who).keyed = some (k, body') →
    ∃ stored fs p fs' minAge, .insRecord stored ∈ e.writes ∧ stored.id = k ∧
      es₂ = fs ++ p :: fs' ∧ requests p.who = .sweep minAge ∧
      (afterCommits d (es₁ ++ e :: fs)).records.find? k = some stored ∧
      (afterCommits d (es₁ ++ e :: fs ++ [p])).records.find? k = none ∧
      minAge < p.time - stored.createdAt
  /-- A request commits its reply as the record of its key. -/
  stores : ∀ e ∈ s.shared.wal, ∀ k body, (requests e.who).keyed = some (k, body) →
    ∃ stored reply, .insRecord stored ∈ e.writes ∧ (requests e.who).Stores reply stored
  /-- A request whose lookup sees the record of an executed request gets its
      reply, or a conflict if its own body is another. -/
  answers : ∀ (r : Request) reply stored body, r.Stores reply stored →
    r.keyed = some (stored.id, body) →
    ∀ j body', (requests j).keyed = some (stored.id, body') →
      s.sess j = ⟨(requests j).program, {}⟩ →
      s.shared.db.records.find? stored.id = some stored →
      (body' = body → EndsUnchanged s j (.ret reply)) ∧
      (body' ≠ body → EndsUnchanged s j (.fail (Request.conflict stored.id.key)))

/-- **A key executes at most once.** -/
theorem executes_once [DecidableEq ι] (requests : ι → Request)
    (hreq : ∀ i, (requests i).KeyedOrSweep) (hsha : Function.Injective Runtime.sha256)
    (htimes : Runtime.TimesRoundTrip) (d : Database) (clock : Time)
    {s : Sys ι Database Write Resource Err Reply}
    (hr : Sys.Reachable Sys.all (serve requests d clock) s) : ExecutedOnce requests d s := by
  have hk : ∀ i, Keeps (ExactlyOnce.rg requests) i (requests i) ⟨d, clock, []⟩ := by
    intro i
    have := hreq i
    cases hri : requests i with
    | transfer t req key => exact ExactlyOnce.keeps_transfer hri
    | placeHold t req key => exact ExactlyOnce.keeps_placeHold hri
    | reverse t txn req key => exact ExactlyOnce.keeps_reverse hri
    | sweep minAge => exact ExactlyOnce.keeps_sweep hri
    | _ => rw [hri] at this; exact this.elim
  obtain ⟨-, -, -, es, hwal, hcommits⟩ := serve_reachable (ExactlyOnce.sound requests) hk hr
  rw [List.nil_append] at hwal
  subst hwal
  refine ⟨?_, ?_, ?_⟩
  · intro es₁ e es₂ e' es₃ k body body' hwal hkeyed hkeyed'
    rw [hwal] at hcommits
    obtain ⟨stored, reply, -, hwrites, hid, -, hfound⟩ := hcommits.at_entry.of_keyed hkeyed
    subst hid
    -- the commits between the two
    cases hcommits.split.2 with
    | cons _ hrest =>
      have hbetween := hrest.split.1
      obtain ⟨-, -, -, -, -, hfree, -⟩ := hrest.at_entry.of_keyed hkeyed'
      -- the second one found no record, so a commit between them lost it
      obtain ⟨fs, p, fs', rfl, hstep, hlive, hlost⟩ :=
        hbetween.exists_loss (Q := fun d => d.records.find? stored.id = some stored) hfound
          (by simp [hfree])
      obtain ⟨minAge, hsweep, hold, hgone⟩ := hstep.of_lost hlive hlost
      refine ⟨stored, fs, p, fs', minAge, hwrites, rfl, rfl, hsweep, ?_, ?_, hold⟩
      · rwa [afterCommits_append, afterCommits_cons]
      · rw [afterCommits_append, afterCommits_append, afterCommits_cons]
        simpa [afterCommits_cons] using hgone
  · intro e he k body hkeyed
    obtain ⟨es₁, es₂, hwal⟩ := List.append_of_mem he
    rw [hwal] at hcommits
    obtain ⟨stored, reply, hstores, hwrites, -⟩ := hcommits.at_entry.of_keyed hkeyed
    exact ⟨stored, reply, hwrites, hstores⟩
  · intro r reply stored body hstores hkeyed j body' hkeyed' hsess hfind
    have hlookup := replay_lookup hsess hkeyed' hfind
    have hends := Request.replayed_of_stores hsha htimes hstores hkeyed hkeyed'
    have hunchanged : ∀ outcome, (requests j).replayed stored.id.key body' stored = outcome →
        ((∃ a, outcome = .ret a) ∨ ∃ e, outcome = .fail e) → EndsUnchanged s j outcome := by
      intro outcome heq hfin
      refine ⟨fun u => (hlookup u).1, fun u => (hlookup u).2.trans heq, fun u s' hr' => ?_⟩
      have hfinished : (s.advance j u).Finished j := by
        rw [Sys.Finished, (hlookup u).2, heq]
        exact hfin
      obtain ⟨-, es, hwal, hes⟩ := hfinished.reachable hr'
      exact ⟨es, by rw [hwal, (hlookup u).1], hes⟩
    exact ⟨fun heq => hunchanged _ (hends.1 heq) (.inl ⟨_, rfl⟩),
      fun hne => hunchanged _ (hends.2 hne) (.inr ⟨_, rfl⟩)⟩

end runs

open Sample

/-- A payment, a sweep, and the payment again. -/
def retried : Fin 3 → Request
  | 0 => pay bob 60 "t1" sixty_pos
  | 1 => .sweep DEFAULT_MIN_AGE
  | 2 => pay bob 60 "t1" sixty_pos

/-- A day later the key is free again. -/
theorem executes_once_retried : ∃ s, Sys.Reachable Sys.all (serve retried funded 0) s ∧
    s.shared.wal.map Entry.who = [0, 1, 2] ∧ ExecutedOnce retried funded s := by
  obtain ⟨s, hr, hp⟩ := Sys.Reachable.of_exec (s := serve retried funded 0)
    (Sys.turns 0 2000 40 ++ .tick 90000000000 :: Sys.turns 1 3000 10 ++ Sys.turns 2 4000 40)
    (fun s => s.shared.wal.map Entry.who == [0, 1, 2]) (by decide +kernel)
  exact ⟨s, hr, by simpa using hp, executes_once retried
    (fun | 0 => trivial | 1 => trivial | 2 => trivial) Sample.sha256_injective
    Sample.timesRoundTrip funded 0 hr⟩

end Ledger
