import Ledger.Properties.Representation

/-! # Reversing a Transaction Once

    Reversals, in any number and interleaved in any way.  Each looks for an
    earlier reversal with a plain `SELECT`, and the schema has no constraint
    on `corrects_id`.

    * **State**: `Corrected`, at most one reversal of each transaction, and
      none of a reversal.
    * **Condition**: `Unraced`, no other reversal of the transaction commits
      between the first statement of a reversal and its commit.
-/

namespace Ledger

open ReadCommitted

/-- Each transaction has one reversal at most, of its own tenant, and a
    reversal has none. -/
structure Corrected (d : Database) : Prop where
  once : ∀ x ∈ d.transactions.rows, ∀ y ∈ d.transactions.rows, ∀ t,
    x.correctsId = some t → y.correctsId = some t → x = y
  plain : ∀ x ∈ d.transactions.rows, ∀ t, x.correctsId = some t →
    ∃ o ∈ d.transactions.rows, o.id = t ∧ o.correctsId = none ∧ o.tenantId = x.tenantId

theorem Corrected.empty : Corrected .empty := by
  constructor <;> simp [Database.empty]

/-- A new reversal of a plain transaction that has none. -/
theorem Corrected.insert {d d' : Database} (h : Corrected d) {txn o : Transaction} {t : UUID}
    (hrows : ∀ x, x ∈ d'.transactions.rows ↔ x ∈ d.transactions.rows ∨
      (x = txn ∧ d.transactions.find? txn.id = none))
    (htxn : txn.correctsId = some t) (ho : o ∈ d.transactions.rows) (hot : o.id = t)
    (hplain : o.correctsId = none) (htenant : o.tenantId = txn.tenantId)
    (hnone : ∀ x ∈ d.transactions.rows, x.correctsId ≠ some t) : Corrected d' := by
  constructor
  · intro x hx y hy u hxu hyu
    rcases (hrows x).mp hx with hx | ⟨rfl, -⟩ <;> rcases (hrows y).mp hy with hy | ⟨rfl, -⟩
    · exact h.once x hx y hy u hxu hyu
    · rw [htxn] at hyu
      cases hyu
      exact absurd hxu (hnone x hx)
    · rw [htxn] at hxu
      cases hxu
      exact absurd hyu (hnone y hy)
    · rfl
  · intro x hx u hxu
    rcases (hrows x).mp hx with hx | ⟨rfl, -⟩
    · obtain ⟨p, hp, hpu, hpn, hpt⟩ := h.plain x hx u hxu
      exact ⟨p, (hrows p).mpr (.inl hp), hpu, hpn, hpt⟩
    · rw [htxn] at hxu
      cases hxu
      exact ⟨o, (hrows o).mpr (.inl ho), hot, hplain, htenant⟩

/-- **Step lemma**: a request that runs alone keeps the reversals single. -/
theorem Corrected.step [Runtime] {d₀ d d' : Database} {r : Request} (h : Corrected d)
    (hstep : LedgerStep d₀ r d d') : Corrected d' := by
  cases hstep with
  | plain hw =>
    have htransactions := Database.apply_transactions (d := d) hw.2.2.1
    exact ⟨htransactions ▸ h.once, htransactions ▸ h.plain⟩
  | opened a hadm => exact ⟨h.once, h.plain⟩
  | @posted tenantId specs c txn legs hacc htransactions hposts hblock =>
    obtain ⟨-, hrows, -, hfresh⟩ := hblock.rows
    have hmem : ∀ x, x ∈ (replay d (.insTransaction txn :: legWrites legs)).transactions.rows ↔
        x ∈ d.transactions.rows ∨ (x = txn ∧ d.transactions.find? txn.id = none) := by
      intro x
      rw [hrows, List.mem_append, List.mem_singleton]
      simp [Table.find?_eq_none_iff.mpr hfresh]
    cases c with
    | none =>
      constructor
      · intro x hx y hy t hxt hyt
        have hplain : ∀ z ∈ (replay d (.insTransaction txn :: legWrites legs)).transactions.rows,
            z.correctsId = some t → z ∈ d.transactions.rows := by
          intro z hz hzt
          rcases (hmem z).mp hz with hz | ⟨rfl, -⟩
          · exact hz
          · rw [hblock.corrects] at hzt; cases hzt
        exact h.once x (hplain x hx hxt) y (hplain y hy hyt) t hxt hyt
      · intro x hx t hxt
        rcases (hmem x).mp hx with hx | ⟨rfl, -⟩
        · obtain ⟨o, ho, hot, hon, hott⟩ := h.plain x hx t hxt
          exact ⟨o, (hmem o).mpr (.inl ho), hot, hon, hott⟩
        · rw [hblock.corrects] at hxt; cases hxt
    | some id =>
      have hsame := htransactions (by simp)
      cases hposts with
      | reversal hfound htenant hplain hunreversed =>
        rw [← hsame] at hfound
        refine h.insert hmem hblock.corrects (Table.mem_of_find? hfound) (Table.key_of_find? hfound)
          hplain (htenant.trans hblock.tenant.symm) fun x hx hxid => ?_
        -- an earlier reversal would be of the same tenant, and found
        obtain ⟨o, ho, hoid, -, hot⟩ := h.plain x hx id hxid
        have horig := Table.eq_of_key_eq _ ho (Table.mem_of_find? hfound)
          (hoid.trans (Table.key_of_find? hfound).symm)
        have hseen : x ∈ d₀.reversalsOf tenantId id := by
          rw [← htenant, ← horig, hot]
          simp [Database.reversalsOf, ← hsame, hx, hxid]
        rw [hunreversed] at hseen
        cases hseen

/-- In every reachable state the reversals are single. -/
theorem corrected_of_reached [Runtime] {ok : Database → Request → Prop} {d : Database}
    (h : Reached ok d) : Corrected d := by
  induction h with
  | empty => exact .empty
  | @step d r env _ _ ih =>
    have hsteps := executed_steps r env d
    generalize (r.executed env d).2 = d' at hsteps
    induction hsteps with
    | refl => exact ih
    | tail _ hstep ih => exact Corrected.step ih hstep

/-! ## Condition -/

/-- Since the first statement of the session, no other commit reversed the
    transaction it is about to reverse. -/
def Unraced {ι : Type} : Sys.Allow ι Database Write Resource := fun _ tx g =>
  ∀ txn t, .insTransaction txn ∈ tx.log → txn.correctsId = some t →
    ∀ e ∈ g.wal.drop tx.began, ∀ txn', .insTransaction txn' ∈ e.writes → txn'.correctsId ≠ some t

theorem unraced_of_quiet {ι : Type} (i : ι) (tx : Tx Write Resource)
    (g : Shared ι Database Write) (h : g.wal.drop tx.began = []) : Unraced i tx g := by
  intro txn t _ _ e he
  rw [h] at he
  cases he

namespace SingleReversal

variable {ι : Type}

/-- What any stretch of commits does, whoever keeps which locks. -/
structure Rely (g g' : Shared ι Database Write) : Prop where
  /-- Transactions are only added, each by a commit of the stretch. -/
  grows : ∃ es, g'.wal = g.wal ++ es ∧ g.db.transactions.rows ⊆ g'.db.transactions.rows ∧
    ∀ x ∈ g'.db.transactions.rows, x ∈ g.db.transactions.rows ∨
      ∃ e ∈ es, .insTransaction x ∈ e.writes
  corrected : Corrected g.db → Corrected g'.db

def rg (ι : Type) : RG ι Database Write Resource where
  rely _ := Rely
  allow := Unraced
  guar _ _ := Rely
  rely_refl _ _ := ⟨⟨[], by simp, fun _ h => h, fun _ h => .inl h⟩, id⟩
  rely_trans := by
    rintro _ g₁ g₂ g₃ ⟨⟨es, hwal, hsub, hnew⟩, hc⟩ ⟨⟨fs, hwal', hsub', hnew'⟩, hc'⟩
    refine ⟨⟨es ++ fs, by rw [hwal', hwal, List.append_assoc], fun _ h => hsub' (hsub h),
      fun x hx => ?_⟩, fun h => hc' (hc h)⟩
    rcases hnew' x hx with hx | ⟨e, he, hw⟩
    · rcases hnew x hx with hx | ⟨e, he, hw⟩
      · exact .inl hx
      · exact .inr ⟨e, by simp [he], hw⟩
    · exact .inr ⟨e, by simp [he], hw⟩
  rely_mono _ h := h

theorem sound : (rg ι).Sound where
  tick _ _ _ _ := ⟨⟨[], by simp, fun _ h => h, fun _ h => .inl h⟩, id⟩
  commit _ _ _ hg _ _ := hg

/-- The transactions after the writes of a reversal. -/
theorem mem_transactions [Runtime] {rg : RG ι Database Write Resource} {tenantId key : String}
    {id : UUID} {req : ReverseTransactionRequest} {g : Shared ι Database Write}
    (run : ReverseRun rg tenantId id req key g) (d : Database) (x : Transaction) :
    x ∈ (replay d run.ws).transactions.rows ↔ x ∈ d.transactions.rows ∨
      (x = run.txn ∧ d.transactions.find? run.txn.id = none) := by
  have hrest : (replay d run.ws).transactions =
      (d.apply (.insTransaction run.txn)).transactions := by
    rw [ReverseRun.ws, List.cons_append, replay_cons]
    refine Database.replay_transactions fun w hw => ?_
    simp only [List.mem_append, List.mem_cons, List.not_mem_nil, or_false] at hw
    rcases hw with hw | rfl | rfl
    · rcases table_legWrites hw with h | h <;> simp [h]
    · simp [Write.table]
    · simp [Write.table]
  rw [hrest]
  exact Table.mem_insert

/-- A reversal that nobody raced. -/
theorem keeps_reverse [Runtime] {me : ι} {g : Shared ι Database Write} (hstart : Corrected g.db)
    {tenantId key : String} {id : UUID} {req : ReverseTransactionRequest} :
    Keeps (rg ι) me (.reverse tenantId id req key) g := by
  rw [Keeps, Request.service, swp_map]
  refine swp_reverseTransaction (mayRaise_trivial _ _) (fun _ _ _ _ _ _ _ _ _ => trivial)
    fun run hallow => ⟨?_, fun _ => trivial⟩
  have hlog := run.log
  have hcorrects : run.txn.correctsId = some id := run.posted.corrects
  have hins : Write.insTransaction run.txn ∈ run.tx.log := by rw [hlog, ReverseRun.ws]; simp
  have hrows := mem_transactions run run.g.db
  rw [← hlog] at hrows
  refine ⟨⟨[⟨me, run.g.clock, run.tx.log⟩], rfl, fun x hx => (hrows x).mpr (.inl hx),
    fun x hx => ?_⟩, fun hcorrected => ?_⟩
  · rcases (hrows x).mp hx with hx | ⟨rfl, -⟩
    · exact .inl hx
    · exact .inr ⟨_, List.mem_singleton.mpr rfl, hins⟩
  -- the original is still there and still plain
  have hT : Rely run.gT run.g :=
    (run.readExisting.trans run.sinceCheck).rely
  obtain ⟨⟨-, -, hsubT, -⟩, -⟩ := hT
  have horiginal := Table.mem_of_find? run.found
  have hkey : run.original.id = id := Table.key_of_find? run.found
  refine hcorrected.insert hrows hcorrects (hsubT horiginal) hkey run.original_plain
    (run.original_tenant.trans run.posted.tenant.symm) fun x hx hxid => ?_
  -- a reversal there is now would have been seen by the check, or came later
  have hX : Rely run.gX run.g := run.sinceCheck.rely
  obtain ⟨⟨es, hwal, -, hnew⟩, -⟩ := hX
  rcases hnew x hx with hx | ⟨e, he, hw⟩
  · have hbefore : Rely g run.gX :=
      ((run.lookup.trans run.readOriginal).trans run.readExisting).rely
    have htenant : x.tenantId = tenantId := by
      obtain ⟨o, ho, hoid, -, hot⟩ := (hbefore.corrected hstart).plain x hx id hxid
      have hTX : Rely run.gT run.gX := run.readExisting.rely
      obtain ⟨⟨-, -, hsub, -⟩, -⟩ := hTX
      have : o = run.original :=
        Table.eq_of_key_eq _ ho (hsub horiginal) (hoid.trans hkey.symm)
      rw [← hot, this]
      exact run.original_tenant
    have hseen : x ∈ run.gX.db.reversalsOf tenantId id := by
      simp [Database.reversalsOf, hx, htenant, hxid]
    rw [run.unreversed] at hseen
    cases hseen
  · have hfromL := (((run.readOriginal.trans run.readExisting).trans run.sinceCheck))
    obtain ⟨-, hbegan⟩ := start_of_began run.began hfromL
    have hLX : Rely run.gL run.gX := (run.readOriginal.trans run.readExisting).rely
    obtain ⟨⟨fs, hwalX, -, -⟩, -⟩ := hLX
    refine hallow run.txn id hins hcorrects e ?_ x hw hxid
    rw [hbegan, hwal, hwalX, List.append_assoc, List.drop_left]
    simp [he]

end SingleReversal

/-- The requests that reverse transactions. -/
def Request.Reverses : Request → Prop
  | .reverse .. => True
  | _ => False

/-- **At most one reversal for each transaction** in every run whose commits
    are all unraced. -/
theorem reversed_once [Runtime] {ι : Type} [DecidableEq ι] (requests : ι → Request)
    (hreq : ∀ i, (requests i).Reverses) (d : Database) (clock : Time) (hstart : Corrected d)
    {s : Sys ι Database Write Resource Err Reply}
    (hr : Sys.Reachable Unraced (serve requests d clock) s) :
    (∀ t, (s.shared.db.transactions.rows.filter fun x => x.correctsId = some t).length ≤ 1) ∧
    ∀ x ∈ s.shared.db.transactions.rows, ∀ o ∈ s.shared.db.transactions.rows,
      x.correctsId = some o.id → o.correctsId = none := by
  have hk : ∀ i, Keeps (SingleReversal.rg ι) i (requests i) ⟨d, clock, []⟩ := by
    intro i
    have := hreq i
    cases hri : requests i with
    | reverse tenantId id req key => exact SingleReversal.keeps_reverse hstart
    | _ => rw [hri] at this; exact this.elim
  obtain ⟨-, -, hcorrected⟩ := serve_reachable SingleReversal.sound hk hr
  have hc := hcorrected hstart
  constructor
  · intro t
    have hnodup : (s.shared.db.transactions.rows.filter fun x => x.correctsId = some t).Nodup :=
      (List.Nodup.of_map _ s.shared.db.transactions.nodup).filter _
    match hl : s.shared.db.transactions.rows.filter fun x => x.correctsId = some t with
    | [] => simp [hl]
    | [x] => simp [hl]
    | x :: y :: rest =>
      have hx : x ∈ s.shared.db.transactions.rows.filter fun x => x.correctsId = some t := by
        simp [hl]
      have hy : y ∈ s.shared.db.transactions.rows.filter fun x => x.correctsId = some t := by
        simp [hl]
      simp only [List.mem_filter, decide_eq_true_eq] at hx hy
      have hxy := hc.once x hx.1 y hy.1 t hx.2 hy.2
      rw [hl, hxy] at hnodup
      simp at hnodup
  · intro x hx o ho hxo
    obtain ⟨p, hp, hpo, hpn, -⟩ := hc.plain x hx o.id hxo
    rwa [Table.eq_of_key_eq _ ho hp hpo.symm]

open Sample

/-- Two reversals of the funding, under different keys. -/
def reverseTwice : Fin 2 → Request
  | 0 => reverse funding "r1"
  | 1 => reverse funding "r2"

/-- One after the other, the second finds the first. -/
theorem reversed_once_in_turn : ∃ s, Sys.Reachable Unraced (serve reverseTwice funded 0) s ∧
    (s.shared.db.reversalsOf "acme" funding).length = 1 ∧
    ∀ t, (s.shared.db.transactions.rows.filter fun x => x.correctsId = some t).length ≤ 1 := by
  obtain ⟨s, hr, hp⟩ := Sys.Reachable.of_quiet_exec (s := serve reverseTwice funded 0)
    unraced_of_quiet (Sys.turns 0 2000 40 ++ Sys.turns 1 3000 40)
    (fun s => (s.shared.db.reversalsOf "acme" funding).length == 1) (by decide +kernel)
  have hreached : Reached (fun d r => r.Proper d) funded := Reached.empty.script (by decide +kernel)
  have hcorrected := corrected_of_reached hreached
  exact ⟨s, hr, by simpa using hp, (reversed_once reverseTwice
    (fun | 0 => trivial | 1 => trivial) funded 0 hcorrected hr).1⟩

/-- The first looks for a reversal, then the second runs to its commit, then
    the first goes on: the funding is reversed twice. -/
theorem reversed_twice : ∃ s, Sys.Reachable Sys.all (serve reverseTwice funded 0) s ∧
    (s.shared.db.transactions.rows.filter fun x => x.correctsId = some funding).length = 2 := by
  obtain ⟨s, hr, hp⟩ := Sys.Reachable.of_exec (s := serve reverseTwice funded 0)
    (Sys.turns 0 2000 4 ++ Sys.turns 1 3000 40 ++ Sys.turns 0 2100 40)
    (fun s => (s.shared.db.transactions.rows.filter
      fun x => x.correctsId = some funding).length == 2) (by decide +kernel)
  exact ⟨s, hr, by simpa using hp⟩

end Ledger
