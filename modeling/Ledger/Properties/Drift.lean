import Ledger.Framework.Solo
import Ledger.Properties.Endpoints
import Ledger.Properties.Integrity
import Ledger.Properties.Provenance

/-! # What a Drift Alert Means

    `check_balance_drift` (`api/observability.py`) compares the snapshot of an
    account with the sum of its postings.  It reads the two by two statements,
    and others may commit between them.

    * **Check**: `checkBalanceDrift`; `Party`, a request or a check.
    * **Postings**: `posted`, what commits post on an account.
    * **Result**: `drift_of_reachable`, a drift is what the commits between the
      two reads have posted, never a disagreement of the books.
-/

namespace Ledger

open ReadCommitted

/-! ## The Check -/

/-- Authoritatively sum postings for an account (the slow, exact path). -/
def recompute (accountId : UUID) : Svc Int := Svc.select fun d _ => d.recompute accountId

/-- The drift (snapshot minus recompute) of an account, or `none` if it has no
    snapshot yet. -/
def checkBalanceDrift (tenantId : String) (accountId : UUID) : Svc (Option Int) := do
  let snapshot ← currentBalance tenantId accountId
  match snapshot with
  | none => return none
  | some snapshot =>
    let exact ← recompute accountId
    return some (snapshot - exact)

/-- What runs beside each other: requests, and checks of accounts. -/
inductive Party where
  | request (r : Request)
  | check (tenantId : String) (accountId : UUID)

/-- The program of a party; a check returns the drift. -/
def Party.program [Runtime] : Party → Prog Database Write Resource Err (Reply ⊕ Option Int)
  | .request r => r.program >>= fun reply => pure (.inl reply)
  | .check tenantId accountId =>
    checkBalanceDrift tenantId accountId {} >>= fun p => pure (.inr p.1)

/-- One session for each party, none of them started. -/
def observe [Runtime] {ι : Type} (parties : ι → Party) (d : Database) (clock : Time) :
    Sys ι Database Write Resource Err (Reply ⊕ Option Int) :=
  { shared := ⟨d, clock, []⟩, sess := fun i => ⟨(parties i).program, {}⟩ }

/-! ## Postings -/

section postings

variable {d : Database} {account : UUID} {ws : List Write}

/-- What writes post on an account. -/
def posted (account : UUID) (ws : List Write) : Int :=
  (((insertedPostings ws).filter fun p => p.accountId = account).map Posting.amount).sum

/-- Writes add what they post. -/
theorem recompute_replay (hadm : Admitted d ws) :
    (replay d ws).recompute account = d.recompute account + posted account ws := by
  unfold Database.recompute Table.total posted
  rw [(Admitted.fresh hadm).postings, List.filter_append, List.map_append, List.sum_append]

variable {ι : Type}

/-- So do commits that are let through. -/
theorem Logged.recompute {P : OfCommit ι Database Write Resource} {g g' : Shared ι Database Write}
    {cs : List (Commit ι Write Resource)} (h : Logged P g cs g')
    (hP : ∀ i tx (g : Shared ι Database Write), P i tx g → Admitted g.db tx.log) :
    g'.db.recompute account = g.db.recompute account +
      posted account ((cs.map Commit.entry).flatMap Entry.writes) := by
  have hadm : ∀ ds, ds <+: cs → Admitted g.db ((ds.map Commit.entry).flatMap Entry.writes) := by
    intro ds
    induction ds using List.reverseRecOn with
    | nil => exact fun _ => admitted_nil _
    | append_singleton ds c ih =>
      rintro ⟨es, heq⟩
      have hcommit := hP _ _ _ (h.each ds c es (by simp [← heq]))
      rw [List.map_append, List.flatMap_append]
      refine admitted_append.mpr ⟨ih ⟨c :: es, by simp [← heq]⟩, ?_⟩
      simpa [afterCommits, Commit.entry] using hcommit
  rw [h.db]
  exact recompute_replay (hadm cs (List.prefix_refl cs))

/-- A snapshot carries the sum of the postings of its account. -/
theorem balance_of_snapshot {b : AccountBalance} (hbooks : Books d) (hintegrity : Integrity d)
    (hb : d.balances.find? account = some b) : b.balance = d.recompute account := by
  obtain ⟨haccount, -⟩ := hintegrity.balances b (Table.mem_of_find? hb)
  have hkey : b.accountId = account := Table.key_of_find? hb
  obtain ⟨a, ha⟩ := Option.isSome_iff_exists.mp (hkey ▸ haccount)
  obtain ⟨b', hb', -, hmirrors⟩ := hbooks.snapshot a (Table.mem_of_find? ha)
  have hid : a.id = account := Table.key_of_find? ha
  rw [hid] at hb' hmirrors
  have hsame := Table.find?_of_filter_key hb'
  rw [hb] at hsame
  cases hsame
  exact hmirrors.balance

end postings

/-! ## Result -/

section result

variable {ι : Type} {d : Database} {clock : Time} {tenantId : String} {account : UUID}

/-- What a check tells of the states its reads saw: without a snapshot, the
    tenant had no such account at the first; a drift is what the commits
    between the first and the second have posted. -/
def Explained (tenantId : String) (account : UUID) (gs : List (Shared ι Database Write)) :
    Option Int → Prop
  | none => ∃ g, gs = [g] ∧ ¬ g.db.Owns tenantId account
  | some drift => ∃ g₁ g₂ es, gs = [g₁, g₂] ∧ g₂.wal = g₁.wal ++ es ∧
      drift = -posted account (es.flatMap Entry.writes)

/-- A check only reads. -/
theorem reads_check [Runtime] (tenantId : String) (account : UUID) :
    (Party.check tenantId account).program.Reads := by
  have hcheck : (checkBalanceDrift tenantId account).Reads := by
    refine reads_currentBalance.bind fun snapshot => ?_
    cases snapshot with
    | none => exact reads_pure _
    | some snapshot => exact (reads_select _).bind fun exact => reads_pure _
  exact (hcheck {}).bind fun p => trivial

/-- **A check** among requests. -/
theorem sees_check [Runtime] {allow : OfCommit ι Database Write Resource}
    {tenants : ι → Option String} {me : ι} (hbooks : Books d) (hintegrity : Integrity d) :
    Sees (bookkeeping allow tenants) me
      (fun a gs => ∀ r, a = .inr r → Explained tenantId account gs r)
      (Party.check tenantId account).program [] ⟨d, clock, []⟩ {} := by
  -- the first read
  intro g₁ hr₁
  have hbooks₁ := rely_books hr₁ hbooks
  obtain ⟨cs, hlogged, -⟩ := hr₁
  have hintegrity₁ : Integrity g₁.db := hlogged.invariant hintegrity fun _ _ _ hkept hI =>
    hI.replay hkept.2 fun _ hhold => hkept.1.opens hhold
  have hunknown : Svc.matched g₁.db tenantId account = false →
      ¬ g₁.db.Owns tenantId account := by
    intro hno howns
    rw [hbooks₁.matched howns] at hno
    cases hno
  simp only [replay_nil, List.nil_append]
  cases hb : g₁.db.balances.find? account with
  | none =>
    rintro r ⟨⟩
    exact ⟨g₁, rfl, hunknown (by simp [Svc.matched, hb])⟩
  | some b =>
    by_cases htenant : b.tenantId = tenantId
    · simp only [Prog.bind, htenant, ne_eq, not_true_eq_false, if_false]
      show Sees _ _ _ (Prog.stmt _ _) _ _ _
      -- the second read
      intro g₂ hr₂
      rintro r ⟨⟩
      obtain ⟨ds, hbetween, -⟩ := hr₂
      have hexact : g₂.db.recompute account = _ :=
        Logged.recompute hbetween fun _ _ _ hkept => hkept.2
      refine ⟨g₁, g₂, ds.map Commit.entry, rfl, hbetween.wal, ?_⟩
      show b.balance - g₂.db.recompute account = _
      rw [balance_of_snapshot hbooks₁ hintegrity₁ hb, hexact]
      omega
    · simp only [Prog.bind, htenant, ne_eq, not_false_eq_true, if_true]
      rintro r ⟨⟩
      exact ⟨g₁, rfl, hunknown (by simp [Svc.matched, hb, htenant])⟩

/-- The tenant a party writes for. -/
def Party.tenant : Party → Option String
  | .request r => r.tenant
  | .check .. => none

/-- Parties keep the books and commit what is admitted. -/
theorem verified_observe [Runtime] {parties : ι → Party} (hbooks : Books d)
    (hproper : ∀ i r, parties i = .request r → r.Proper d) :
    Verified (bookkeeping Sys.all fun i => (parties i).tenant) (observe parties d clock) := by
  refine .initial ⟨rfl, fun _ => rfl⟩ fun j => ?_
  show wp _ j (parties j).program _ _ _
  cases hj : parties j with
  | check tenantId account => exact wp_reads (reads_check tenantId account) fun _ _ _ _ => trivial
  | request r =>
    rw [Party.program, wp_bind]
    have hkeeps : Keeps (bookkeeping Sys.all fun i => (parties i).tenant) j r ⟨d, clock, []⟩ :=
      keeps_bookkeeping j r (by rw [hj]; rfl) hbooks (hproper j r hj)
    refine wp_mono (fun r g tx _ => ?_) (wp_program (P := fun _ _ _ => True) hkeeps)
    cases r <;> trivial

/-- **Drift**: in every interleaving the books are in order in each state a
    statement has seen, and what a check returned is explained by the states
    its reads saw; a drift is no disagreement of the books. -/
theorem drift_of_reachable [Runtime] [DecidableEq ι] {parties : ι → Party}
    {s : Sys ι Database Write Resource Err (Reply ⊕ Option Int)}
    {xs : List (ι × Shared ι Database Write)} (hbooks : Books d) (hintegrity : Integrity d)
    (hproper : ∀ i r, parties i = .request r → r.Proper d)
    (h : Traced Sys.all Sys.reading (observe parties d clock) s xs) :
    (Books s.shared.db ∧ ∀ x ∈ xs, Books x.2.db) ∧
      ∀ i tenantId account r, parties i = .check tenantId account →
        (s.sess i).prog = .ret (.inr r) → Explained tenantId account (seenBy i xs) r := by
  have hsound := RG.logging_sound (D := Database) (R := Resource) (ι := ι) Sys.all
    fun i tx g => Bookkeeping (parties i).tenant g.db tx.log ∧ Admitted g.db tx.log
  have hv : Verified (bookkeeping Sys.all fun i => (parties i).tenant)
      (observe parties d clock) := verified_observe hbooks hproper
  have hinvariant : ∀ {s}, Sys.Reachable Sys.all (observe parties d clock) s → Books s.shared.db :=
    fun hr => invariant_of_reachable hv hbooks (fun _ _ _ hkept hb => hkept.1.books hb) hr
  refine ⟨⟨hinvariant h.reachable, fun x hx => ?_⟩, fun i tenantId account r hi hret => ?_⟩
  · obtain ⟨s', hr, heq⟩ := h.seen_reachable x hx
    rw [heq]
    exact hinvariant hr
  · have hinit : Sees (bookkeeping Sys.all fun i => (parties i).tenant) i
        (fun a gs => ∀ r, a = .inr r → Explained tenantId account gs r) (parties i).program []
        ⟨d, clock, []⟩ {} := by
      rw [hi]
      exact sees_check hbooks hintegrity
    have hsees := h.sees hsound hv hinit
    rw [hret] at hsees
    exact hsees r rfl

open Sample

/-- A payment to Bob, and a check of his account. -/
def checked : Fin 2 → Party
  | 0 => .request (pay bob 60 "t1" sixty_pos)
  | 1 => .check "acme" bob

/-- The payment commits between the two reads of the check. -/
theorem drift_of_reachable_checked : ∃ s xs g₁ g₂ es,
    Traced Sys.all Sys.reading (observe checked funded 0) s xs ∧
      (s.sess 1).prog = .ret (.inr (some (-60))) ∧ Books s.shared.db ∧ seenBy 1 xs = [g₁, g₂] ∧
      g₂.wal = g₁.wal ++ es ∧ -60 = -posted bob (es.flatMap Entry.writes) := by
  have hinit : Traced Sys.all Sys.reading (observe checked funded 0) _ [] := .init
  obtain ⟨s, xs, h, hp⟩ := hinit.of_follow (fun _ _ => true) (fun _ _ _ _ => trivial)
    (Sys.turns 1 2000 1 ++ Sys.turns 0 3000 60 ++ Sys.turns 1 4000 4)
    (fun s _ => decide (s.returned 1 = some (.inr (some (-60))))) (by decide +kernel)
  have hret := Sys.prog_of_returned (of_decide_eq_true hp)
  have hproper : ∀ i r, checked i = .request r → r.Proper funded := by
    rintro (i : Fin 2) r hi
    match i with
    | 0 => cases hi; trivial
    | 1 => cases hi
  obtain ⟨⟨hbooks, -⟩, hexplained⟩ := drift_of_reachable books_funded integrity_funded hproper h
  obtain ⟨g₁, g₂, es, hseen, hwal, hdrift⟩ := hexplained 1 "acme" bob _ rfl hret
  exact ⟨s, xs, g₁, g₂, es, h, hret, hbooks, hseen, hwal, hdrift⟩

end result

end Ledger
