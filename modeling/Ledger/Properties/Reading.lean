import Ledger.Properties.Endpoints

/-! # What the Reads Answer

    A read runs beside requests that commit.  Each of its statements sees what
    was committed by then, and the next one may see more.

    * **States**: `Passed`, what a reader knows of the database.
    * **Reads**: `Served`, an answer comes from one committed state, the
      balances of an account from two; `wp_read`.
    * **Result**: `reads_of_reachable`.
-/

namespace Ledger

open ReadCommitted

/-! ## States -/

section states

variable {ι : Type} {d : Database} {clock : Time} {allow P : OfCommit ι Database Write Resource}
  {rs : List Resource} {g g' : Shared ι Database Write}

/-- The database is the one after all the commits, and time has not gone back. -/
structure Passed (d : Database) (clock : Time) (g : Shared ι Database Write) : Prop where
  db : g.db = afterCommits d g.wal
  clock_le : clock ≤ g.clock

theorem rely_passed (hr : (RG.logging allow P).rely rs g g') (h : Passed d clock g) :
    Passed d clock g' := by
  obtain ⟨cs, hlogged, -⟩ := hr
  exact ⟨by rw [hlogged.db, hlogged.wal, h.db, afterCommits_append],
    h.clock_le.trans hlogged.clock⟩

/-- The commit log grows. -/
theorem rely_wal (hr : (RG.logging allow P).rely rs g g') : g.wal <+: g'.wal := by
  obtain ⟨cs, hlogged, -⟩ := hr
  exact ⟨cs.map Commit.entry, hlogged.wal.symm⟩

theorem rely_clock (hr : (RG.logging allow P).rely rs g g') : g.clock ≤ g'.clock := by
  obtain ⟨cs, hlogged, -⟩ := hr
  exact hlogged.clock

end states

/-! ## Reads -/

section reads

variable [Runtime] {ι : Type} {d : Database} {clock : Time} {tenantId : String}
  {allow P : OfCommit ι Database Write Resource} {rs : List Resource} {me : ι}
  {g g' : Shared ι Database Write} {req : ReadRequest} {response : Response}

/-- What a read of the tenant is answered with, by the commits up to now. -/
inductive Served (d : Database) (clock : Time) (tenantId : String) (g : Shared ι Database Write) :
    ReadRequest → Response → Prop where
  /-- By the rows of one committed state. -/
  | once {req es now} (hes : es <+: g.wal) (hnow : clock ≤ now ∧ now ≤ g.clock) :
      Served d clock tenantId g req ((afterCommits d es).read tenantId now req).response
  /-- The snapshot is read first, and the holds after it. -/
  | balance {accountId b es fs now} (hes : es <+: fs) (hfs : fs <+: g.wal)
      (hnow : clock ≤ now ∧ now ≤ g.clock)
      (hb : (afterCommits d es).balances.find? accountId = some b)
      (htenant : b.tenantId = tenantId) :
      Served d clock tenantId g (.balance accountId)
        ⟨200, .read (.balance
          { accountId := accountId.str, posted := b.balance,
            held := (afterCommits d fs).heldTotal tenantId accountId now,
            available := b.balance - (afterCommits d fs).heldTotal tenantId accountId now,
            balance := b.balance })⟩

theorem rely_served (hr : (RG.logging allow P).rely rs g g')
    (h : Served d clock tenantId g req response) : Served d clock tenantId g' req response := by
  have hwal := rely_wal hr
  have hclock := rely_clock hr
  cases h with
  | once hes hnow => exact .once (hes.trans hwal) ⟨hnow.1, hnow.2.trans hclock⟩
  | balance hes hfs hnow hb htenant =>
    exact .balance hes (hfs.trans hwal) ⟨hnow.1, hnow.2.trans hclock⟩ hb htenant

/-- The answer by the present rows. -/
theorem Passed.served (h : Passed d clock g)
    (hresponse : response = (g.db.read tenantId g.clock req).response) :
    Served d clock tenantId g req response := by
  rw [hresponse, h.db]
  exact .once (List.prefix_refl _) ⟨h.clock_le, le_refl _⟩

theorem served_getAccount {accountId : UUID} (hpassed : Passed d clock g) :
    wp (.logging allow P) me (getAccountEndpoint tenantId accountId)
      (fun r g _ => ∀ a, r = .ok a → Served d clock tenantId g (.account accountId) a) g {} := by
  refine wp_endpoint ?_
  rw [swp_bind]
  refine swp_select fun g₁ tx₁ h₁ _ => ?_
  have hpassed₁ := rely_passed h₁.rely hpassed
  cases hfind : (replay g₁.db ([] : List Write)).accounts.find? accountId with
  | none =>
    rintro _ ⟨⟩
    refine hpassed₁.served ?_
    have hfind' : g₁.db.accounts.find? accountId = none := hfind
    simp [Database.read, Database.getAccount, hfind']
  | some account =>
    have hfind' : g₁.db.accounts.find? accountId = some account := hfind
    simp only
    split_ifs with htenant
    · rintro _ ⟨⟩
      refine hpassed₁.served ?_
      simp [Database.read, Database.getAccount, hfind', htenant]
    · rw [swp_bind]
      refine swp_getBalance fun b o' g₂ tx₂ h₂ hl => ?_
      rintro _ ⟨⟩
      -- the account is still there when the snapshot is read
      have hstill : g₂.db.accounts.find? accountId = some account :=
        rely_write (I := fun d => d.accounts.find? accountId = some account)
          (fun d w hd => account_stays d w hd) h₂.rely hfind'
      have hlog : tx₁.log = [] := by simpa using h₁.log
      have hfresh : b = g₂.db.balances.find? accountId := by simpa [hlog] using hl.fresh rfl
      refine (rely_passed h₂.rely hpassed₁).served ?_
      simp [Database.read, Database.getAccount, hstill, htenant, hfresh]

theorem served_journal {accountId : UUID} {after : Option Time} {limit : Nat}
    (bounds : 1 ≤ limit ∧ limit ≤ 200) (hpassed : Passed d clock g) :
    wp (.logging allow P) me (getAccountJournalEndpoint tenantId accountId after limit)
      (fun r g _ => ∀ a, r = .ok a →
        Served d clock tenantId g (.journal accountId after limit bounds) a) g {} := by
  refine wp_endpoint ?_
  rw [swp_bind]
  refine swp_select fun g₁ tx₁ h₁ _ => ?_
  have hpassed₁ := rely_passed h₁.rely hpassed
  cases hfind : (replay g₁.db ([] : List Write)).accounts.find? accountId with
  | none =>
    rintro _ ⟨⟩
    refine hpassed₁.served ?_
    have hfind' : g₁.db.accounts.find? accountId = none := hfind
    simp [Database.read, Database.getAccountJournalEndpoint, Database.accountJournal, hfind']
  | some account =>
    have hfind' : g₁.db.accounts.find? accountId = some account := hfind
    simp only
    split_ifs with htenant
    · rintro _ ⟨⟩
      refine hpassed₁.served ?_
      simp [Database.read, Database.getAccountJournalEndpoint, Database.accountJournal, hfind',
        htenant]
    · rw [swp_bind]
      refine swp_select fun g₂ tx₂ h₂ _ => ?_
      rintro _ ⟨⟩
      have hstill : g₂.db.accounts.find? accountId = some account :=
        rely_write (I := fun d => d.accounts.find? accountId = some account)
          (fun d w hd => account_stays d w hd) h₂.rely hfind'
      have hlog : tx₁.log = [] := by simpa using h₁.log
      refine (rely_passed h₂.rely hpassed₁).served ?_
      rw [hlog]
      simp [Database.read, Database.getAccountJournalEndpoint, Database.accountJournal, hstill,
        htenant]

theorem served_getBalance {accountId : UUID} (hpassed : Passed d clock g) :
    wp (.logging allow P) me (getBalanceEndpoint tenantId accountId)
      (fun r g _ => ∀ a, r = .ok a → Served d clock tenantId g (.balance accountId) a) g {} := by
  refine wp_endpoint ?_
  rw [swp_bind]
  refine swp_availableBalance fun r o' g' tx' hr => ?_
  cases hr with
  | @unknown sb _ _ _ hp hl hb =>
    rintro _ ⟨⟩
    refine (rely_passed hp.rely hpassed).served ?_
    have hfind : sb = g'.db.balances.find? accountId := hl.fresh rfl
    have hnone : g'.db.availableBalance tenantId accountId g'.clock = none := by
      unfold Database.availableBalance
      rw [← hfind]
      cases sb with
      | none => rfl
      | some b => simp [hb b rfl]
    simp [Database.read, Database.getBalanceEndpoint, hnone]
  | @known b _ g₁ tx₁ _ _ hp hl hb hp' hopen =>
    rintro _ ⟨⟩
    have hpassed₁ := rely_passed hp.rely hpassed
    have hpassed' := rely_passed hp'.rely hpassed₁
    -- the transaction was opened by one of the two statements
    have hnow : clock ≤ tx'.now ∧ tx'.now ≤ g'.clock := by
      rcases (hp.trans hp').opened rfl with ⟨-, hnone⟩ | ⟨go, hgo, hgo', hstart, -⟩
      · rw [hnone] at hopen
        cases hopen
      · rw [Tx.now, hstart]
        exact ⟨(rely_passed hgo hpassed).clock_le, rely_clock hgo'⟩
    have hfind : (afterCommits d g₁.wal).balances.find? accountId = some b := by
      rw [← hpassed₁.db]
      exact (hl.fresh rfl).symm
    have hserved := Served.balance (rely_wal hp'.rely) (List.prefix_refl g'.wal) hnow hfind hb
    rw [← hpassed'.db] at hserved
    exact hserved

/-- **Rule of reads.** -/
theorem wp_read (req : ReadRequest) (hpassed : Passed d clock g) :
    wp (.logging allow P) me (Route.endpoint tenantId (.read req))
      (fun r g _ => ∀ a, r = .ok a → Served d clock tenantId g req a) g {} := by
  cases req with
  | account accountId => exact served_getAccount hpassed
  | balance accountId => exact served_getBalance hpassed
  | journal accountId after limit bounds => exact served_journal bounds hpassed
  | events status limit =>
    refine wp_endpoint ?_
    unfold listEvents
    split_ifs with hlimit
    · refine swp_raise ?_
      rintro _ ⟨⟩
      refine hpassed.served ?_
      simp [Database.read, Database.listEventsEndpoint, hlimit, raised, uncaught,
        ReadResponse.response]
    · refine swp_select fun g' tx' hp _ => ?_
      rintro _ ⟨⟩
      refine (rely_passed hp.rely hpassed).served ?_
      simp only [Database.read, Database.listEventsEndpoint, hlimit, if_false, replay_nil]
      cases (g'.db.events tenantId status limit.toNat).mapM OutboxEventResponse.fromRow <;> rfl
  | idempotencyKey name key =>
    refine wp_endpoint (swp_select fun g' tx' hp _ => ?_)
    rintro _ ⟨⟩
    exact (rely_passed hp.rely hpassed).served rfl
  | statement accountId start stop =>
    refine wp_endpoint (swp_select fun g' tx' hp _ => ?_)
    rintro _ ⟨⟩
    exact (rely_passed hp.rely hpassed).served rfl
  | imports =>
    refine wp_endpoint (swp_select fun g' tx' hp _ => ?_)
    rintro _ ⟨⟩
    exact (rely_passed hp.rely hpassed).served rfl
  | exceptions resolved =>
    refine wp_endpoint (swp_select fun g' tx' hp _ => ?_)
    rintro _ ⟨⟩
    exact (rely_passed hp.rely hpassed).served rfl

end reads

/-! ## Result -/

section result

variable {ι : Type} [DecidableEq ι] {auth : Auth} {clients : ι → Client} {d : Database}
  {clock : Time} {s : Sys ι Database Write Resource Err (Option Response)}

/-- **Reads** are answered from committed rows: of one state that the commits
    have passed through, the balances of an account of two. -/
theorem reads_of_reachable [Runtime]
    (hr : Sys.Reachable Sys.all (deploy auth clients d clock) s) {i : ι} {req : HttpRequest}
    {q : ReadRequest} {tenantId : String} (hi : clients i = .request req)
    (hroute : req.route = .read q)
    (hanswered : answered auth.hmac auth.authSecret false req.authorization =
      .handled (some tenantId))
    {response : Response} (hret : (s.sess i).prog = .ret (some response)) :
    Served d clock tenantId s.shared q response := by
  have hv : Verified (.logging Sys.all fun _ _ _ => True) (deploy auth clients d clock) :=
    verified_deploy fun i r _ => keeps_logging r fun _ _ _ _ => trivial
  have hprogram : (clients i).program auth =
      Route.endpoint tenantId (.read q) >>= fun response => pure (some response) := by
    rw [hi]
    show (req.program auth >>= fun response => pure (some response)) = _
    have hpublic : req.route.isPublic = false := by rw [hroute]; rfl
    rw [HttpRequest.program, hpublic, hanswered, hroute]
    rfl
  refine hv.returned (RG.logging_sound _ _)
    (K := fun g a => ∀ response, a = some response → Served d clock tenantId g q response)
    (fun g g' a hrely h response ha => rely_served hrely (h response ha)) ?_ hr hret response rfl
  have hpassed : Passed d clock (deploy auth clients d clock).shared := ⟨rfl, le_refl _⟩
  show wp _ i ((clients i).program auth) _ _ _
  rw [hprogram, wp_bind]
  refine wp_mono (fun r g tx hr => ?_) (wp_read q hpassed)
  cases r with
  | ok a =>
    rintro _ ⟨⟩ response ⟨⟩
    exact hr a rfl
  | error e =>
    rintro _ ⟨⟩

open Sample

/-- The payment, and a reading of what Alice has. -/
def onlookers : Fin 2 → Client
  | 0 => .request payment
  | 1 => .request ⟨some sampleToken, .read (.balance alice)⟩

/-- The payment commits between the two statements of the reading. -/
theorem reads_of_reachable_onlookers : ∃ s response,
    Sys.Reachable Sys.all (deploy sampleAuth onlookers funded 0) s ∧
      s.shared.wal.map Entry.who = [0] ∧ (s.sess 1).prog = .ret (some response) ∧
      Served funded 0 "acme" s.shared (.balance alice) response := by
  obtain ⟨s, hr, hp⟩ := Sys.Reachable.of_exec (s := deploy sampleAuth onlookers funded 0)
    (Sys.turns 1 2000 1 ++ Sys.turns 0 3000 60 ++ Sys.turns 1 4000 4)
    (fun s => s.shared.wal.map Entry.who == [0] && statusOf s 1 == some 200) (by decide +kernel)
  simp only [Bool.and_eq_true, beq_iff_eq] at hp
  obtain ⟨hwho, hstatus⟩ := hp
  obtain ⟨response, hret, -⟩ := response_of_status hstatus
  have hanswered : answered sampleAuth.hmac sampleAuth.authSecret false (some sampleToken) =
      .handled (some "acme") := by
    decide +kernel
  exact ⟨s, response, hr, hwho, hret, reads_of_reachable hr (i := 1) rfl rfl hanswered hret⟩

end result

end Ledger
