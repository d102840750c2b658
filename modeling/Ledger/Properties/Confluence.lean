import Ledger.Properties.Provenance

/-! # The Order of the Commits Does Not Matter

    What a request moves may be fixed by rows that are there from the start: a
    transfer between two accounts of one currency, the capture of a hold, the
    reversal of a transaction.  Then the journal depends on which requests have
    committed, and in which order, but not on what each of them read, and the
    balances do not depend on the order either.

    * **Plans**: `Database.due`, the entries due to a request by the first rows.
    * **Commits**: `Later`, what no commit changes of these rows; `Asked.due`.
    * **Results**: `journal_of_reachable`, `confluent_of_reachable`.
-/

namespace Ledger

open ReadCommitted

/-! ## Plans -/

/-- What the request moves is fixed by rows that are there. -/
def Request.Fixed (d : Database) : Request → Prop
  | .transfer _ req _ => ∃ src dst, d.accounts.find? req.sourceAccountId = some src ∧
      d.accounts.find? req.destinationAccountId = some dst ∧ src.currency = dst.currency
  | .captureHold _ id _ => ∃ hold, d.holds.find? id = some hold
  | .reverse _ id _ _ => ∃ t, d.transactions.find? id = some t
  | _ => True

/-- The entries due to a request. -/
def Database.due [Runtime] (d : Database) : Request → List (DoubleEntry.Entry String UUID Int)
  | .post tenantId specs _ => [⟨tenantId, specs.map fun s => (s.accountId, s.amount)⟩]
  | .transfer tenantId req _ =>
    [movement tenantId req.sourceAccountId req.destinationAccountId req.amount]
  | .captureHold tenantId id req =>
    match d.holds.find? id with
    | some hold =>
      [movement tenantId hold.accountId req.destinationAccountId (captureAmount hold req)]
    | none => []
  | .reverse tenantId id _ _ =>
    [⟨tenantId, (d.selectPostings id).map fun p => (p.accountId, -p.amount)⟩]
  | _ => []

/-! ## Commits -/

/-- The rows that fix what requests move are still there. -/
structure Later (d d' : Database) : Prop where
  account : ∀ {id a}, d.accounts.find? id = some a → d'.accounts.find? id = some a
  hold : ∀ {id hold}, d.holds.find? id = some hold →
    d'.ReportsHold hold.tenantId (responseWith hold none)
  transaction : ∀ {id t}, d.transactions.find? id = some t →
    d'.transactions.find? id = some t ∧ d'.postingsOf id = d.postingsOf id

section commits

variable {d d' : Database} {r : Request}

theorem Later.refl (d : Database) : Later d d where
  account h := h
  hold h := reportsHold_of_find h rfl none
  transaction h := ⟨h, rfl⟩

/-- **Step lemma.** -/
theorem Later.commit [Runtime] {tenant : Option String} {ws : List Write} (h : Later d d')
    (hkept : Bookkeeping tenant d' ws) (hadm : Admitted d' ws) : Later d (replay d' ws) where
  account ha := replay_induction d' (h.account ha) fun d w _ hd => account_stays d w hd
  hold hh := replay_induction d' (h.hold hh) fun d w _ hd => hold_stays d w hd
  transaction ht := by
    obtain ⟨hfind, hpostings⟩ := h.transaction ht
    obtain ⟨hfind', hpostings'⟩ := hkept.transaction_kept hadm hfind
    exact ⟨hfind', hpostings'.trans hpostings⟩

/-- What a request asks for later is what was due from the start. -/
theorem Asked.due [Runtime] {entries : List (DoubleEntry.Entry String UUID Int)}
    (h : Asked d' r entries) (hlater : Later d d') (hfixed : r.Fixed d) : entries = d.due r := by
  cases h with
  | nothing hnone => cases r <;> first | rfl | cases hnone
  | posted => rfl
  | direct _ _ _ => rfl
  | routed hsrc hdst hcur =>
    obtain ⟨src, dst, hfirst, hsecond, hsame⟩ := hfixed
    have hsrc' := hsrc.1.symm.trans (hlater.account hfirst)
    have hdst' := hdst.1.symm.trans (hlater.account hsecond)
    cases hsrc'
    cases hdst'
    exact absurd hsame hcur
  | @captured tenantId id req hold src dst hfound _ _ _ _ _ =>
    obtain ⟨first, hfirst⟩ := hfixed
    obtain rfl : first.id = id := Table.key_of_find? hfirst
    obtain ⟨found, hthere, -, haccount, hamount, -⟩ := hlater.hold hfirst
    obtain rfl : hold = found := Option.some.inj (hfound.symm.trans hthere)
    have haccount' : hold.accountId = first.accountId := haccount
    have hamount' : hold.amount = first.amount := hamount
    simp only [Database.due, hfirst, captureAmount, haccount', hamount']
  | reversed _ _ _ =>
    obtain ⟨t, ht⟩ := hfixed
    rw [Database.selectPostings, (hlater.transaction ht).2]
    rfl

end commits

/-! ## Results -/

section results

variable {ι : Type} [DecidableEq ι] {requests : ι → Request} {d : Database} {clock clock' : Time}
  {s s' : Sys ι Database Write Resource Err Reply}

/-- **The journal** of any interleaving: what was due to the requests, in the
    order of their commits. -/
theorem journal_of_reachable [Runtime] (h : Books d) (hproper : ∀ i, (requests i).Proper d)
    (hfixed : ∀ i, (requests i).Fixed d)
    (hr : Sys.Reachable Sys.all (serve requests d clock) s) :
    s.shared.db.ledger.journal =
      d.ledger.journal ++ s.shared.wal.flatMap fun e => d.due (requests e.who) := by
  obtain ⟨hdb, hcommits⟩ := commits_of_reachable (I := Later d) (verified_bookkeeping h hproper)
    rfl (Later.refl d) (fun _ _ _ hkept hl => hl.commit hkept.1 hkept.2) hr
  have hprefix : ∀ es, es <+: s.shared.wal → (afterCommits d es).ledger.journal =
      d.ledger.journal ++ es.flatMap fun e => d.due (requests e.who) := by
    intro es
    induction es using List.reverseRecOn with
    | nil => exact fun _ => (List.append_nil _).symm
    | append_singleton es e ih =>
      rintro ⟨es', heq⟩
      have hwal : s.shared.wal = es ++ e :: es' := by simp [← heq]
      obtain ⟨entries, hasked, hjournal⟩ :=
        Verified.asked (verified_bookkeeping h hproper) verified_asking rfl h hr hwal rfl
      simp only [serve] at hasked hjournal
      rw [hjournal, ih ⟨e :: es', hwal.symm⟩,
        hasked.due (hcommits es e es' hwal).1 (hfixed e.who), List.flatMap_append]
      simp
  rw [hdb]
  exact hprefix _ (List.prefix_refl _)

/-- **Confluence**: two runs in which the same sessions have committed leave
    the same entries, and the same balance on every account, however the
    sessions were interleaved. -/
theorem confluent_of_reachable [Runtime] (h : Books d) (hproper : ∀ i, (requests i).Proper d)
    (hfixed : ∀ i, (requests i).Fixed d)
    (hr : Sys.Reachable Sys.all (serve requests d clock) s)
    (hr' : Sys.Reachable Sys.all (serve requests d clock') s')
    (hwho : (s.shared.wal.map Entry.who).Perm (s'.shared.wal.map Entry.who)) :
    s.shared.db.ledger.journal.Perm s'.shared.db.ledger.journal ∧
      ∀ a ∈ d.accounts.rows, ∃ b b', s.shared.db.balances.find? a.id = some b ∧
        s'.shared.db.balances.find? a.id = some b' ∧ b.balance = b'.balance := by
  have hjournal : s.shared.db.ledger.journal.Perm s'.shared.db.ledger.journal := by
    rw [journal_of_reachable h hproper hfixed hr, journal_of_reachable h hproper hfixed hr']
    have hdue := hwho.flatMap_right fun i => d.due (requests i)
    rw [List.flatMap_map, List.flatMap_map] at hdue
    exact hdue.append_left _
  refine ⟨hjournal, fun a ha => ?_⟩
  -- the account is there in both, with the snapshot the books give it
  have hsnapshot : ∀ {clock : Time} {s : Sys ι Database Write Resource Err Reply},
      Sys.Reachable Sys.all (serve requests d clock) s →
        ∃ b, s.shared.db.balances.find? a.id = some b ∧
          b.balance = s.shared.db.ledger.balance a.id := by
    intro clock s hr
    have hlater : Later d s.shared.db :=
      invariant_of_reachable (verified_bookkeeping h hproper) (Later.refl d)
        (fun _ _ _ hkept hl => hl.commit hkept.1 hkept.2) hr
    have hthere := hlater.account (Table.find?_of_mem ha)
    obtain ⟨b, hb, -, hbalance⟩ :=
      (h.reachable hproper hr).snapshots (Table.mem_of_find? hthere)
    exact ⟨b, hb, hbalance⟩
  obtain ⟨b, hb, hbalance⟩ := hsnapshot hr
  obtain ⟨b', hb', hbalance'⟩ := hsnapshot hr'
  refine ⟨b, b', hb, hb', ?_⟩
  rw [hbalance, hbalance']
  exact (hjournal.map fun e => e.on a.id).sum_eq

end results

/-! ## A Sample -/

open Sample

theorem crossing_fixed : ∀ i, (crossing i).Fixed funded
  | 0 => by
    have hsrc : (funded.accounts.find? alice).isSome = true := by decide +kernel
    have hdst : (funded.accounts.find? bob).isSome = true := by decide +kernel
    obtain ⟨src, hsrc⟩ := Option.isSome_iff_exists.mp hsrc
    obtain ⟨dst, hdst⟩ := Option.isSome_iff_exists.mp hdst
    have hcur : (funded.accounts.find? alice).map Account.currency =
        (funded.accounts.find? bob).map Account.currency := by decide +kernel
    rw [hsrc, hdst] at hcur
    exact ⟨src, dst, hsrc, hdst, Option.some.inj hcur⟩
  | 1 => by
    have hfound : (funded.transactions.find? funding).isSome = true := by decide +kernel
    exact Option.isSome_iff_exists.mp hfound
  | 2 => trivial

/-- The payment commits last in one run and first in the other. -/
theorem confluent_of_reachable_crossing : ∃ s s',
    Sys.Reachable Sys.all (serve crossing funded 0) s ∧
      Sys.Reachable Sys.all (serve crossing funded 0) s' ∧
      s.shared.wal.map Entry.who = [1, 2, 0] ∧ s'.shared.wal.map Entry.who = [0, 2, 1] ∧
      s.shared.db.ledger.journal.Perm s'.shared.db.ledger.journal := by
  obtain ⟨s, hr, hwho⟩ := crossing_run
  obtain ⟨s', hr', hp⟩ := Sys.Reachable.of_exec (s := serve crossing funded 0)
    (Sys.turns 0 2000 60 ++ Sys.turns 2 3000 10 ++ Sys.turns 1 4000 40)
    (fun s => s.shared.wal.map Entry.who == [0, 2, 1]) (by decide +kernel)
  have hwho' : s'.shared.wal.map Entry.who = [0, 2, 1] := by simpa using hp
  have hperm : (s.shared.wal.map Entry.who).Perm (s'.shared.wal.map Entry.who) := by
    rw [hwho, hwho']
    decide
  exact ⟨s, s', hr, hr', hwho, hwho',
    (confluent_of_reachable books_funded crossing_proper crossing_fixed hr hr' hperm).1⟩

end Ledger
