import Ledger.Properties.Endpoints

/-! # A Quote Is Honoured

    A quote binds nobody: the transfer that follows it looks the rate up again,
    and others may publish rates meanwhile.  As long as one row rates the pair
    by the instant both were asked for, the transfer credits what was quoted.

    * **Answers**: `Honest`, a quote comes from a rate that is stored; `wp_quote`.
    * **Rates**: `Rates`, the rows a pair is converted by.
    * **Result**: `quote_honoured`.
-/

namespace Ledger

open ReadCommitted

/-! ## Answers -/

/-- The quote of two different currencies is the conversion at a stored rate. -/
def Honest (d : Database) (q : QuoteRequest) (r : QuoteResponse) : Prop :=
  q.sourceCurrency ≠ q.targetCurrency → ∃ asOf rate, (∀ t, q.asOf = some t → asOf = t) ∧
    d.Quotes q.sourceCurrency q.targetCurrency asOf rate ∧
    convert q.amount q.sourceCurrency q.targetCurrency rate.rate = some r.targetAmount

section answers

variable [Runtime] {ι : Type} {allow P : OfCommit ι Database Write Resource} {me : ι}
  {rs : List Resource} {g g' : Shared ι Database Write} {q : QuoteRequest} {r : QuoteResponse}

omit [Runtime] in
theorem rely_honest (hr : (RG.logging allow P).rely rs g g') (h : Honest g.db q r) :
    Honest g'.db q r := by
  intro hne
  obtain ⟨asOf, rate, hasOf, hquotes, hconv⟩ := h hne
  exact ⟨asOf, rate, hasOf, rely_write quotes_stay hr hquotes, hconv⟩

/-- **Rule of quotes.** -/
theorem wp_quote (q : QuoteRequest) (g : Shared ι Database Write) :
    wp (.logging allow P) me (quoteEndpoint q)
      (fun r g _ => ∀ a, r = .ok a → ∀ quote, a = ⟨200, .quote quote⟩ → Honest g.db q quote)
      g {} := by
  have hraised : ∀ {caught : Err → Option Nat} (e : Err) (g : Shared ι Database Write),
      ∀ a, Except.ok (raised caught e) = (.ok a : Except Err Response) →
        ∀ quote, a = ⟨200, .quote quote⟩ → Honest g.db q quote := by
    rintro caught e g _ ⟨⟩ quote heq
    unfold raised at heq
    split at heq <;> cases heq
  refine wp_endpoint ?_
  rw [swp_bind]
  refine swp_orNow fun asOf g₁ _ hasOf => ?_
  rw [swp_bind]
  refine swp_resolveRate (fun e _ _ _ _ => hraised e _) fun rate g₂ tx₂ hrate => ?_
  cases hconv : convert q.amount q.sourceCurrency q.targetCurrency rate.rate with
  | none => exact swp_raise (hraised _ _)
  | some target =>
    rintro _ ⟨⟩ quote heq
    cases heq
    refine fun hne => ⟨asOf, rate, fun t ht => ?_, hrate.quotes rfl hne, hconv⟩
    rw [hasOf, ht]
    rfl

end answers

/-! ## Rates -/

/-- The row rates the pair by the instant, in one of the two directions. -/
def Database.Rates (d : Database) (base quote : Currency) (asOf : Time) (row : FxRate) : Prop :=
  row ∈ d.rates.rows ∧ (quotedBy base quote asOf row = true ∨ quotedBy quote base asOf row = true)

section rates

variable {d : Database} {base quote : Currency} {asOf : Time} {rate rate' : ResolvedRate}

/-- A row does not rate a pair in both directions. -/
theorem one_direction {row : FxRate} (hne : base ≠ quote)
    (h : Database.quotedBy base quote asOf row = true)
    (h' : Database.quotedBy quote base asOf row = true) : False := by
  obtain ⟨hbase, -, -⟩ := quotedBy_iff.mp h
  obtain ⟨hquote, -, -⟩ := quotedBy_iff.mp h'
  exact hne (hbase.symm.trans hquote)

/-- One row gives one rate. -/
theorem quotes_unique (hne : base ≠ quote)
    (hsole : ∀ row row', d.Rates base quote asOf row → d.Rates base quote asOf row' → row = row')
    (h : d.Quotes base quote asOf rate) (h' : d.Quotes base quote asOf rate') : rate = rate' := by
  obtain ⟨id, row, hrow, hquoted⟩ := h
  obtain ⟨id', row', hrow', hquoted'⟩ := h'
  obtain rfl : row = row' := hsole row row'
    ⟨Table.mem_of_find? hrow, hquoted.imp And.left And.left⟩
    ⟨Table.mem_of_find? hrow', hquoted'.imp And.left And.left⟩
  rcases hquoted with ⟨hq, rfl⟩ | ⟨hq, hrate⟩ <;>
    rcases hquoted' with ⟨hq', rfl⟩ | ⟨hq', hrate'⟩
  · rfl
  · exact (one_direction hne hq hq').elim
  · exact (one_direction hne hq' hq).elim
  · exact Option.some.inj (hrate.symm.trans hrate')

end rates

/-! ## Result -/

section result

variable {ι : Type} [DecidableEq ι] {auth : Auth} {clients : ι → Client} {d : Database}
  {clock : Time} {s : Sys ι Database Write Resource Err (Option Response)}

/-- What a client was quoted comes from a rate that is stored. -/
theorem honest_of_reachable [Runtime] (hr : Sys.Reachable Sys.all (deploy auth clients d clock) s)
    {i : ι} {req : HttpRequest} {q : QuoteRequest} {quote : QuoteResponse}
    (hi : clients i = .request req) (hroute : req.route = .quote q)
    (hret : (s.sess i).prog = .ret (some ⟨200, .quote quote⟩)) : Honest s.shared.db q quote := by
  have hv : Verified (.logging Sys.all fun _ _ _ => True) (deploy auth clients d clock) :=
    verified_deploy fun i r _ => keeps_logging r fun _ _ _ _ => trivial
  refine hv.returned (RG.logging_sound _ _)
    (K := fun g a => ∀ quote, a = some ⟨200, .quote quote⟩ → Honest g.db q quote)
    (fun g g' a hrely h quote ha => rely_honest hrely (h quote ha)) ?_ hr hret quote rfl
  have hprogram : (clients i).program auth =
      req.program auth >>= fun response => pure (some response) := by rw [hi]; rfl
  show wp _ i ((clients i).program auth) _ _ _
  rw [hprogram, wp_bind]
  have hrequest : wp (.logging Sys.all fun _ _ _ => True) i (req.program auth)
      (fun r g _ => ∀ a, r = .ok a → ∀ quote, a = ⟨200, .quote quote⟩ → Honest g.db q quote)
      (deploy auth clients d clock).shared {} := by
    unfold HttpRequest.program
    rw [hroute]
    split
    · rintro _ ⟨⟩ quote heq
      cases heq
    · rintro _ ⟨⟩ quote heq
      cases heq
    · exact wp_quote q _
  refine wp_mono (fun r g tx hr => ?_) hrequest
  cases r with
  | ok a =>
    rintro _ ⟨⟩ quote heq
    exact hr a rfl quote (Option.some.inj heq)
  | error e => rintro _ ⟨⟩

/-- **Quotes are honoured**: a transfer of the quoted amount, between accounts
    of the quoted currencies and effective at the quoted instant, credits the
    quoted target, if one row has rated the pair by that instant, whatever is
    committed before, between and after the two. -/
theorem quote_honoured [Runtime] (hbooks : Books d)
    (hr : Sys.Reachable Sys.all (deploy auth clients d clock) s)
    -- the quote
    {i : ι} {asker : HttpRequest} {q : QuoteRequest} {quote : QuoteResponse} {t : Time}
    (hi : clients i = .request asker) (hasker : asker.route = .quote q) (hasOf : q.asOf = some t)
    (hret : (s.sess i).prog = .ret (some ⟨200, .quote quote⟩))
    -- the transfer, and its commit
    {es es' : List (Entry ι Write)} {e : Entry ι Write} {payer : HttpRequest}
    {req : TransferRequest} {key : String} (hwal : s.shared.wal = es ++ e :: es')
    (hwho : clients e.who = .request payer) (hpayer : payer.route = .transfer req key)
    (heffective : req.effectiveAt = some t) (hamount : req.amount = q.amount)
    -- the accounts, and the rate
    {src dst : Account} (hsrc : s.shared.db.accounts.find? req.sourceAccountId = some src)
    (hdst : s.shared.db.accounts.find? req.destinationAccountId = some dst)
    (hsource : src.currency = q.sourceCurrency) (htarget : dst.currency = q.targetCurrency)
    (hne : q.sourceCurrency ≠ q.targetCurrency)
    (hsole : ∀ row row', s.shared.db.Rates q.sourceCurrency q.targetCurrency t row →
      s.shared.db.Rates q.sourceCurrency q.targetCurrency t row' → row = row') :
    ∃ tenantId srcConv dstConv, (afterCommits d (es ++ [e])).ledger.journal =
      (afterCommits d es).ledger.journal ++
        [movement tenantId req.sourceAccountId srcConv q.amount,
          movement tenantId dstConv req.destinationAccountId quote.targetAmount] := by
  obtain ⟨hdb, -⟩ := Verified.kept (clients_bookkeeping hbooks) rfl hbooks hr
  obtain ⟨r, hasks⟩ := Option.isSome_iff_exists.mp (entitled_of_wal hr hwal).1
  obtain ⟨entries, hasked, hjournal⟩ :=
    Verified.asked (clients_bookkeeping hbooks) clients_asking rfl hbooks hr hwal hasks
  -- what the payer asks for is the transfer
  rw [hwho] at hasks
  obtain ⟨tenantId, -, hroute, -⟩ := asks_signed hasks
  rw [hpayer] at hroute
  cases hroute
  -- what is there when the transfer commits is there in the end
  have hlater : s.shared.db = replay (afterCommits d es) ((e :: es').flatMap Entry.writes) := by
    rw [hdb, hwal, afterCommits_append]
    rfl
  have haccount : ∀ {id : UUID} {a a' : Account}, s.shared.db.accounts.find? id = some a →
      (afterCommits d es).HasAccount tenantId id a' → a' = a := by
    intro id a a' ha ha'
    have hstill : s.shared.db.accounts.find? id = some a' := by
      rw [hlater]
      exact replay_induction (P := fun d : Database => d.accounts.find? id = some a') _ ha'.1
        fun d w _ hd => account_stays d w hd
    exact Option.some.inj (hstill.symm.trans ha)
  cases hasked with
  | nothing hnone => cases hnone
  | direct hsrc' hdst' hcur =>
    rw [haccount hsrc hsrc', haccount hdst hdst', hsource, htarget] at hcur
    exact absurd hcur hne
  | @routed _ _ _ src' dst' srcConv dstConv asOf rate target hsrc' hdst' _ _ _ _ _ hasOf' hrate
      hconv =>
    obtain rfl := hasOf' t heffective
    rw [haccount hsrc hsrc', haccount hdst hdst', hsource, htarget] at hrate hconv
    have hrate' : s.shared.db.Quotes q.sourceCurrency q.targetCurrency asOf rate := by
      rw [hlater]
      exact replay_induction (P := fun d : Database => d.Quotes _ _ asOf rate) _ hrate
        fun d w _ hd => quotes_stay d w hd
    -- the quote was converted at the same rate
    obtain ⟨asOf', rate', hasOf'', hquotes, hquoted⟩ := honest_of_reachable hr hi hasker hret hne
    obtain rfl := hasOf'' asOf hasOf
    obtain rfl := quotes_unique hne hsole hrate' hquotes
    rw [hamount, hquoted] at hconv
    rw [hamount, ← Option.some.inj hconv] at hjournal
    exact ⟨tenantId, srcConv.id, dstConv.id, hjournal⟩

end result

/-! ## A Sample Run -/

open Sample

/-- A quote for a hundred dollars in euros, their payment, and another account. -/
def customers : Fin 3 → Client
  | 0 => .request ⟨some sampleToken, .quote ⟨.USD, .EUR, 100, some 0, hundred_pos⟩⟩
  | 1 => .request ⟨some sampleToken, .transfer ⟨alice, carol, 100, "", some 0, hundred_pos⟩ "t1"⟩
  | 2 => .request ⟨some sampleToken, .openAccount ⟨"users.dave", "dave", .CREDIT, .USD⟩⟩

/-- The quote a client was answered with. -/
def quotedTo {ι : Type} (s : Sys ι Database Write Resource Err (Option Response)) (i : ι) :
    Option QuoteResponse :=
  match (s.returned i).join with
  | some ⟨200, .quote quote⟩ => some quote
  | _ => none

theorem prog_of_quotedTo {ι : Type} {s : Sys ι Database Write Resource Err (Option Response)}
    {i : ι} {quote : QuoteResponse} (h : quotedTo s i = some quote) :
    (s.sess i).prog = .ret (some ⟨200, .quote quote⟩) := by
  unfold quotedTo at h
  split at h
  · rename_i hreturned
    cases h
    exact Sys.prog_of_returned (Option.join_eq_some_iff.mp hreturned)
  · cases h

/-- Fifty euros are quoted, and fifty are credited, after a commit in between. -/
theorem quote_honoured_customers : ∃ s quote es e es' tenantId srcConv dstConv,
    Sys.Reachable Sys.all (deploy sampleAuth customers exchange 0) s ∧
      s.shared.wal.map Entry.who = [2, 1] ∧ s.shared.wal = es ++ e :: es' ∧
      quotedTo s 0 = some quote ∧ quote.targetAmount = 50 ∧
      (afterCommits exchange (es ++ [e])).ledger.journal =
        (afterCommits exchange es).ledger.journal ++
          [movement tenantId alice srcConv 100, movement tenantId dstConv carol 50] := by
  obtain ⟨s, hr, hp⟩ := Sys.Reachable.of_exec (s := deploy sampleAuth customers exchange 0)
    (Sys.turns 0 2000 8 ++ Sys.turns 2 3000 10 ++ Sys.turns 1 4000 80)
    (fun s => s.shared.wal.map Entry.who == [2, 1] &&
      (quotedTo s 0).map QuoteResponse.targetAmount == some 50 &&
      (s.shared.db.accounts.find? alice).map Account.currency == some .USD &&
      (s.shared.db.accounts.find? carol).map Account.currency == some .EUR &&
      s.shared.db.rates.rows.length == 1) (by decide +kernel)
  simp only [Bool.and_eq_true, beq_iff_eq] at hp
  obtain ⟨⟨⟨⟨hwho, hquoted⟩, hsrc⟩, hdst⟩, hrates⟩ := hp
  obtain ⟨quote, hquote, htarget⟩ := Option.map_eq_some_iff.mp hquoted
  obtain ⟨src, hsrc, hdollars⟩ := Option.map_eq_some_iff.mp hsrc
  obtain ⟨dst, hdst, heuros⟩ := Option.map_eq_some_iff.mp hdst
  obtain ⟨row, hrow⟩ := List.length_eq_one_iff.mp hrates
  obtain ⟨e, es', hwal, he, hrest⟩ := List.map_eq_cons_iff.mp hwho
  obtain ⟨e', es'', rfl, he', -⟩ := List.map_eq_cons_iff.mp hrest
  have hbooks : Books exchange := Books.empty.script (by decide +kernel)
  obtain ⟨tenantId, srcConv, dstConv, hjournal⟩ := quote_honoured hbooks hr (i := 0) rfl rfl rfl
    (prog_of_quotedTo hquote) (show s.shared.wal = [e] ++ e' :: es'' from hwal)
    (by rw [he']; rfl) rfl rfl rfl hsrc hdst hdollars heuros (by decide) fun row row' h h' => by
      have hmem := h.1
      have hmem' := h'.1
      rw [hrow, List.mem_singleton] at hmem hmem'
      rw [hmem, hmem']
  rw [htarget] at hjournal
  exact ⟨s, quote, [e], e', es'', tenantId, srcConv, dstConv, hr, hwho, hwal, hquote, htarget,
    hjournal⟩

end Ledger
