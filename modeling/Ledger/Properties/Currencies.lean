import Ledger.Properties.Undo

/-! # Currencies

    The engine checks the plain sum of the amounts, so that a transaction
    stays within one currency is up to its callers.  All of them keep it but
    the two legs of a conversion: the conversion account is found by its path
    alone, and an account of any currency can be opened on any path.

    * **Condition**: `Request.Matched`, the conversion accounts a transfer
      finds carry the currencies of their paths.
    * **Result**: then every transaction is within one currency, and the
      postings of each tenant and currency sum to zero.
-/

namespace Ledger

open ReadCommitted

/-- The account exists and is in the currency. -/
def Database.InCurrency (d : Database) (c : Currency) (account : UUID) : Prop :=
  ∃ a, d.accounts.find? account = some a ∧ a.currency = c

instance (d : Database) (c : Currency) (account : UUID) : Decidable (d.InCurrency c account) :=
  decidable_of_iff ((d.accounts.find? account).any fun a => a.currency = c)
    (by simp [Database.InCurrency, Option.any_eq_true])

/-- Every transaction is within one currency. -/
def Pure (d : Database) : Prop :=
  ∀ t ∈ d.transactions.rows, ∃ c, ∀ p ∈ d.postingsOf t.id, d.InCurrency c p.accountId

/-- The sum of the postings on a tenant's accounts of one currency. -/
def Database.currencySum (d : Database) (tenantId : String) (c : Currency) : Int :=
  d.postings.total
    (fun p => (d.accounts.find? p.accountId).any fun a => a.tenantId = tenantId && a.currency = c)
    Posting.amount

/-- A direct use of the engine funds accounts of one currency, and a transfer
    across currencies that goes through finds conversion accounts of the
    currencies of their paths. -/
def Request.Matched (d : Database) : Request → Prop
  | .post _ specs _ => ∃ c, ∀ spec ∈ specs, d.InCurrency c spec.accountId
  | .transfer tenantId req key => ∀ src dst srcConv dstConv,
    Converts d tenantId req key src dst srcConv dstConv →
      srcConv.currency = src.currency ∧ dstConv.currency = dst.currency
  | _ => True

/-- A direct use of the engine is within one currency. -/
def Request.OneCurrency (d : Database) : Request → Prop
  | .post _ specs _ => ∃ c, ∀ spec ∈ specs, d.InCurrency c spec.accountId
  | _ => True

instance (d : Database) (r : Request) : Decidable (r.OneCurrency d) :=
  match r with
  | .post _ specs _ =>
    inferInstanceAs (Decidable (∃ c, ∀ spec ∈ specs, d.InCurrency c spec.accountId))
  | .openAccount .. | .transfer .. | .placeHold .. | .captureHold .. | .releaseHold ..
  | .reverse .. | .upsertRate .. | .dispatch .. | .importStatement .. | .sweep .. =>
    inferInstanceAs (Decidable True)

/-- Every account on a conversion path is in the currency of the path. -/
def Database.Labelled (d : Database) : Prop :=
  ∀ a ∈ d.accounts.rows, ∀ c, a.path = conversionPath c → a.currency = c

instance (d : Database) : Decidable d.Labelled :=
  inferInstanceAs
    (Decidable (∀ a ∈ d.accounts.rows, ∀ c, a.path = conversionPath c → a.currency = c))

/-- Where the conversion accounts are labelled, no transfer finds a wrong one. -/
theorem Database.Labelled.matched {d : Database} (h : d.Labelled) {r : Request}
    (hone : r.OneCurrency d) : r.Matched d := by
  have hconv : ∀ {tenantId : String} {c : Currency} {conv : Account},
      d.openAt tenantId (conversionPath c) = [conv] → conv.currency = c := fun hc =>
    h _ (mem_openAt hc).1 _ (mem_openAt hc).2.2
  cases r with
  | post => exact hone
  | transfer => exact fun _ _ _ _ hc => ⟨hconv hc.sourceConversion, hconv hc.destinationConversion⟩
  | _ => trivial

/-- The legs of a matched request are in one currency. -/
theorem Posts.oneCurrency [Runtime] {d : Database} {r : Request} {tenantId : String}
    {specs : List PostingSpec} {correctsId : Option UUID} (hpure : Pure d) (hmatched : r.Matched d)
    (h : Posts d r tenantId specs correctsId) :
    ∃ c, ∀ spec ∈ specs, d.InCurrency c spec.accountId := by
  have hself : ∀ {id : UUID} {a : Account}, d.HasAccount tenantId id a →
      d.InCurrency a.currency a.id := fun ha =>
    ⟨_, Table.find?_of_mem (Table.mem_of_find? ha.1), rfl⟩
  have hconv : ∀ {path : String} {a : Account}, d.openAt tenantId path = [a] →
      d.InCurrency a.currency a.id := fun {path a} ha => by
    have hmem : a ∈ d.openAt tenantId path := by simp [ha]
    simp only [Database.openAt, List.mem_filter] at hmem
    exact ⟨a, Table.find?_of_mem hmem.1, rfl⟩
  cases h with
  | post => exact hmatched
  | transfer hsrc hdst hcur =>
    exact ⟨_, by simpa [pair] using And.intro ⟨_, hsrc.1, rfl⟩ ⟨_, hdst.1, hcur.symm⟩⟩
  | debit h =>
    have hmatch := (hmatched _ _ _ _ h).1
    exact ⟨_, by simpa [pair] using And.intro (hself h.source) (hmatch ▸ hconv h.sourceConversion)⟩
  | credit h =>
    have hmatch := (hmatched _ _ _ _ h).2
    exact ⟨_, by
      simpa [pair] using And.intro (hmatch ▸ hconv h.destinationConversion) (hself h.destination)⟩
  | capture hsrc hdst hcur =>
    exact ⟨_, by simpa [pair] using And.intro ⟨_, hsrc.1, rfl⟩ ⟨_, hdst.1, hcur.symm⟩⟩
  | reversal hfound htenant _ _ =>
    -- the reversal is in the currency of the original transaction
    obtain ⟨c, hc⟩ := hpure _ (Table.mem_of_find? hfound)
    refine ⟨c, fun spec hspec => ?_⟩
    obtain ⟨p, hp, rfl⟩ := List.mem_map.mp hspec
    have hkey := Table.key_of_find? hfound
    rw [Database.mem_selectPostings, ← hkey] at hp
    exact hc p hp

theorem Pure.posted {d : Database} {tenantId : String} {specs : List PostingSpec}
    {correctsId : Option UUID} {txn : Transaction} {legs : List Leg} (h : Pure d) (hbooks : Books d)
    (hblock : Block d tenantId specs correctsId txn legs)
    (hcur : ∃ c, ∀ spec ∈ specs, d.InCurrency c spec.accountId) :
    Pure (replay d (.insTransaction txn :: legWrites legs)) := by
  obtain ⟨haccounts, htransactions, -, -⟩ := hblock.rows
  have hin : ∀ {c : Currency} {account : UUID}, d.InCurrency c account →
      (replay d (.insTransaction txn :: legWrites legs)).InCurrency c account := by
    rintro c account ⟨a, ha, hac⟩
    exact ⟨a, haccounts ▸ ha, hac⟩
  intro t ht
  rw [htransactions, List.mem_append, List.mem_singleton] at ht
  rcases ht with ht | rfl
  · obtain ⟨c, hc⟩ := h t ht
    exact ⟨c, fun p hp => hin (hc p (hblock.postingsOf_old ht ▸ hp))⟩
  · obtain ⟨c, hc⟩ := hcur
    refine ⟨c, fun p hp => ?_⟩
    rw [hbooks.postingsOf_new hblock] at hp
    obtain ⟨l, hl, rfl⟩ := List.mem_map.mp hp
    obtain ⟨spec, hspec, hof⟩ := Leg.Of.exists_spec hblock.carried hl
    rw [hof.account]
    exact hin (hc spec hspec)

/-- **Step lemma.** -/
theorem Pure.step [Runtime] {d₀ d d' : Database} {r : Request} (h₀ : Pure d₀)
    (hmatched : r.Matched d₀) (hbooks : Books d) (h : Pure d) (hstep : LedgerStep d₀ r d d') :
    Pure d' := by
  cases hstep with
  | plain hw =>
    obtain ⟨h1, -, h3, h4⟩ := hw
    have haccounts := Database.apply_accounts (d := d) h1
    have htransactions := Database.apply_transactions (d := d) h3
    have hpostings := Database.apply_postings (d := d) h4
    simpa only [Pure, Database.InCurrency, Database.postingsOf, haccounts, htransactions,
      hpostings] using h
  | opened a hadm =>
    intro t ht
    obtain ⟨c, hc⟩ := h t ht
    refine ⟨c, fun p hp => ?_⟩
    obtain ⟨x, hx, hxc⟩ := hc p hp
    exact ⟨x, Table.find?_insert_of_some hx, hxc⟩
  | posted hacc _ hposts hblock =>
    obtain ⟨c, hc⟩ := hposts.oneCurrency h₀ hmatched
    refine h.posted hbooks hblock ⟨c, fun spec hspec => ?_⟩
    obtain ⟨a, ha, hac⟩ := hc spec hspec
    exact ⟨a, hacc ▸ ha, hac⟩

/-- A matched request keeps every transaction within one currency. -/
theorem Pure.executed [Runtime] {d : Database} {r : Request} (h : Pure d) (hbooks : Books d)
    (hproper : r.Proper d) (hmatched : r.Matched d) (env : Env) : Pure (r.executed env d).2 := by
  have hsteps := executed_steps r env d
  generalize (r.executed env d).2 = d' at hsteps
  suffices hboth : Books d' ∧ Pure d' from hboth.2
  induction hsteps with
  | refl => exact ⟨hbooks, h⟩
  | tail _ hstep ih =>
    exact ⟨hbooks.step hproper ih.1 hstep, h.step hmatched ih.1 ih.2 hstep⟩

/-- Where no transaction mixes currencies, each currency of each tenant sums to zero. -/
theorem Pure.currencySum {d : Database} (h : Pure d) (hbooks : Books d) (tenantId : String)
    (c : Currency) : d.currencySum tenantId c = 0 := by
  have hgroups := Table.sum_by_key d.transactions
    (d.postings.rows.filter fun p => (d.accounts.find? p.accountId).any
      fun a => a.tenantId = tenantId && a.currency = c) Posting.transactionId Posting.amount
    fun p hp => hbooks.attached p (List.mem_filter.mp hp).1
  rw [Database.currencySum, Table.total, hgroups]
  refine List.sum_eq_zero fun x hx => ?_
  obtain ⟨t, ht, rfl⟩ := List.mem_map.mp hx
  -- the postings of one transaction all count, or none does
  obtain ⟨ct, hct⟩ := h t ht
  have hcomm : ((d.postings.rows.filter fun p => (d.accounts.find? p.accountId).any
      fun a => a.tenantId = tenantId && a.currency = c).filter
        fun p => p.transactionId = Keyed.key t) =
      (d.postingsOf t.id).filter fun p => (d.accounts.find? p.accountId).any
        fun a => a.tenantId = tenantId && a.currency = c := by
    rw [Database.postingsOf, List.filter_filter, List.filter_filter]
    exact List.filter_congr fun p _ => by simp [Bool.and_comm]
  have hsame : ∀ p ∈ d.postingsOf t.id, ((d.accounts.find? p.accountId).any
      fun a => a.tenantId = tenantId && a.currency = c) =
        decide (t.tenantId = tenantId ∧ ct = c) := by
    intro p hp
    obtain ⟨a, ha, hat⟩ := hbooks.owned t ht p hp
    obtain ⟨a', ha', hac⟩ := hct p hp
    rw [ha] at ha'
    cases ha'
    simp [ha, hat, hac]
  rw [hcomm, List.filter_congr hsame]
  by_cases hall : t.tenantId = tenantId ∧ ct = c
  · simpa [hall] using (hbooks.balanced t ht).2
  · simp [hall]

/-- **Currencies never mix** in a run whose requests are all matched. -/
theorem pure_of_reached [Runtime] {d : Database}
    (h : Reached (fun d r => r.Proper d ∧ r.Matched d) d) :
    Pure d ∧ ∀ tenantId c, d.currencySum tenantId c = 0 := by
  have hboth : Books d ∧ Pure d := by
    induction h with
    | empty => exact ⟨.empty, fun t ht => by cases ht⟩
    | step r env _ hok ih => exact ⟨ih.1.executed hok.1 env, ih.2.executed ih.1 hok.1 hok.2 env⟩
  exact ⟨hboth.2, hboth.2.currencySum hboth.1⟩

open Sample

/-- Carol is paid in euros. -/
def converted : List (Request × Env) :=
  setup ++ [(opening "platform.fx.conversion.eur" "conversion eur" .EUR, envAt 0 400),
    (opening "users.carol" "carol" .EUR, envAt 0 500),
    (.upsertRate "acme" ⟨.USD, .EUR, ⟨false, 5, -1⟩, "manual", some 0, half_pos⟩, envAt 0 600),
    (pay carol 100 "t1" hundred_pos, envAt 0 2000)]

/-- The books after that: six postings, and each currency sums to zero. -/
theorem pure_of_reached_converted : (script converted .empty).postings.rows.length = 6 ∧
    Pure (script converted .empty) ∧
    ∀ tenantId c, (script converted .empty).currencySum tenantId c = 0 := by
  have hreached : Reached (fun d r => r.Proper d ∧ r.OneCurrency d ∧ d.Labelled)
      (script converted .empty) := Reached.empty.script (by decide +kernel)
  have hlength : (script converted .empty).postings.rows.length = 6 := by decide +kernel
  exact ⟨hlength, pure_of_reached (hreached.mono fun d r h => ⟨h.1, h.2.2.matched h.2.1⟩)⟩

/-- The same, with the conversion account for euros opened in dollars. -/
def mislabelled : List (Request × Env) :=
  setup ++ [(opening "platform.fx.conversion.eur" "conversion eur" .USD, envAt 0 400),
    (opening "users.carol" "carol" .EUR, envAt 0 500),
    (.upsertRate "acme" ⟨.USD, .EUR, ⟨false, 5, -1⟩, "manual", some 0, half_pos⟩, envAt 0 600),
    (pay carol 100 "t1" hundred_pos, envAt 0 2000)]

/-- Carol's euros are paid out of dollars. -/
theorem conversion_mixes_currencies :
    Reached (fun d r => r.Proper d ∧ r.OneCurrency d) (script mislabelled .empty) ∧
    (script mislabelled .empty).currencySum "acme" .EUR = 50 ∧
    ¬ Pure (script mislabelled .empty) := by
  have hreached : Reached (fun d r => r.Proper d ∧ r.OneCurrency d) (script mislabelled .empty) :=
    Reached.empty.script (by decide +kernel)
  have hsum : (script mislabelled .empty).currencySum "acme" .EUR = 50 := by decide +kernel
  refine ⟨hreached, hsum, fun h => ?_⟩
  rw [h.currencySum (hreached.mono fun _ _ h => h.1).books] at hsum
  cases hsum

end Ledger
