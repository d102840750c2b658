import Ledger.Properties.Conversions

/-! # Positive Rates

    A rate is positive when it is published, and stored in units of `10^-10`.

    * **Column**: `numeric_eq_zero_iff`, which rates are stored as zero.
    * **Runs**: `rates_of_script`, every stored rate was published.
    * **Result**: `rate_positive_iff`, when the rate that is resolved, and at
      which a transfer converts, is positive.
-/

namespace Ledger

open ReadCommitted Decimal

/-! ## The Column -/

/-- Half a unit of the column, which is stored as a whole one. -/
def halfUnit : ℚ := 1 / (2 * 10 ^ 10)

/-- A rate is stored as zero iff it is below half a unit of the column. -/
theorem numeric_eq_zero_iff {rate : Decimal} (h : rate.neg = false) :
    numeric rate = 0 ↔ value rate < halfUnit := by
  obtain ⟨n, c, e⟩ := rate
  subst h
  rw [value_false, halfUnit, numeric]
  simp only
  split_ifs with he
  · -- no digit is dropped
    obtain ⟨k, hk⟩ := Int.eq_ofNat_of_zero_le he
    have hvalue : (c : ℚ) * 10 ^ e = (c * 10 ^ k : ℕ) / 10 ^ 10 := by
      rw [show e = (k : ℤ) - (10 : ℕ) by push_cast; omega, zpow_sub₀ (by norm_num), zpow_natCast,
        zpow_natCast]
      push_cast
      ring
    rw [hk, Int.toNat_natCast, hvalue, div_lt_div_iff₀ (by positivity) (by positivity)]
    obtain ⟨m, hm⟩ : ∃ m, m = c * 10 ^ k := ⟨_, rfl⟩
    rw [← hm]
    constructor
    · rintro rfl
      norm_num
    · intro h
      have h' : m * (2 * 10 ^ 10) < 1 * 10 ^ 10 := by exact_mod_cast h
      omega
  · obtain ⟨k, hk⟩ := Int.eq_ofNat_of_zero_le (by omega : 0 ≤ -(e + 10))
    have hvalue : (c : ℚ) * 10 ^ e = c / (10 ^ k * 10 ^ 10) := by
      rw [show e = -((k + 10 : ℕ) : ℤ) by push_cast; omega, zpow_neg, zpow_natCast, pow_add,
        div_eq_mul_inv]
    have hpos : 0 < 10 ^ k := by positivity
    rw [hk, Int.toNat_natCast, hvalue, div_lt_div_iff₀ (by positivity) (by positivity),
      Nat.div_eq_zero_iff_lt (by omega)]
    constructor
    · intro h
      have h' : ((2 * c : ℕ) : ℚ) < ((10 ^ k : ℕ) : ℚ) := by
        exact_mod_cast (by omega : 2 * c < 10 ^ k)
      push_cast at h'
      linarith
    · intro h
      have h' : ((2 * c : ℕ) : ℚ) < ((10 ^ k : ℕ) : ℚ) := by
        push_cast
        linarith
      have h'' : 2 * c < 10 ^ k := by exact_mod_cast h'
      omega

/-- What is stored and not zero is positive. -/
theorem value_rate_pos_iff (r : FxRate) : 0 < value r.rate ↔ 0 < r.units := by
  rw [value_rate]
  have hunit : (0 : ℚ) < 10 ^ (-10 : ℤ) := zpow_pos (by norm_num) _
  rw [mul_pos_iff_of_pos_right hunit]
  exact_mod_cast Iff.rfl

/-- The reciprocal of a stored rate is positive, or there is none. -/
theorem inverseRate_pos {r : FxRate} {q : ResolvedRate} (h : Database.inverseRate r = some q) :
    0 < value q.rate := by
  obtain ⟨reciprocal, hdiv, rfl⟩ := Option.map_eq_some_iff.mp h
  have hunits : r.units ≠ 0 := div_isSome.mp (by rw [hdiv]; rfl : (ONE.div r.rate).isSome)
  have hone : value ONE = 1 := by simp [value, ONE]
  rw [value_div hdiv, hone]
  apply toContext_pos
  have hrate := (value_rate_pos_iff r).mpr (Nat.pos_of_ne_zero hunits)
  positivity

/-! ## Runs -/

section runs

variable [Runtime]

/-- A request that publishes no rate leaves the rates as they are. -/
theorem rates_executed {r : Request} (env : Env) (d : Database)
    (h : ∀ tenantId req, r ≠ .upsertRate tenantId req) : (r.executed env d).2.rates = d.rates := by
  obtain ⟨ws, hout, -, hafter⟩ := executed_outcome r env d
  rw [hafter]
  apply Database.replay_rates
  have hemission {txn : Transaction} {legs : List Leg} {event : OutboxEvent} {w : Write}
      (hw : w ∈ emission txn legs event) : w.table ≠ .rates := by
    rcases table_emission hw with h | h | h | h <;> simp [h]
  intro w hw
  cases hout with
  | rated => exact absurd rfl (h _ _)
  | posted hpost => exact hemission hw
  | transferred | captured | reversed =>
    rcases List.mem_append.mp hw with hw | hw
    · exact hemission hw
    · rw [List.mem_singleton.mp hw]
      exact fun hb => by cases hb
  | converted =>
    rcases List.mem_append.mp hw with hw | hw
    · rcases List.mem_append.mp hw with hw | hw
      · exact hemission hw
      · exact hemission hw
    · rw [List.mem_singleton.mp hw]
      exact fun hb => by cases hb
  | nothing => cases hw
  | opened | placed | released | dispatched | imported | swept =>
    simp only [List.mem_cons, List.mem_map, List.not_mem_nil, or_false] at hw
    grind [Write.table]

/-- **Every stored rate** was published by one of the requests. -/
theorem rates_of_script (rs : List (Request × Env)) {d : Database} {x : FxRate}
    (hx : x ∈ (script rs d).rates.rows) : x ∈ d.rates.rows ∨
      ∃ tenantId req env, (.upsertRate tenantId req, env) ∈ rs ∧ x = rateRow tenantId req env := by
  induction rs generalizing d with
  | nil => exact .inl hx
  | cons p rs ih =>
    obtain ⟨r, env⟩ := p
    rcases ih (d := (r.executed env d).2) hx with hx | ⟨tenantId, req, env', hmem, rfl⟩
    · by_cases hr : ∀ tenantId req, r ≠ .upsertRate tenantId req
      · rw [rates_executed env d hr] at hx
        exact .inl hx
      · push Not at hr
        obtain ⟨tenantId, req, rfl⟩ := hr
        -- the publication is refused, or adds its row
        have hentry := executed_entry ⟨tenantId, req, env⟩ d
        simp only [Publication.entry] at hentry
        rw [hentry] at hx
        cases hc : d.constrain (.insRate (Publication.row ⟨tenantId, req, env⟩)) with
        | error e =>
          rw [hc] at hx
          exact .inl hx
        | ok u =>
          rw [hc] at hx
          rcases Table.mem_insert.mp hx with hx | ⟨hx, -⟩
          · exact .inl hx
          · exact .inr ⟨tenantId, req, env, List.mem_cons_self, hx⟩
    · exact .inr ⟨tenantId, req, env', List.mem_cons_of_mem _ hmem, rfl⟩

/-- No rate below half a unit of the column is the newest quote of the pair. -/
def PublishedAbove (rs : List (Request × Env)) (base quote : Currency) (asOf : Time) : Prop :=
  ∀ tenantId req env, (.upsertRate tenantId req, env) ∈ rs →
    (script rs .empty).Newest base quote asOf (rateRow tenantId req env) →
    halfUnit ≤ value req.rate

omit [Runtime] in
theorem rateRow_units (tenantId : String) (req : UpsertRateRequest) (env : Env) :
    (rateRow tenantId req env).units = numeric req.rate := by
  unfold rateRow
  cases req.effectiveAt <;> rfl

/-- The quotes of a pair are read as positive rates iff they were published as
    rates the column can tell from zero. -/
theorem PublishedAbove.resolves_iff {rs : List (Request × Env)} {base quote : Currency}
    {asOf : Time} (hne : base ≠ quote) : PublishedAbove rs base quote asOf ↔
      ∀ q, (script rs .empty).Resolves base quote asOf (some q) → 0 < value q.rate := by
  constructor
  · intro habove q hq
    generalize hanswer : some q = answer at hq
    cases hq with
    | identity heq => exact absurd heq hne
    | @direct r _ hr =>
      cases hanswer
      -- the row was published by some request
      rcases rates_of_script rs hr.stored with h | ⟨tenantId, req, env, hmem, rfl⟩
      · cases h
      · have hrate := habove tenantId req env hmem hr
        show 0 < value (FxRate.rate _)
        rw [value_rate_pos_iff, rateRow_units]
        by_contra h0
        have hzero : numeric req.rate = 0 := by omega
        exact ((numeric_eq_zero_iff req.rate_pos.1).mp hzero).not_ge hrate
    | inverse => exact inverseRate_pos hanswer.symm
    | unavailable => cases hanswer
  · intro hpos tenantId req env hmem hr
    have h := hpos _ (.direct hne hr)
    by_contra hlt
    have hzero := (numeric_eq_zero_iff req.rate_pos.1).mpr (not_le.mp hlt)
    have hunits : 0 < (rateRow tenantId req env).units := (value_rate_pos_iff _).mp h
    rw [rateRow_units] at hunits
    omega

/-- **Positive rates**: in a database built by any requests the rate of a pair
    at an instant, if there is one, is positive iff the newest direct quote was
    published as at least half a unit of the column; and where that is so for
    its currencies a transfer across them is executed at a positive rate. -/
theorem rate_positive_iff (rs : List (Request × Env)) :
    (∀ base quote asOf,
      (∀ q, (script rs .empty).Resolves base quote asOf (some q) → 0 < value q.rate) ↔
        (base ≠ quote → PublishedAbove rs base quote asOf)) ∧
    ∀ tenantId req key env reply d', (Request.transfer tenantId req key).executed env
        (script rs .empty) = (.ok reply, d') →
      (script rs .empty).records.find? ⟨tenantId, ENDPOINT, key⟩ = none →
      ∃ src dst now, (script rs .empty).HasAccount tenantId req.sourceAccountId src ∧
        (script rs .empty).HasAccount tenantId req.destinationAccountId dst ∧ env.Reads now ∧
        (src.currency ≠ dst.currency →
          PublishedAbove rs src.currency dst.currency (req.effectiveAt.getD now) →
          ∃ q target, (script rs .empty).resolve src.currency dst.currency
              (req.effectiveAt.getD now) = some q ∧
            convert req.amount src.currency dst.currency q.rate = some target ∧
            0 < value q.rate) := by
  constructor
  · intro base quote asOf
    by_cases hne : base = quote
    · -- the identity rate is one
      refine iff_of_true (fun q hq => ?_) fun h => absurd hne h
      generalize hanswer : some q = answer at hq
      cases hq with
      | identity =>
        cases hanswer
        simp [value, ONE]
      | direct h => exact absurd hne h
      | inverse h => exact absurd hne h
      | unavailable h => exact absurd hne h
    · rw [← PublishedAbove.resolves_iff hne]
      exact ⟨fun h _ => h, fun h => h hne⟩
  · intro tenantId req key env reply d' hok hunseen
    -- what the transfer ran with is what the database would answer
    cases transfer_outcome hok with
    | replayed hfound =>
      rw [hunseen] at hfound
      cases hfound
    | executed run hg hnow =>
      have hgM := run.prelude.rely.1
      have hgS := (run.lookup.trans run.readSrc).rely.1
      have hgD := ((run.lookup.trans run.readSrc).trans run.readDst).rely.1
      have hsrc := run.src_eq
      have hdst := run.dst_eq
      have hmoved := run.moved.alone run.txM_log
      rw [hgM, hg, run.effective] at hmoved
      rw [hgS, hg] at hsrc
      rw [hgD, hg] at hdst
      refine ⟨run.src, run.dst, run.gM.clock, hsrc, hdst, hnow, fun hcur habove => ?_⟩
      generalize run.ws = ws at hmoved
      generalize run.txnId = id at hmoved
      generalize run.event = event at hmoved
      cases hmoved with
      | direct hsame => exact absurd hsame hcur
      | routed _ hrate hconv =>
        refine ⟨_, _, hrate, hconv, ?_⟩
        have hresolves := resolves_resolve (script rs .empty) run.src.currency run.dst.currency
          (req.effectiveAt.getD run.gM.clock)
        rw [hrate] at hresolves
        exact (PublishedAbove.resolves_iff hcur).mp habove _ hresolves

end runs

open Sample

/-- The dollar is quoted at 0.00000000001 euros, and Carol's account is in
    euros. -/
def nothingQuoted : Database :=
  script (setup ++ [(opening "platform.fx.conversion.eur" "conversion eur" .EUR, envAt 0 400),
    (opening "users.carol" "carol" .EUR, envAt 0 500),
    (.upsertRate "acme" ⟨.USD, .EUR, ⟨false, 1, -11⟩, "manual", some 0, by decide⟩, envAt 0 600)])
    .empty

/-- The rate was accepted as positive and is resolved as zero: Alice pays a
    hundred, and Carol is credited nothing. -/
theorem rate_vanishes :
    (nothingQuoted.resolve .USD .EUR 10).map ResolvedRate.rate = some ⟨false, 0, -10⟩ ∧
      ((pay carol 100 "t1" (by decide)).executed (envAt 10 2000) nothingQuoted).1 =
        .ok (.transfer 200 ⟨2010, 100, 0⟩) := by
  decide +kernel

end Ledger
