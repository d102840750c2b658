import Ledger.Runs.Steps

/-! # Historical Rates

    A rate is resolved as of an instant, from the rows that are effective by
    then.  Rows are only added, but a new row may name any instant.

    * **Publishing**: `rateRow`, the row a request asks for, and
      `publishedRows`, those a sequence of requests adds.
    * **Answers**: `Resolves`, every answer the database may give; the query
      does not say which of two rows with one instant comes first.
    * **Result**: `rate_stable_iff`, when an answer survives a sequence of
      publications as the only one.
-/

namespace Ledger

open ReadCommitted

/-! ## Publishing -/

/-- The row a request publishes: what its environment answers when it draws
    the identifier and reads the clock. -/
def rateRow (tenantId : String) (req : UpsertRateRequest) (env : Env) : FxRate :=
  match req.effectiveAt with
  | some t =>
    { id := BitVec.ofNat 128 (env.ident 0), tenantId, baseCurrency := req.baseCurrency,
      quoteCurrency := req.quoteCurrency, units := numeric req.rate, source := req.source,
      effectiveAt := t, createdAt := env.clock 1 }
  | none =>
    { id := BitVec.ofNat 128 (env.ident 1), tenantId, baseCurrency := req.baseCurrency,
      quoteCurrency := req.quoteCurrency, units := numeric req.rate, source := req.source,
      effectiveAt := env.clock 0, createdAt := env.clock 2 }

/-- A publication, and what its environment answers. -/
structure Publication where
  tenantId : String
  req : UpsertRateRequest
  env : Env

namespace Publication

/-- The row it asks for. -/
def row (p : Publication) : FxRate := rateRow p.tenantId p.req p.env

/-- The request, as a run takes it. -/
def entry (p : Publication) : Request × Env := (.upsertRate p.tenantId p.req, p.env)

end Publication

/-- The rows a sequence of publications adds: those the database accepts. -/
def publishedRows : List Publication → Database → List FxRate
  | [], _ => []
  | p :: ps, d =>
    if d.constrain (.insRate p.row) = .ok () then
      p.row :: publishedRows ps (d.apply (.insRate p.row))
    else publishedRows ps d

/-- One inserting statement and its commit, alone on the database. -/
theorem solo_insert (env : Env) (n : Nat) (d : Database) (w : Write) (reply : Reply) :
    Prog.solo (ε := Err) env (.stmt (fun d _ => (d.constrain w).map fun _ => ((), [w]))
      fun _ => .commit (.ret reply)) n d {} =
      match d.constrain w with
      | .error e => (.error e, d)
      | .ok _ => (.ok reply, d.apply w) := by
  unfold Prog.solo
  rw [replay_nil]
  cases hc : d.constrain w with
  | error e => simp only [hc, Except.map]
  | ok u =>
    simp only [hc, Except.map]
    rfl

/-- A publication runs to one statement, which inserts its row. -/
theorem executed_entry [Runtime] (p : Publication) (d : Database) :
    p.entry.1.executed p.entry.2 d =
      match d.constrain (.insRate p.row) with
      | .error e => (.error e, d)
      | .ok _ => (.ok (.rate p.row.id), d.apply (.insRate p.row)) := by
  obtain ⟨tenantId, ⟨base, quote, rate, source, effectiveAt, hpos⟩, env⟩ := p
  cases effectiveAt with
  | none => exact solo_insert env 3 d _ _
  | some t => exact solo_insert env 2 d _ _

/-- A sequence of publications adds its rows, and nothing else happens to the rates. -/
theorem script_rates [Runtime] (ps : List Publication) (d : Database) :
    (script (ps.map Publication.entry) d).rates.rows = d.rates.rows ++ publishedRows ps d := by
  induction ps generalizing d with
  | nil => simp [script, publishedRows]
  | cons p ps ih =>
    have hstep : script ((p :: ps).map Publication.entry) d =
        script (ps.map Publication.entry) (p.entry.1.executed p.entry.2 d).2 := rfl
    rw [hstep, executed_entry, publishedRows]
    cases hc : d.constrain (.insRate p.row) with
    | error e => simpa using ih d
    | ok u =>
      -- the row was accepted, so its id is new
      have hfresh : d.rates.find? (Keyed.key p.row) = none := Database.fresh_rate hc
      have hrows : (d.apply (.insRate p.row)).rates.rows = d.rates.rows ++ [p.row] :=
        Table.insert_of_fresh hfresh
      have hrest := ih (d.apply (.insRate p.row))
      rw [hrows] at hrest
      simpa using hrest

/-! ## Answers -/

namespace Database

/-- The row quotes the ordered pair and is effective by the instant. -/
def quotedBy (base quote : Currency) (asOf : Time) (r : FxRate) : Bool :=
  r.baseCurrency = base && r.quoteCurrency = quote && r.effectiveAt ≤ asOf

/-- A row the query may return: no row of the pair is effective later. -/
structure Newest (d : Database) (base quote : Currency) (asOf : Time) (r : FxRate) : Prop where
  stored : r ∈ d.rates.rows
  quoted : quotedBy base quote asOf r = true
  newest : ∀ x ∈ d.rates.rows, quotedBy base quote asOf x = true → x.effectiveAt ≤ r.effectiveAt

/-- There is no quote of the ordered pair. -/
def Unquoted (d : Database) (base quote : Currency) (asOf : Time) : Prop :=
  ∀ x ∈ d.rates.rows, quotedBy base quote asOf x = false

/-- What `resolve_rate` may answer; `none` when it raises. -/
inductive Resolves (d : Database) (base quote : Currency) (asOf : Time) :
    Option ResolvedRate → Prop where
  | identity (h : base = quote) : Resolves d base quote asOf (some ⟨ONE, "identity", none, asOf⟩)
  | direct {r : FxRate} (h : base ≠ quote) (hr : d.Newest base quote asOf r) :
      Resolves d base quote asOf (some (directRate r))
  | inverse {r : FxRate} (h : base ≠ quote) (hnone : d.Unquoted base quote asOf)
      (hr : d.Newest quote base asOf r) : Resolves d base quote asOf (inverseRate r)
  | unavailable (h : base ≠ quote) (hnone : d.Unquoted base quote asOf)
      (hnone' : d.Unquoted quote base asOf) : Resolves d base quote asOf none

end Database

section answers

variable {d d' : Database} {base quote : Currency} {asOf : Time} {r : FxRate}

/-- The newer of the best row so far and the next one. -/
def newer (best : Option FxRate) (r : FxRate) : Option FxRate :=
  match best with
  | some b => if b.effectiveAt < r.effectiveAt then some r else some b
  | none => some r

theorem latest_eq (d : Database) (base quote : Currency) (asOf : Time) :
    d.latest base quote asOf =
      (d.rates.rows.filter (Database.quotedBy base quote asOf)).foldl newer none := rfl

theorem newer_of_two (best : Option FxRate) (x : FxRate) : ∃ b, newer best x = some b ∧
    b ∈ best.toList ++ [x] ∧ ∀ y ∈ best.toList ++ [x], y.effectiveAt ≤ b.effectiveAt := by
  cases best with
  | none => exact ⟨x, rfl, by simp, by simp⟩
  | some b =>
    by_cases hlt : b.effectiveAt < x.effectiveAt
    · exact ⟨x, if_pos hlt, by simp, by simp [hlt.le]⟩
    · exact ⟨b, if_neg hlt, by simp, by simp [not_lt.mp hlt]⟩

/-- The scan ends at a newest of the rows it saw. -/
theorem newest_of_foldl (rows : List FxRate) (best : Option FxRate)
    (h : rows.foldl newer best = some r) :
    r ∈ best.toList ++ rows ∧ ∀ x ∈ best.toList ++ rows, x.effectiveAt ≤ r.effectiveAt := by
  induction rows generalizing best with
  | nil =>
    rw [List.foldl_nil] at h
    subst h
    simp
  | cons x rows ih =>
    rw [List.foldl_cons] at h
    obtain ⟨b, hb, hmem, hnewest⟩ := newer_of_two best x
    rw [hb] at h
    obtain ⟨hr, hrows⟩ := ih (some b) h
    rw [← List.singleton_append, ← List.append_assoc]
    constructor
    · rcases List.mem_cons.mp hr with rfl | hr
      · exact List.mem_append_left _ hmem
      · exact List.mem_append_right _ hr
    · intro y hy
      rcases List.mem_append.mp hy with hy | hy
      · -- what was passed over for `b` is no newer than what the rest led to
        exact le_trans (hnewest y hy) (hrows b List.mem_cons_self)
      · exact hrows y (List.mem_cons_of_mem _ hy)

/-- It ends at none only where it saw none. -/
theorem nil_of_foldl (rows : List FxRate) (best : Option FxRate)
    (h : rows.foldl newer best = none) : best = none ∧ rows = [] := by
  induction rows generalizing best with
  | nil => exact ⟨h, rfl⟩
  | cons x rows ih =>
    rw [List.foldl_cons] at h
    obtain ⟨b, hb, -⟩ := newer_of_two best x
    rw [hb] at h
    cases (ih (some b) h).1

/-- The row the model of the query picks is a newest one. -/
theorem newest_of_latest (h : d.latest base quote asOf = some r) : d.Newest base quote asOf r := by
  rw [latest_eq] at h
  obtain ⟨hmem, hnewest⟩ := newest_of_foldl _ _ h
  obtain ⟨hstored, hquoted⟩ := List.mem_filter.mp hmem
  exact ⟨hstored, hquoted, fun x hx hq => hnewest x (List.mem_filter.mpr ⟨hx, hq⟩)⟩

/-- It picks none only where there is none. -/
theorem unquoted_of_latest (h : d.latest base quote asOf = none) : d.Unquoted base quote asOf := by
  rw [latest_eq] at h
  obtain ⟨-, hnil⟩ := nil_of_foldl _ _ h
  intro x hx
  have hnot := List.filter_eq_nil_iff.mp hnil x hx
  simpa using hnot

/-- The answer of the service's model is one the database may give. -/
theorem resolves_resolve (d : Database) (base quote : Currency) (asOf : Time) :
    d.Resolves base quote asOf (d.resolve base quote asOf) := by
  unfold Database.resolve
  by_cases heq : base = quote
  · rw [if_pos heq]
    exact .identity heq
  rw [if_neg heq]
  cases hdirect : d.latest base quote asOf with
  | some r => exact .direct heq (newest_of_latest hdirect)
  | none =>
    cases hinverse : d.latest quote base asOf with
    | some r => exact .inverse heq (unquoted_of_latest hdirect) (newest_of_latest hinverse)
    | none => exact .unavailable heq (unquoted_of_latest hdirect) (unquoted_of_latest hinverse)

/-! ## Stability -/

/-- The row is the only newest one of the pair, and no row of `new` is
    effective from its instant on and by `asOf`. -/
structure Kept (d : Database) (new : List FxRate) (base quote : Currency) (asOf : Time)
    (r : FxRate) : Prop where
  newest : d.Newest base quote asOf r
  alone : ∀ x ∈ d.rates.rows, Database.quotedBy base quote asOf x = true → x ≠ r →
    x.effectiveAt < r.effectiveAt
  kept : ∀ x ∈ new, x.baseCurrency = base → x.quoteCurrency = quote →
    x.effectiveAt < r.effectiveAt ∨ asOf < x.effectiveAt

/-- The rows of `new` leave the answer as it is. -/
inductive RateStable (d : Database) (new : List FxRate) (base quote : Currency) (asOf : Time) :
    Prop where
  | identity (h : base = quote)
  /-- A direct quote, superseded by no direct quote. -/
  | direct {x : FxRate} (h : base ≠ quote) (hr : Kept d new base quote asOf x)
  /-- An inverse quote, superseded by no inverse and by no direct quote. -/
  | inverse {x : FxRate} (h : base ≠ quote) (hnone : d.Unquoted base quote asOf)
      (hnew : ∀ y ∈ new, y.baseCurrency = base → y.quoteCurrency = quote → asOf < y.effectiveAt)
      (hr : Kept d new quote base asOf x)

variable {new : List FxRate}

theorem quotedBy_iff {x : FxRate} : Database.quotedBy base quote asOf x = true ↔
    x.baseCurrency = base ∧ x.quoteCurrency = quote ∧ x.effectiveAt ≤ asOf := by
  unfold Database.quotedBy
  simp [and_assoc]

/-- A kept row is the only one the query may return, before and after. -/
theorem Kept.newest_iff (hrows : d'.rates.rows = d.rates.rows ++ new)
    (h : Kept d new base quote asOf r) (x : FxRate) : d'.Newest base quote asOf x ↔ x = r := by
  have hlater : ∀ y ∈ d'.rates.rows, Database.quotedBy base quote asOf y = true → y ≠ r →
      y.effectiveAt < r.effectiveAt := by
    intro y hy hq hne
    rw [hrows] at hy
    rcases List.mem_append.mp hy with hy | hy
    · exact h.alone y hy hq hne
    · obtain ⟨hb, hq', hle⟩ := quotedBy_iff.mp hq
      rcases h.kept y hy hb hq' with hlt | hlt
      · exact hlt
      · exact absurd hle (not_le.mpr hlt)
  have hmem : r ∈ d'.rates.rows := by
    rw [hrows]
    exact List.mem_append_left _ h.newest.stored
  constructor
  · intro hx
    by_contra hne
    have hlt := hlater x hx.stored hx.quoted hne
    exact absurd (hx.newest r hmem h.newest.quoted) (not_le.mpr hlt)
  · rintro rfl
    refine ⟨hmem, h.newest.quoted, fun y hy hq => ?_⟩
    by_cases hne : y = x
    · rw [hne]
    · exact le_of_lt (hlater y hy hq hne)

/-- A row that alone may be returned afterwards was kept. -/
theorem kept_of_newest (hrows : d'.rates.rows = d.rates.rows ++ new) (hr : r ∈ d.rates.rows)
    (hnewest : d'.Newest base quote asOf r)
    (halone : ∀ x, d'.Newest base quote asOf x → x.id = r.id) : Kept d new base quote asOf r := by
  have hold : ∀ {x : FxRate}, x ∈ d.rates.rows → x ∈ d'.rates.rows := by
    intro x hx
    rw [hrows]
    exact List.mem_append_left _ hx
  -- another row with the instant of `r` could be returned as well
  have hlt : ∀ x ∈ d'.rates.rows, Database.quotedBy base quote asOf x = true → x ≠ r →
      x.effectiveAt < r.effectiveAt := by
    intro x hx hq hne
    rcases lt_or_eq_of_le (hnewest.newest x hx hq) with hlt | heq
    · exact hlt
    · have hx' : d'.Newest base quote asOf x := by
        refine ⟨hx, hq, fun y hy hyq => ?_⟩
        rw [heq]
        exact hnewest.newest y hy hyq
      exact absurd (Table.eq_of_key_eq _ hx (hold hr) (halone x hx')) hne
  refine ⟨⟨hr, hnewest.quoted, fun x hx hq => hnewest.newest x (hold hx) hq⟩,
    fun x hx hq hne => hlt x (hold hx) hq hne, ?_⟩
  intro x hx hb hq
  rcases lt_or_ge asOf x.effectiveAt with hout | hin
  · exact .inr hout
  · left
    have hx' : x ∈ d'.rates.rows := by
      rw [hrows]
      exact List.mem_append_right _ hx
    apply hlt x hx' (quotedBy_iff.mpr ⟨hb, hq, hin⟩)
    rintro rfl
    -- no row is stored twice
    have hnodup := d'.rates.nodup
    rw [hrows, List.map_append] at hnodup
    exact (List.disjoint_of_nodup_append hnodup) (List.mem_map_of_mem hr) (List.mem_map_of_mem hx)

end answers

/-! ## Result -/

section result

variable {d d' : Database} {new : List FxRate} {base quote : Currency} {asOf : Time} {r : FxRate}
  {res : ResolvedRate} {o : Option ResolvedRate}

/-- A pair of one currency is not looked up. -/
theorem resolves_identity (h : base = quote) :
    d.Resolves base quote asOf o ↔ o = some ⟨ONE, "identity", none, asOf⟩ := by
  constructor
  · intro ho
    cases ho with
    | identity _ => rfl
    | direct hne _ => exact absurd h hne
    | inverse hne _ _ => exact absurd h hne
    | unavailable hne _ _ => exact absurd h hne
  · rintro rfl
    exact .identity h

/-- A kept direct quote is the only answer, before and after. -/
theorem Kept.resolves_direct (hrows : d'.rates.rows = d.rates.rows ++ new) (hne : base ≠ quote)
    (h : Kept d new base quote asOf r) :
    d'.Resolves base quote asOf o ↔ o = some (Database.directRate r) := by
  have hr := (h.newest_iff hrows r).mpr rfl
  have hquoted : ¬ d'.Unquoted base quote asOf := by
    intro hnone
    have hno := hnone r hr.stored
    rw [hr.quoted] at hno
    cases hno
  constructor
  · intro ho
    cases ho with
    | identity heq => exact absurd heq hne
    | direct _ hx => rw [(h.newest_iff hrows _).mp hx]
    | inverse _ hnone _ => exact absurd hnone hquoted
    | unavailable _ hnone _ => exact absurd hnone hquoted
  · rintro rfl
    exact .direct hne hr

/-- A kept inverse quote is the only answer where there is no direct one. -/
theorem Kept.resolves_inverse (hrows : d'.rates.rows = d.rates.rows ++ new) (hne : base ≠ quote)
    (hnone : d'.Unquoted base quote asOf) (h : Kept d new quote base asOf r) :
    d'.Resolves base quote asOf o ↔ o = Database.inverseRate r := by
  have hr := (h.newest_iff hrows r).mpr rfl
  constructor
  · intro ho
    cases ho with
    | identity heq => exact absurd heq hne
    | direct _ hx =>
      have hno := hnone _ hx.stored
      rw [hx.quoted] at hno
      cases hno
    | inverse _ _ hx => rw [(h.newest_iff hrows _).mp hx]
    | unavailable _ _ hnone' =>
      have hno := hnone' r hr.stored
      rw [hr.quoted] at hno
      cases hno
  · rintro rfl
    exact .inverse hne hnone hr

theorem Kept.before (h : Kept d new base quote asOf r) : Kept d [] base quote asOf r :=
  ⟨h.newest, h.alone, by simp⟩

/-- New rows of the pair that are not effective yet leave it without a quote. -/
theorem unquoted_append (hrows : d'.rates.rows = d.rates.rows ++ new) :
    d'.Unquoted base quote asOf ↔ d.Unquoted base quote asOf ∧
      ∀ x ∈ new, x.baseCurrency = base → x.quoteCurrency = quote → asOf < x.effectiveAt := by
  have hno : ∀ x : FxRate, Database.quotedBy base quote asOf x = false ↔
      (x.baseCurrency = base → x.quoteCurrency = quote → asOf < x.effectiveAt) := by
    intro x
    rw [← Bool.not_eq_true, quotedBy_iff]
    simp only [not_and, not_le]
  unfold Database.Unquoted
  rw [hrows]
  constructor
  · intro h
    refine ⟨fun x hx => h x (List.mem_append_left _ hx), fun x hx => ?_⟩
    exact (hno x).mp (h x (List.mem_append_right _ hx))
  · rintro ⟨hold, hnew⟩ x hx
    rcases List.mem_append.mp hx with hx | hx
    · exact hold x hx
    · exact (hno x).mpr (hnew x hx)

/-- A stable answer is the only one afterwards. -/
theorem RateStable.resolves_iff (hrows : d'.rates.rows = d.rates.rows ++ new)
    (hres : d.Resolves base quote asOf (some res)) (h : RateStable d new base quote asOf) :
    d'.Resolves base quote asOf o ↔ o = some res := by
  have hsame : d.rates.rows = d.rates.rows ++ [] := by simp
  cases h with
  | identity heq => rw [resolves_identity heq, ← (resolves_identity heq).mp hres]
  | direct hne hr =>
    rw [hr.resolves_direct hrows hne, ← (hr.before.resolves_direct hsame hne).mp hres]
  | inverse hne hnone hnew hr =>
    have hnone' := (unquoted_append hrows).mpr ⟨hnone, hnew⟩
    rw [hr.resolves_inverse hrows hne hnone',
      ← (hr.before.resolves_inverse hsame hne hnone).mp hres]

/-- An answer names the row it was derived from. -/
theorem rateId_inverse (h : Database.inverseRate r = some res) : res.rateId = some r.id := by
  unfold Database.inverseRate at h
  obtain ⟨q, -, rfl⟩ := Option.map_eq_some_iff.mp h
  rfl

/-- An answer that is the only one afterwards was stable. -/
theorem RateStable.of_resolves (hrows : d'.rates.rows = d.rates.rows ++ new)
    (hres : d.Resolves base quote asOf (some res))
    (h : ∀ o, d'.Resolves base quote asOf o ↔ o = some res) : RateStable d new base quote asOf := by
  have hold : ∀ {x : FxRate}, x ∈ d.rates.rows → x ∈ d'.rates.rows := by
    intro x hx
    rw [hrows]
    exact List.mem_append_left _ hx
  -- the row is told from the others by its id
  have hrow : ∀ {x y : FxRate}, x ∈ d'.rates.rows → y ∈ d.rates.rows → x.id = y.id → x = y := by
    intro x y hx hy hid
    exact Table.eq_of_key_eq _ hx (hold hy) hid
  have hafter := (h (some res)).mpr rfl
  generalize hres' : some res = answer at hres
  cases hres with
  | identity heq => exact .identity heq
  | @direct r hne hr =>
    cases hres'
    generalize hafter' : some (Database.directRate r) = answer at hafter
    cases hafter with
    | identity heq => exact absurd heq hne
    | @direct x _ hx =>
      have hid : x.id = r.id := by
        have := congrArg (Option.map ResolvedRate.rateId) hafter'
        simpa [Database.directRate, eq_comm] using this
      -- the answer is the same, so it was read off the same row
      obtain rfl := hrow hx.stored hr.stored hid
      refine .direct hne (kept_of_newest hrows hr.stored hx fun y hy => ?_)
      have hy' := (h _).mp (.direct hne hy)
      simpa [Database.directRate] using congrArg (Option.map ResolvedRate.rateId) hy'
    | inverse _ hnone _ =>
      have hno := hnone r (hold hr.stored)
      rw [hr.quoted] at hno
      cases hno
    | unavailable _ _ _ => cases hafter'
  | @inverse r hne hnone hr =>
    have hid := rateId_inverse hres'.symm
    generalize hafter' : some res = answer at hafter
    cases hafter with
    | identity heq => exact absurd heq hne
    | @direct x _ hx =>
      -- the row would quote the pair both ways
      cases hafter'
      have hxr : x.id = r.id := by simpa [Database.directRate] using hid
      obtain rfl := hrow hx.stored hr.stored hxr
      exact absurd ((quotedBy_iff.mp hx.quoted).1.symm.trans (quotedBy_iff.mp hr.quoted).1) hne
    | @inverse x _ hnone' hx =>
      have hxr : x.id = r.id := by
        have := (rateId_inverse hafter'.symm).symm.trans hid
        simpa using this
      obtain rfl := hrow hx.stored hr.stored hxr
      refine .inverse hne hnone ((unquoted_append hrows).mp hnone').2
        (kept_of_newest hrows hr.stored hx fun y hy => ?_)
      have hy' := (h _).mp (.inverse hne hnone' hy)
      have := (rateId_inverse hy').symm.trans hid
      simpa using this
    | unavailable _ _ _ => cases hafter'
  | unavailable _ _ _ => cases hres'

/-- **Historical rates**: after a sequence of publications an answer is still
    the only one iff it was read from the only newest row of its pair, no
    publication is effective from that row's instant on and by `asOf`, and,
    for a reciprocal, none quotes the pair directly by then. -/
theorem rate_stable_iff [Runtime] (d : Database) (ps : List Publication) (base quote : Currency)
    (asOf : Time) (res : ResolvedRate) (hres : d.Resolves base quote asOf (some res)) :
    (∀ o, (script (ps.map Publication.entry) d).Resolves base quote asOf o ↔ o = some res) ↔
      RateStable d (publishedRows ps d) base quote asOf := by
  have hrows := script_rates ps d
  constructor
  · intro h
    exact .of_resolves hrows hres h
  · intro h o
    exact h.resolves_iff hrows hres

end result

open Sample

/-- A quote of the dollar in euros, effective from an instant on; it is
    published at the instant 20. -/
def quoteFrom (effectiveAt : Time) (units id : Nat) : Publication :=
  ⟨"acme", ⟨.USD, .EUR, ⟨false, units + 1, -2⟩, "manual", some effectiveAt, ⟨rfl, by simp⟩⟩,
    envAt 20 id⟩

/-- One quote, effective from the start. -/
def quoted : Database := script ([quoteFrom 0 91 1].map Publication.entry) .empty

/-- A quote for the future does not touch the answer for the instant 10. -/
theorem rate_stable_future : ∃ res, quoted.Resolves .USD .EUR 10 (some res) ∧
    ∀ o, (script ([quoteFrom 30 94 2].map Publication.entry) quoted).Resolves .USD .EUR 10 o ↔
      o = some res := by
  have hres : quoted.Resolves .USD .EUR 10
      (some (Database.directRate (quoteFrom 0 91 1).row)) := by
    have h := resolves_resolve quoted .USD .EUR 10
    rwa [show quoted.resolve .USD .EUR 10 = some (Database.directRate (quoteFrom 0 91 1).row) from
      rfl] at h
  refine ⟨_, hres, (rate_stable_iff quoted [quoteFrom 30 94 2] .USD .EUR 10 _ hres).mpr ?_⟩
  have hrows : quoted.rates.rows = [(quoteFrom 0 91 1).row] := rfl
  have hnew : publishedRows [quoteFrom 30 94 2] quoted = [(quoteFrom 30 94 2).row] := by
    decide +kernel
  refine .direct (by decide) (x := (quoteFrom 0 91 1).row) ⟨⟨?_, rfl, ?_⟩, ?_, ?_⟩
  · simp [hrows]
  · simp [hrows]
  · simp [hrows]
  · rw [hnew]
    decide +kernel

/-- A quote published later for an earlier instant replaces it. -/
theorem rate_replaced :
    (quoted.resolve .USD .EUR 10).map (fun r => (r.rateId, r.rate)) =
      some (some 1, ⟨false, 9200000000, -10⟩) ∧
    ((script ([quoteFrom 5 94 2].map Publication.entry) quoted).resolve .USD .EUR 10).map
      (fun r => (r.rateId, r.rate)) = some (some 2, ⟨false, 9500000000, -10⟩) := by
  decide +kernel

end Ledger
