import Ledger.Runs.Admission
import Ledger.Properties.Undo

/-! # What the Engine Folds

    The engine updates the snapshot of each leg and never looks at how many
    rows the update matched.  A call that returns has then folded the legs it
    found a snapshot for, and only those.

    * **Figures**: the balance, the version and the drift of an account.
    * **The engine**: `post_folds_iff`, when every leg is folded or nothing
      has changed.
-/

namespace Ledger

open ReadCommitted

/-! ## Figures -/

/-- The balance and the version of a snapshot. -/
def Database.figures (d : Database) (account : UUID) : Option (Int × Int) :=
  (d.balances.find? account).map fun b => (b.balance, b.version)

/-- `check_balance_drift`: snapshot minus recompute, or `none` if the account
    has no snapshot. -/
def Database.drift (d : Database) (tenantId : String) (account : UUID) : Option Int :=
  match d.balances.find? account with
  | none => none
  | some b => if b.tenantId ≠ tenantId then none else some (b.balance - d.recompute account)

/-- Every leg is folded into the snapshot of its account. -/
structure FoldedAll (d d' : Database) (specs : List PostingSpec) : Prop where
  /-- A missing snapshot is an error. -/
  present : ∀ spec ∈ specs, (d.figures spec.accountId).isSome = true
  grown : ∀ a, d'.figures a =
    (d.figures a).map fun f => (f.1 + specsOn specs a, f.2 + (legsOn specs a : Int))
  drift : ∀ tenantId a, d'.drift tenantId a = d.drift tenantId a

/-- The legs the engine has to refuse. -/
inductive Refused (d : Database) (tenantId : String) (specs : List PostingSpec) : Prop where
  | few (h : specs.length < 2)
  | unbalanced (h : (specs.map PostingSpec.amount).sum ≠ 0)
  | unmatched {spec : PostingSpec} (hmem : spec ∈ specs)
      (h : Svc.matched d tenantId spec.accountId = false)

/-- The engine folds every leg, or it raises and nothing has changed. -/
def FoldsOrFails [Runtime] (env : Env) (d : Database) (tenantId : String)
    (specs : List PostingSpec) (memo : String) : Prop :=
  match (Request.post tenantId specs memo).executed env d with
  | (.ok _, d') => FoldedAll d d' specs ∧ ¬ Refused d tenantId specs
  | (.error _, d') => d' = d

/-! ## The Engine -/

section engine

variable [Runtime] {env : Env} {d : Database} {tenantId memo : String} {specs : List PostingSpec}

omit [Runtime] in
/-- The amounts the legs of a call fold into the snapshot of an account. -/
theorem bumpsOn_legsAt (txn : UUID) (node : Nat) (a : UUID) :
    (bumpsOn (legWrites (legsAt env tenantId d txn node specs)) a).map Prod.fst =
      if Svc.matched d tenantId a then
        (specs.filter fun s => s.accountId = a).map PostingSpec.amount
      else [] := by
  induction specs generalizing node with
  | nil => simp [legsAt]
  | cons spec specs ih =>
    rw [legsAt, legWrites_cons, bumpsOn_append, List.map_append, ih]
    by_cases ha : spec.accountId = a
    · subst ha
      cases Svc.matched d tenantId spec.accountId <;> simp [Leg.writes, bumpsOn]
    · cases Svc.matched d tenantId spec.accountId <;> simp [Leg.writes, bumpsOn, ha]

/-- The snapshot of an account after a call: the legs on it are folded in if it
    is the tenant's, and otherwise it is untouched. -/
theorem balance_callRows (env : Env) (d : Database) (tenantId memo : String)
    (specs : List PostingSpec) (a : UUID) : ∃ xs : List (Int × UUID),
    (replay d (callRows env tenantId 0 0 d specs memo)).balances.find? a =
      (d.balances.find? a).map (fun b => b.foldAll xs) ∧
    (xs.map Prod.fst).sum = (if Svc.matched d tenantId a then specsOn specs a else 0) ∧
    xs.length = if Svc.matched d tenantId a then legsOn specs a else 0 := by
  have hrest : bumpsOn (callRows env tenantId 0 0 d specs memo) a =
      bumpsOn (legWrites (legsAt env tenantId d (BitVec.ofNat 128 (env.ident 0)) 3 specs)) a := by
    unfold callRows emission
    rw [List.cons_append, bumpsOn_cons, bumpsOn_append, bumpsOn_of_table (by simp [Write.table]),
      bumpsOn_of_table (by simp [Write.table]), List.nil_append, List.append_nil]
    rfl
  have hbumps : (bumpsOn (callRows env tenantId 0 0 d specs memo) a).map Prod.fst =
      if Svc.matched d tenantId a
      then (specs.filter fun s => s.accountId = a).map PostingSpec.amount else [] := by
    rw [hrest, bumpsOn_legsAt]
  refine ⟨bumpsOn (callRows env tenantId 0 0 d specs memo) a,
    replay_balance _ _ (noNewSnapshot_emission _ _ _) a, ?_, ?_⟩
  · rw [hbumps]
    split_ifs <;> simp [specsOn]
  · rw [← List.length_map Prod.fst, hbumps]
    split_ifs <;> simp [legsOn]

/-- The figures after a call: those of the accounts whose snapshot matched have grown. -/
theorem figures_callRows (a : UUID) :
    (replay d (callRows env tenantId 0 0 d specs memo)).figures a =
      if Svc.matched d tenantId a
      then (d.figures a).map fun f => (f.1 + specsOn specs a, f.2 + (legsOn specs a : Int))
      else d.figures a := by
  obtain ⟨xs, hfind, hsum, hlength⟩ := balance_callRows env d tenantId memo specs a
  unfold Database.figures
  rw [hfind]
  cases d.balances.find? a with
  | none => simp
  | some b =>
    simp only [Option.map_some, AccountBalance.foldAll_balance, AccountBalance.foldAll_version,
      hsum, hlength]
    split_ifs <;> simp

/-- The recomputed balance after a call: every leg counts, folded or not. -/
theorem recompute_callRows (hadm : Admitted d (callRows env tenantId 0 0 d specs memo)) (a : UUID) :
    (replay d (callRows env tenantId 0 0 d specs memo)).recompute a =
      d.recompute a + specsOn specs a := by
  have hrows : (replay d (callRows env tenantId 0 0 d specs memo)).postings.rows =
      d.postings.rows ++
        (legsAt env tenantId d (BitVec.ofNat 128 (env.ident 0)) 3 specs).map Leg.posting := by
    unfold callRows emission at hadm ⊢
    rw [List.cons_append] at hadm ⊢
    rw [replay_cons, replay_append]
    exact replay_postings_legs (admitted_append.mp (admitted_cons.mp hadm).2).1
  unfold Database.recompute Table.total
  rw [hrows, List.filter_append, List.map_append, List.sum_append,
    credited_legs (legsAt_carried d _ _ _) a]

/-- The drift after a call: what a leg adds and its snapshot misses. -/
theorem drift_callRows (hadm : Admitted d (callRows env tenantId 0 0 d specs memo))
    (reader : String) (a : UUID) :
    (replay d (callRows env tenantId 0 0 d specs memo)).drift reader a =
      if Svc.matched d tenantId a then d.drift reader a
      else (d.drift reader a).map fun drift => drift - specsOn specs a := by
  obtain ⟨xs, hfind, hsum, -⟩ := balance_callRows env d tenantId memo specs a
  unfold Database.drift
  rw [hfind, recompute_callRows hadm]
  cases d.balances.find? a with
  | none => simp
  | some b =>
    simp only [Option.map_some, AccountBalance.foldAll_tenantId, AccountBalance.foldAll_balance,
      hsum]
    by_cases hr : b.tenantId = reader
    · cases hm : Svc.matched d tenantId a with
      | true =>
        simp only [hr, ne_eq, not_true_eq_false, if_true, if_false, Option.some.injEq]
        omega
      | false =>
        simp only [hr, ne_eq, not_true_eq_false, if_false, Bool.false_eq_true, Option.map_some,
          Option.some.injEq]
        omega
    · simp [hr]

omit [Runtime] in
/-- Nothing is asked of an account no leg is on. -/
theorem specsOn_of_unmatched {a : UUID}
    (hall : ∀ spec ∈ specs, Svc.matched d tenantId spec.accountId = true)
    (hm : Svc.matched d tenantId a = false) : specsOn specs a = 0 ∧ legsOn specs a = 0 := by
  have hnone : specs.filter (fun s => s.accountId = a) = [] := by
    apply List.filter_eq_nil_iff.mpr
    intro spec hspec ha
    have hmatch := hall spec hspec
    rw [decide_eq_true_eq.mp ha, hm] at hmatch
    cases hmatch
  simp [specsOn, legsOn, hnone]

/-- If every snapshot matches, every leg is folded. -/
theorem foldedAll_callRows (hall : ∀ spec ∈ specs, Svc.matched d tenantId spec.accountId = true)
    (hadm : Admitted d (callRows env tenantId 0 0 d specs memo)) :
    FoldedAll d (replay d (callRows env tenantId 0 0 d specs memo)) specs := by
  constructor
  · intro spec hspec
    obtain ⟨b, hb, -⟩ := matched_iff.mp (hall spec hspec)
    simp [Database.figures, hb]
  · intro a
    rw [figures_callRows]
    cases hm : Svc.matched d tenantId a with
    | true => rfl
    | false =>
      obtain ⟨hsum, hcount⟩ := specsOn_of_unmatched hall hm
      simp [hsum, hcount]
  · intro reader a
    rw [drift_callRows hadm]
    cases hm : Svc.matched d tenantId a with
    | true => rfl
    | false =>
      obtain ⟨hsum, -⟩ := specsOn_of_unmatched hall hm
      simp [hsum]

/-- A call that raises leaves the database as it was. -/
theorem post_fails {e : Err}
    (h : Svc.Fails env (postTransaction tenantId specs memo) { db := d } e) :
    (Request.post tenantId specs memo).executed env d = (.error e, d) := by
  have hservice : (Request.post tenantId specs memo).service =
      postAndCommit tenantId specs memo >>= fun txn => pure (Reply.posted txn) := rfl
  apply executed_fails
  rw [hservice]
  exact Svc.Fails.bind (Svc.Fails.bind h _) _

/-- **The engine folds every leg or fails**, exactly if the snapshot of every
    leg matches, or the legs do not balance, or the database does not take them. -/
theorem post_folds_iff : FoldsOrFails env d tenantId specs memo ↔
    (∀ spec ∈ specs, Svc.matched d tenantId spec.accountId = true) ∨ specs.length < 2 ∨
      (specs.map PostingSpec.amount).sum ≠ 0 ∨ ¬ Taken env d tenantId [⟨0, 0, specs, memo⟩] := by
  have htakes : Admitted d (callRows env tenantId 0 0 d specs memo) ↔
      Taken env d tenantId [⟨0, 0, specs, memo⟩] := by
    rw [← admitted_calls fun _ => rfl]
    simp [Call.rows]
  unfold FoldsOrFails
  -- the engine refuses in this order: too few legs, a sum that is not zero, a row
  by_cases hfew : specs.length < 2
  · have hfails : Svc.Fails env (postTransaction tenantId specs memo) { db := d }
        (.unbalancedTransaction "a transaction needs at least two postings") := by
      unfold postTransaction
      rw [if_pos hfew]
      exact Svc.fails_raise _ _
    rw [post_fails hfails]
    exact iff_of_true rfl (.inr (.inl hfew))
  by_cases hzero : (specs.map PostingSpec.amount).sum ≠ 0
  · have hfails : ∃ e, Svc.Fails env (postTransaction tenantId specs memo) { db := d } e := by
      unfold postTransaction
      rw [if_neg hfew, if_pos hzero]
      exact ⟨_, Svc.fails_raise _ _⟩
    obtain ⟨e, hfails⟩ := hfails
    rw [post_fails hfails]
    exact iff_of_true rfl (.inr (.inr (.inl hzero)))
  have hexecuted : (Admitted d (callRows env tenantId 0 0 d specs memo) → _) ∧ (_ → _) :=
    post_executed (by omega) (not_not.mp hzero)
  obtain ⟨hreturns, hrefuses⟩ := hexecuted
  by_cases htaken : Taken env d tenantId [⟨0, 0, specs, memo⟩]
  · have hadm : Admitted d (callRows env tenantId 0 0 d specs memo) := htakes.mpr htaken
    -- it was posted, so every leg must have had a snapshot to fold into
    obtain ⟨reply, hexec⟩ := hreturns hadm
    rw [hexec]
    simp only [hfew, hzero, htaken, not_true_eq_false, or_false]
    constructor
    · rintro ⟨-, hok⟩ spec hspec
      cases hm : Svc.matched d tenantId spec.accountId with
      | true => rfl
      | false => exact absurd (.unmatched hspec hm) hok
    · intro hall
      refine ⟨foldedAll_callRows hall hadm, fun hrefused => ?_⟩
      cases hrefused with
      | few h => exact hfew h
      | unbalanced h => exact hzero h
      | unmatched hspec hm =>
        rw [hall _ hspec] at hm
        cases hm
  · obtain ⟨e, -, hexec⟩ := hrefuses (fun hadm => htaken (htakes.mp hadm))
    rw [hexec]
    exact iff_of_true rfl (.inr (.inr (.inr htaken)))

end engine

section missingSnapshot

open Sample

/-- A tenant that has no account pays 50 from one account of another tenant to
    another. -/
def unfolded : List PostingSpec := [⟨usd, -50, 0⟩, ⟨alice, 50, 0⟩]

/-- The engine returns, both postings are there, and the snapshots have not moved. -/
theorem post_folds_nothing :
    ((Request.post "rival" unfolded "loan").executed (envAt 0 5000) funded).1.isOk = true ∧
    ((Request.post "rival" unfolded "loan").executed (envAt 0 5000) funded).2.recompute alice =
      funded.recompute alice + 50 ∧
    ((Request.post "rival" unfolded "loan").executed (envAt 0 5000) funded).2.figures alice =
      funded.figures alice ∧
    funded.drift "acme" alice = some 0 ∧
    ((Request.post "rival" unfolded "loan").executed (envAt 0 5000) funded).2.drift "acme" alice =
      some (-50) ∧
    ¬ FoldsOrFails (envAt 0 5000) funded "rival" unfolded "loan" := by
  refine ⟨by decide +kernel, by decide +kernel, by decide +kernel, by decide +kernel,
    by decide +kernel, fun hfolds => ?_⟩
  have hok : ((Request.post "rival" unfolded "loan").executed
      (envAt 0 5000) funded).1.isOk = true := by
    decide +kernel
  have hunmatched : Svc.matched funded "rival" alice = false := by decide +kernel
  obtain ⟨reply, hexec⟩ := executed_ok hok
  unfold FoldsOrFails at hfolds
  rw [hexec] at hfolds
  have hleg : (⟨alice, 50, 0⟩ : PostingSpec) ∈ unfolded := by decide
  exact hfolds.2 (.unmatched hleg hunmatched)

end missingSnapshot

end Ledger
