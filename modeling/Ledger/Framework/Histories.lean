import Ledger.Framework.Trace

/-! # Histories of a Run

    What a whole run leaves behind: its commits, and what its sessions handed
    back to their callers.

    * **Commits**: `RG.logging`, every commit has a property of the transaction
      it publishes and of the state it finds, and no commit writes a row whose
      lock somebody else keeps.
    * **Results**: `RG.others`, one session against sessions of which nothing
      is known; what it returns against them, it returns in every run.
    * **Traces**: `Traced`, a run with what its moves show; `Sys.publishing`
      shows the commits and `Sys.returning` the replies.
    * **Statements**: `Sys.reading` shows the states they ran in; `Sees`, what
      a program returns in terms of these (`Traced.sees`).
-/

namespace ReadCommitted

variable {ι D W R ε α β : Type} [Dbms D W R]

/-! ## Commits -/

/-- A commit of a run: its session, the reading of the clock, and the
    transaction it published. -/
structure Commit (ι W R : Type) where
  who : ι
  time : Time
  tx : Tx W R

/-- The commit in the commit log. -/
def Commit.entry (c : Commit ι W R) : Entry ι W := ⟨c.who, c.time, c.tx.log⟩

/-- A property of a commit: of its session, its transaction and the state it finds. -/
abbrev OfCommit (ι D W R : Type) : Type := ι → Tx W R → Shared ι D W → Prop

/-- The commits `cs` lead from `g` to `g'`, each with the property. -/
structure Logged (P : OfCommit ι D W R) (g : Shared ι D W) (cs : List (Commit ι W R))
    (g' : Shared ι D W) : Prop where
  wal : g'.wal = g.wal ++ cs.map Commit.entry
  db : g'.db = afterCommits g.db (cs.map Commit.entry)
  clock : g.clock ≤ g'.clock
  times : ∀ c ∈ cs, g.clock ≤ c.time ∧ c.time ≤ g'.clock
  each : ∀ cs₁ c cs₂, cs = cs₁ ++ c :: cs₂ → P c.who c.tx
    ⟨afterCommits g.db (cs₁.map Commit.entry), c.time, g.wal ++ cs₁.map Commit.entry⟩

theorem Logged.of_tick (P : OfCommit ι D W R) {g : Shared ι D W} {t : Time} (ht : g.clock ≤ t) :
    Logged P g [] { g with clock := t } where
  wal := by simp
  db := rfl
  clock := ht
  times := by simp
  each cs₁ c cs₂ h := by simp at h

theorem Logged.refl (P : OfCommit ι D W R) (g : Shared ι D W) : Logged P g [] g :=
  .of_tick P (le_refl _)

theorem Logged.trans {P : OfCommit ι D W R} {g g' g'' : Shared ι D W}
    {cs ds : List (Commit ι W R)} (h : Logged P g cs g') (h' : Logged P g' ds g'') :
    Logged P g (cs ++ ds) g'' where
  wal := by rw [h'.wal, h.wal, List.append_assoc, List.map_append]
  db := by rw [h'.db, h.db, List.map_append, afterCommits_append]
  clock := h.clock.trans h'.clock
  times c hc := by
    rcases List.mem_append.mp hc with hc | hc
    · exact ⟨(h.times c hc).1, (h.times c hc).2.trans h'.clock⟩
    · exact ⟨h.clock.trans (h'.times c hc).1, (h'.times c hc).2⟩
  each cs₁ c cs₂ heq := by
    rcases List.append_eq_append_iff.mp heq with ⟨mid, hcs₁, hds⟩ | ⟨mid, hcs, hcs₂⟩
    · -- the commit belongs to the second stretch
      have hP := h'.each mid c cs₂ hds
      rw [h.db, h.wal, List.append_assoc] at hP
      rwa [hcs₁, List.map_append, afterCommits_append]
    · cases mid with
      | nil =>
        have hP := h'.each [] c cs₂ hcs₂.symm
        rw [List.append_nil] at hcs
        rw [h.db, h.wal, hcs] at hP
        simpa using hP
      | cons x mid =>
        -- the commit belongs to the first stretch
        simp only [List.cons_append, List.cons.injEq] at hcs₂
        obtain ⟨rfl, -⟩ := hcs₂
        exact h.each cs₁ c mid hcs

/-- One commit. -/
theorem Logged.commit {P : OfCommit ι D W R} {i : ι} {tx : Tx W R} {g : Shared ι D W}
    (h : P i tx g) : Logged P g [⟨i, g.clock, tx⟩] (g.commit i tx) where
  wal := rfl
  db := by simp [afterCommits, Shared.commit, Commit.entry]
  clock := le_refl _
  times c hc := by
    rw [List.mem_singleton.mp hc]
    exact ⟨le_refl _, le_refl _⟩
  each cs₁ c cs₂ heq := by
    cases cs₁ with
    | nil =>
      simp only [List.nil_append, List.cons.injEq] at heq
      obtain ⟨rfl, -⟩ := heq
      simpa using h
    | cons x cs₁ => simp at heq

/-- A stretch of a history is a history. -/
theorem Logged.left {P : OfCommit ι D W R} {g g' : Shared ι D W} {cs ds : List (Commit ι W R)}
    (h : Logged P g (cs ++ ds) g') :
    Logged P g cs ⟨afterCommits g.db (cs.map Commit.entry), g'.clock,
      g.wal ++ cs.map Commit.entry⟩ where
  wal := rfl
  db := rfl
  clock := h.clock
  times c hc := h.times c (List.mem_append_left ds hc)
  each cs₁ c cs₂ heq := h.each cs₁ c (cs₂ ++ ds) (by simp [heq])

theorem Logged.mono {P P' : OfCommit ι D W R} {g g' : Shared ι D W} {cs : List (Commit ι W R)}
    (himp : ∀ i tx g, P i tx g → P' i tx g) (h : Logged P g cs g') : Logged P' g cs g' :=
  { h with each := fun cs₁ c cs₂ heq => himp _ _ _ (h.each cs₁ c cs₂ heq) }

variable (D) in
/-- The commits write no row whose lock is among `rs`. -/
def Spares (rs : List R) (cs : List (Commit ι W R)) : Prop :=
  ∀ c ∈ cs, ∀ w ∈ c.tx.log, ∀ r ∈ Dbms.locks D w, r ∉ rs

/-- The rely that others commit what has the property and spare what is
    locked; a commit guarantees it. -/
def RG.logging (allow P : OfCommit ι D W R) : RG ι D W R where
  rely rs g g' := ∃ cs, Logged P g cs g' ∧ Spares D rs cs
  allow := allow
  guar i tx g _ := P i tx g ∧ ∀ w ∈ tx.log, Dbms.locks D w ⊆ tx.held
  rely_refl _ g := ⟨[], .refl P g, by simp [Spares]⟩
  rely_trans := by
    rintro rs g₁ g₂ g₃ ⟨cs, h, hs⟩ ⟨ds, h', hs'⟩
    exact ⟨cs ++ ds, h.trans h', fun c hc => (List.mem_append.mp hc).elim (hs c) (hs' c)⟩
  rely_mono hsub := by
    rintro ⟨cs, h, hs⟩
    exact ⟨cs, h, fun c hc w hw r hr hmem => hs c hc w hw r hr (hsub hmem)⟩

theorem RG.logging_sound (allow P : OfCommit ι D W R) : (RG.logging allow P).Sound where
  tick _ g _ ht := ⟨[], .of_tick P ht, by simp [Spares]⟩
  commit i tx g := by
    rintro ⟨hP, hlocks⟩ rs hrs
    refine ⟨_, .commit hP, fun c hc w hw r hr hmem => ?_⟩
    rw [List.mem_singleton.mp hc] at hw
    exact hrs r hmem (hlocks w hw hr)

section logging

variable {allow P : OfCommit ι D W R} {g g' : Shared ι D W} {tx tx' : Tx W R} {ws : List W}

/-- A transaction keeps the locks of what it wrote. -/
theorem Progress.locked {rg : RG ι D W R} (h : Progress rg ws g {} g' tx) :
    ∀ w ∈ tx.log, Dbms.locks D w ⊆ tx.held := by
  intro w hw
  have hlog : tx.log = ws := by simpa using h.log
  obtain ⟨gs, hs, pre, -, -, hl, hh, -⟩ := h.wrote_mem (hlog ▸ hw)
  exact List.Subset.trans hl hh

/-- What was committed since a write was let through spares its row. -/
theorem Progress.spared (h : Progress (RG.logging allow P) ws g tx g' tx') {pre post : List W}
    {w : W} (heq : ws = pre ++ w :: post) : ∃ gs cs, Logged P gs cs g' ∧
      Spares D (Dbms.locks D w) cs ∧ Dbms.admits (replay gs.db (tx.log ++ pre)) w := by
  obtain ⟨gs, hs, -, ⟨cs, hlogged, hspares⟩, hl, -, ha⟩ := h.wrote pre w post heq
  exact ⟨gs, cs, hlogged, fun c hc v hv r hr hmem => hspares c hc v hv r hr (hl hmem), ha⟩

/-- The clock does not go back on the way. -/
theorem Progress.clock_le (h : Progress (RG.logging allow P) ws g tx g' tx') :
    g.clock ≤ g'.clock := by
  obtain ⟨cs, hlogged, -⟩ := h.rely
  exact hlogged.clock

/-- What the first statement of a transaction saw was committed before its
    first write. -/
theorem Progress.seen {vs : List W} {g₁ : Shared ι D W} {tx₁ : Tx W R}
    (h : Progress (RG.logging allow P) ws g {} g₁ tx₁) (hws : ws ≠ [])
    (h' : Progress (RG.logging allow P) vs g₁ tx₁ g' tx') :
    ∀ e ∈ g'.wal.take tx'.began, e ∈ g₁.wal := by
  rcases h.opened rfl with ⟨hnil, -⟩ | ⟨go, -, ⟨cs, hlogged, -⟩, hstart, hbegan⟩
  · exact absurd hnil hws
  · obtain ⟨ds, hlater, -⟩ := h'.rely
    obtain ⟨-, hbegan'⟩ := h'.start _ hstart
    intro e he
    rw [hlater.wal, hlogged.wal, hbegan', hbegan, List.append_assoc, List.take_left] at he
    rw [hlogged.wal]
    exact List.mem_append_left _ he

end logging

/-! ## Results -/

/-- The rely that the others are others. -/
def RG.others (me : ι) : RG ι D W R where
  rely _ g g' := ∃ es, g'.wal = g.wal ++ es ∧ ∀ e ∈ es, e.who ≠ me
  allow _ _ _ := True
  guar _ _ _ _ := True
  rely_refl _ _ := ⟨[], by simp, by simp⟩
  rely_trans := by
    rintro _ g₁ g₂ g₃ ⟨es, hwal, hes⟩ ⟨fs, hwal', hfs⟩
    refine ⟨es ++ fs, by rw [hwal', hwal, List.append_assoc], fun e he => ?_⟩
    exact (List.mem_append.mp he).elim (hes e) (hfs e)
  rely_mono _ h := h

/-- What a session returns, in terms of the commits. -/
abbrev Result (ι W α : Type) : Type := ι → List (Entry ι W) → α → Prop

/-- The property of a result is not about the commits of others. -/
def Result.Own (K : Result ι W α) : Prop :=
  ∀ i wal es a, K i wal a → (∀ e ∈ es, e.who ≠ i) → K i (wal ++ es) a

/-- The postcondition that a session returns such a result. -/
def Result.post (K : Result ι W α) (me : ι) : Post ι D W R ε α
  | .ok a, g, _ => K me g.wal a
  | .error _, _, _ => True

section results

variable [DecidableEq ι] {allow : OfCommit ι D W R} {s₀ s s' : Sys ι D W R ε α}
  {K : Result ι W α}

omit [DecidableEq ι] in
theorem Result.Own.rely (hK : K.Own) {me : ι} {p : Prog D W R ε α} {g g' : Shared ι D W}
    {tx : Tx W R} (hr : (RG.others (D := D) (W := W) (R := R) me).rely tx.held g g')
    (h : wp (RG.others me) me p (K.post me) g tx) : wp (RG.others me) me p (K.post me) g' tx := by
  refine wp_rely (fun r g g' tx hr hQ => ?_) hr h
  obtain ⟨es, hwal, hes⟩ := hr
  cases r with
  | error e => trivial
  | ok a =>
    show K me g'.wal a
    rw [hwal]
    exact hK me g.wal es a hQ hes

/-- **Step lemma**: whatever moves, a session verified against the others stays so. -/
theorem Result.Own.step (hK : K.Own) {me : ι} (hstep : Sys.Step allow s s')
    (h : wp (RG.others me) me (s.sess me).prog (K.post me) s.shared (s.sess me).tx) :
    wp (RG.others me) me (s'.sess me).prog (K.post me) s'.shared (s'.sess me).tx := by
  cases hstep with
  | abort j e =>
    by_cases hj : j = me
    · subst hj
      rw [Sys.setSess_self]
      trivial
    · rw [Sys.setSess_ne _ _ fun heq => hj heq.symm]
      exact h
  | tick t ht => exact hK.rely ⟨[], by simp, by simp⟩ h
  | run j u hfree hallow =>
    by_cases hj : j = me
    · subst hj
      exact wp_advance (fun _ _ _ hQ => hQ) (fun _ _ _ => trivial) (fun _ => trivial) u h
    · rw [s.advance_ne fun heq => hj heq.symm]
      apply hK.rely _ h
      rcases s.advance_shared j u with hsame | ⟨-, hcommit⟩
      · exact ⟨[], by simp [hsame], by simp⟩
      · exact ⟨[⟨j, s.shared.clock, (s.sess j).tx.log⟩], by rw [hcommit]; rfl, by simpa using hj⟩

/-- **Run lemma**: what a program verified against the others returns, it
    returns in every run. -/
theorem Result.Own.returned (hK : K.Own)
    (hinit : ∀ i, wp (RG.others i) i (s₀.sess i).prog (K.post i) s₀.shared (s₀.sess i).tx)
    (hr : Sys.Reachable allow s₀ s) {i : ι} {a : α} (ha : (s.sess i).prog = .ret a) :
    K i s.shared.wal a := by
  have hwp : wp (RG.others i) i (s.sess i).prog (K.post i) s.shared (s.sess i).tx := by
    clear ha
    induction hr with
    | init => exact hinit i
    | step _ hstep ih => exact hK.step hstep ih
  rw [ha] at hwp
  exact hwp

/-! ## Traces -/

/-- What a session that moves hands back: its program returned, and the
    session closes. -/
def Sys.returning (s : Sys ι D W R ε α) (i : ι) : List (ι × α) :=
  match (s.sess i).prog with
  | .ret a => [(i, a)]
  | _ => []

omit [Dbms D W R] [DecidableEq ι] in
theorem Sys.mem_returning {s : Sys ι D W R ε α} {i : ι} {p : ι × α} :
    p ∈ s.returning i ↔ p.1 = i ∧ (s.sess i).prog = .ret p.2 := by
  unfold Sys.returning
  split
  · rename_i a heq
    rw [List.mem_singleton, heq, Prog.ret.injEq, Prod.ext_iff]
    exact and_congr_right fun _ => eq_comm
  · rename_i hno
    simp only [List.not_mem_nil, false_iff]
    exact fun h => hno p.2 h.2

/-- What a session that moves publishes. -/
def Sys.publishing (s : Sys ι D W R ε α) (i : ι) : List (Commit ι W R) :=
  match (s.sess i).prog with
  | .commit _ => [⟨i, s.shared.clock, (s.sess i).tx⟩]
  | _ => []

/-- A run, with what the moves of its sessions have shown so far.  A session
    that dies shows nothing. -/
inductive Traced (allow : OfCommit ι D W R) (obs : Sys ι D W R ε α → ι → List β)
    (s₀ : Sys ι D W R ε α) : Sys ι D W R ε α → List β → Prop where
  | init : Traced allow obs s₀ s₀ []
  | run {s : Sys ι D W R ε α} {xs : List β} (h : Traced allow obs s₀ s xs) (i : ι) (u : Nat)
      (hfree : s.free i) (hallow : s.committing i = true → allow i (s.sess i).tx s.shared) :
      Traced allow obs s₀ (s.advance i u) (xs ++ obs s i)
  | abort {s : Sys ι D W R ε α} {xs : List β} (h : Traced allow obs s₀ s xs) (i : ι) (e : ε) :
      Traced allow obs s₀ (s.setSess i ⟨.fail e, {}⟩) xs
  | tick {s : Sys ι D W R ε α} {xs : List β} (h : Traced allow obs s₀ s xs) (t : Time)
      (ht : s.shared.clock ≤ t) :
      Traced allow obs s₀ { s with shared := { s.shared with clock := t } } xs

section traces

variable {obs : Sys ι D W R ε α → ι → List β}

theorem Traced.reachable {xs : List β} (h : Traced allow obs s₀ s xs) :
    Sys.Reachable allow s₀ s := by
  induction h with
  | init => exact .init
  | run _ i u hfree hallow ih => exact ih.step (.run _ i u hfree hallow)
  | abort _ i e ih => exact ih.step (.abort _ i e)
  | tick _ t ht ih => exact ih.step (.tick _ t ht)

/-- Every run has its trace. -/
theorem Sys.Reachable.traced (obs : Sys ι D W R ε α → ι → List β)
    (h : Sys.Reachable allow s₀ s) : ∃ xs, Traced allow obs s₀ s xs := by
  induction h with
  | init => exact ⟨[], .init⟩
  | step _ hstep ih =>
    obtain ⟨xs, ht⟩ := ih
    cases hstep with
    | run i u hfree hallow => exact ⟨_, ht.run i u hfree hallow⟩
    | abort i e => exact ⟨_, ht.abort i e⟩
    | tick t h => exact ⟨_, ht.tick t h⟩

/-- What was handed back keeps its property, for its session commits nothing more. -/
theorem Traced.results {rs : List (ι × α)} (hK : K.Own)
    (hret : ∀ s, Sys.Reachable allow s₀ s → ∀ i a, (s.sess i).prog = .ret a → K i s.shared.wal a)
    (h : Traced allow Sys.returning s₀ s rs) :
    ∀ p ∈ rs, s.Finished p.1 ∧ K p.1 s.shared.wal p.2 := by
  have hlater : ∀ {s s' : Sys ι D W R ε α} {p : ι × α}, Sys.Step allow s s' →
      s.Finished p.1 ∧ K p.1 s.shared.wal p.2 → s'.Finished p.1 ∧ K p.1 s'.shared.wal p.2 := by
    rintro s s' p hstep ⟨hfin, hp⟩
    obtain ⟨hfin', es, hwal, hes⟩ := hfin.step hstep
    exact ⟨hfin', hwal ▸ hK _ _ _ _ hp hes⟩
  induction h with
  | init => simp
  | abort _ i e ih => exact fun p hp => hlater (.abort _ i e) (ih p hp)
  | tick _ t ht ih => exact fun p hp => hlater (.tick _ t ht) (ih p hp)
  | @run s rs h i u hfree hallow ih =>
    intro p hp
    have hstep : Sys.Step allow s (s.advance i u) := .run s i u hfree hallow
    rcases List.mem_append.mp hp with hp | hp
    · exact hlater hstep (ih p hp)
    · -- the session that returns
      obtain ⟨rfl, heq⟩ := Sys.mem_returning.mp hp
      exact hlater hstep ⟨.inl ⟨p.2, heq⟩, hret s h.reachable p.1 p.2 heq⟩

/-- **Every commit** of a run of verified programs has the property, and is
    taken into account. -/
theorem Traced.logged {P : OfCommit ι D W R} {cs : List (Commit ι W R)}
    (hv : Verified (RG.logging allow P) s₀) (h : Traced allow Sys.publishing s₀ s cs) :
    Logged (fun i tx g => allow i tx g ∧ P i tx g) s₀.shared cs s.shared := by
  induction h with
  | init => exact .refl _ _
  | abort _ i e ih => exact ih
  | tick _ t ht ih => simpa using ih.trans (.of_tick _ ht)
  | @run s cs h i u hfree hallow ih =>
    have hp := (hv.reachable (RG.logging_sound allow P) h.reachable).1.prog i
    apply ih.trans
    cases hprog : (s.sess i).prog with
    | commit k =>
      rw [hprog] at hp
      have hcommits : s.committing i = true := by simp [Sys.committing, hprog]
      have hguar := (hp s.shared ((RG.logging allow P).rely_refl _ _) (hallow hcommits)).1
      simp only [Sys.publishing, Sys.advance, hprog]
      exact .commit ⟨hallow hcommits, hguar.1⟩
    | stmt q k =>
      simp only [Sys.publishing, Sys.advance, hprog]
      split <;> exact .refl _ _
    | _ =>
      simp only [Sys.publishing, Sys.advance, hprog]
      exact .refl _ _

/-- The state after a schedule, with what is shown on the way; `none` when a
    move is not possible, or a session moves where `check` does not let it. -/
def Sys.follow [Fintype ι] [DecidableEq R] (obs : Sys ι D W R ε α → ι → List β)
    (check : Sys ι D W R ε α → ι → Bool) (s : Sys ι D W R ε α) (xs : List β) :
    List (Sys.Move ι) → Option (Sys ι D W R ε α × List β)
  | [] => some (s, xs)
  | .run i :: ms =>
    if s.free i ∧ check s i then follow obs check (s.advance i 0) (xs ++ obs s i) ms else none
  | .draw i u :: ms =>
    if s.free i ∧ check s i then follow obs check (s.advance i u) (xs ++ obs s i) ms else none
  | .tick t :: ms =>
    if s.shared.clock ≤ t then
      follow obs check { s with shared := { s.shared with clock := t } } xs ms
    else none

theorem Traced.follow [Fintype ι] [DecidableEq R] {check : Sys ι D W R ε α → ι → Bool}
    (hcheck : ∀ s i, check s i = true → s.committing i = true → allow i (s.sess i).tx s.shared)
    {xs xs' : List β} {ms : List (Sys.Move ι)} (h : Traced allow obs s₀ s xs)
    (he : s.follow obs check xs ms = some (s', xs')) : Traced allow obs s₀ s' xs' := by
  induction ms generalizing s xs with
  | nil =>
    cases he
    exact h
  | cons m ms ih =>
    cases m with
    | run i =>
      rw [Sys.follow] at he
      split at he
      · rename_i hm
        exact ih (h.run i 0 hm.1 (hcheck s i hm.2)) he
      · cases he
    | draw i u =>
      rw [Sys.follow] at he
      split at he
      · rename_i hm
        exact ih (h.run i u hm.1 (hcheck s i hm.2)) he
      · cases he
    | tick t =>
      rw [Sys.follow] at he
      split at he
      · rename_i ht
        exact ih (h.tick t ht) he
      · cases he

/-- A schedule that runs to a state and a trace with a property. -/
theorem Traced.of_follow [Fintype ι] [DecidableEq R] {xs : List β}
    (h : Traced allow obs s₀ s xs) (check : Sys ι D W R ε α → ι → Bool)
    (hcheck : ∀ s i, check s i = true → s.committing i = true → allow i (s.sess i).tx s.shared)
    (ms : List (Sys.Move ι))
    (p : Sys ι D W R ε α → List β → Bool)
    (he : (s.follow obs check xs ms).map (fun q => p q.1 q.2) = some true) :
    ∃ s' xs', Traced allow obs s₀ s' xs' ∧ p s' xs' = true := by
  cases hf : s.follow obs check xs ms with
  | none => simp [hf] at he
  | some q =>
    simp only [hf, Option.map_some, Option.some.injEq] at he
    exact ⟨q.1, q.2, h.follow hcheck hf, he⟩

end traces

/-! ## What the Statements Saw -/

/-- What a session that moves sees: it sends a statement, in the present state. -/
def Sys.reading (s : Sys ι D W R ε α) (i : ι) : List (ι × Shared ι D W) :=
  match (s.sess i).prog with
  | .stmt _ _ => [(i, s.shared)]
  | _ => []

/-- The states that the statements of a session saw, in their order. -/
def seenBy (i : ι) (xs : List (ι × Shared ι D W)) : List (Shared ι D W) :=
  (xs.filter fun x => x.1 = i).map Prod.snd

omit [Dbms D W R] in
theorem seenBy_reading (s : Sys ι D W R ε α) (i j : ι) (xs : List (ι × Shared ι D W)) :
    seenBy i (xs ++ s.reading j) = seenBy i xs ++
      if j = i then (s.reading i).map Prod.snd else [] := by
  unfold seenBy
  rw [List.filter_append, List.map_append]
  congr 1
  by_cases hj : j = i
  · subst hj
    unfold Sys.reading
    split <;> simp
  · unfold Sys.reading
    split <;> simp [hj]

/-- What a statement saw was the state of the run at that point. -/
theorem Traced.seen_reachable {xs : List (ι × Shared ι D W)}
    (h : Traced allow Sys.reading s₀ s xs) :
    ∀ x ∈ xs, ∃ s', Sys.Reachable allow s₀ s' ∧ x.2 = s'.shared := by
  induction h with
  | init => simp
  | abort _ i e ih => exact ih
  | tick _ t ht ih => exact ih
  | @run s xs h i u hfree hallow ih =>
    intro x hx
    rcases List.mem_append.mp hx with hx | hx
    · exact ih x hx
    · unfold Sys.reading at hx
      split at hx
      · rw [List.mem_singleton.mp hx]
        exact ⟨s, h.reachable, rfl⟩
      · cases hx

/-- A run of the program from here returns with `K` of the states its
    statements saw, `gs` up to here. -/
def Sees (rg : RG ι D W R) (me : ι) (K : α → List (Shared ι D W) → Prop) :
    Prog D W R ε α → List (Shared ι D W) → Shared ι D W → Tx W R → Prop
  | .ret a, gs, _, _ => K a gs
  | .fail _, _, _, _ => True
  | .now k, gs, g, tx => ∀ g', rg.rely [] g g' → Sees rg me K (k g'.clock) gs g' tx
  | .draw k, gs, g, tx => ∀ g', rg.rely [] g g' → ∀ u, Sees rg me K (k u) gs g' tx
  | .lock r k, gs, g, tx =>
    ∀ g', rg.rely [] g g' →
      Sees rg me K k gs g' ((tx.openAt g'.clock g'.wal.length).hold [r])
  | .stmt q k, gs, g, tx =>
    ∀ g', rg.rely [] g g' →
      match q (replay g'.db tx.log) (tx.openAt g'.clock g'.wal.length).now with
      | .error _ => True
      | .ok (b, ws) =>
        Sees rg me K (k b) (gs ++ [g']) g'
          (Tx.write (D := D) (tx.openAt g'.clock g'.wal.length) ws)
  | .commit k, gs, g, tx =>
    ∀ g', rg.rely [] g g' → Sees rg me K k gs (g'.commit me tx) {}

section sees

variable {rg : RG ι D W R} {K' : α → List (Shared ι D W) → Prop} {me : ι}

omit [DecidableEq ι] in
/-- The environment may move before the program does. -/
theorem Sees.rely {p : Prog D W R ε α} {gs : List (Shared ι D W)} {g g' : Shared ι D W}
    {tx : Tx W R} (hr : rg.rely [] g g') (h : Sees rg me K' p gs g tx) :
    Sees rg me K' p gs g' tx := by
  cases p with
  | ret a => exact h
  | fail e => trivial
  | now k => exact fun g'' hr' => h g'' (rg.rely_trans hr hr')
  | draw k => exact fun g'' hr' => h g'' (rg.rely_trans hr hr')
  | lock r k => exact fun g'' hr' => h g'' (rg.rely_trans hr hr')
  | stmt q k => exact fun g'' hr' => h g'' (rg.rely_trans hr hr')
  | commit k => exact fun g'' hr' => h g'' (rg.rely_trans hr hr')

/-- **Step lemma**: a statement of the session itself adds the state it sees. -/
theorem Sees.advance {i : ι} {gs : List (Shared ι D W)} (u : Nat)
    (h : Sees rg i K' (s.sess i).prog gs s.shared (s.sess i).tx) :
    Sees rg i K' ((s.advance i u).sess i).prog (gs ++ (s.reading i).map Prod.snd)
      (s.advance i u).shared ((s.advance i u).sess i).tx := by
  have hrefl := rg.rely_refl [] s.shared
  unfold Sys.advance Sys.reading
  split
  all_goals rename_i heq; rw [heq] at h; simp only [heq]
  · simpa [Sees] using h
  · simp [Sees]
  · simpa using h _ hrefl
  · simpa using h _ hrefl u
  · simpa [Sys.txAt] using h _ hrefl
  · -- a statement, on what the session sees
    have h' := h _ hrefl
    simp only [Sys.view, Sys.txAt]
    split
    · rename_i b ws hq
      rw [hq] at h'
      simpa using h'
    · simp [Sees]
  · simpa using h _ hrefl

/-- **Run lemma**: what a session returns in a run of verified programs, it
    returns of the states that its statements saw. -/
theorem Traced.sees (hs : rg.Sound) (hv : Verified rg s₀) {i : ι}
    (hinit : Sees rg i K' (s₀.sess i).prog [] s₀.shared (s₀.sess i).tx)
    {xs : List (ι × Shared ι D W)} (h : Traced rg.allow Sys.reading s₀ s xs) :
    Sees rg i K' (s.sess i).prog (seenBy i xs) s.shared (s.sess i).tx := by
  induction h with
  | init => exact hinit
  | abort h j e ih =>
    by_cases hj : i = j
    · subst hj
      rw [Sys.setSess_self]
      trivial
    · rw [Sys.setSess_ne _ _ hj]
      exact ih
  | tick h t ht ih => exact Sees.rely (hs.tick _ _ _ ht) ih
  | @run s xs h j u hfree hallow ih =>
    rw [seenBy_reading]
    by_cases hj : i = j
    · subst hj
      rw [if_pos rfl]
      exact Sees.advance u ih
    · rw [if_neg fun heq => hj heq.symm, List.append_nil, s.advance_ne hj]
      have hvs := (hv.reachable hs h.reachable).1
      exact Sees.rely (hvs.step hs (.run s j u hfree hallow)).2 ih

end sees

end results

end ReadCommitted
