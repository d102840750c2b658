import Ledger.Framework.Histories

/-! # One Commit a Session

    Clients that commit once at most, and clients that answer for their errors.

    * **Guarantee**: `RG.once`, a session commits only while it has no commit;
      it may count on an invariant of the run it is part of.
    * **Runs**: `once_of_reachable`, then it has one commit at most in every
      run, and what it returns tells whether it has one.
    * **Errors**: `Prog.attempt`, a program whose errors are values, and
      `wp_attempt`, its rule.
    * **Readers**: `Prog.Reads`, a program that neither writes nor commits;
      `silent_of_reachable` and `wp_reads`, whatever the others do.
-/

namespace ReadCommitted

variable {ι D W R ε α β : Type}

/-! ## Commits of a Session -/

section sessions

variable [DecidableEq ι]

/-- The commits of a session. -/
def commitsOf (i : ι) (wal : List (Entry ι W)) : List (Entry ι W) :=
  wal.filter fun e => e.who = i

theorem commitsOf_others {i : ι} {wal es : List (Entry ι W)} (h : ∀ e ∈ es, e.who ≠ i) :
    commitsOf i (wal ++ es) = commitsOf i wal := by
  have hnone : es.filter (fun e => e.who = i) = [] := by simpa using h
  simp [commitsOf, hnone]

/-- The rely that the others are others and keep the invariant, and the
    guarantee that a commit of the session is its first. -/
def RG.once (me : ι) (I : D → Prop) : RG ι D W R where
  rely _ g g' := (I g.db → I g'.db) ∧ ∃ es, g'.wal = g.wal ++ es ∧ ∀ e ∈ es, e.who ≠ me
  allow _ _ _ := True
  guar _ _ g _ := commitsOf me g.wal = []
  rely_refl _ _ := ⟨id, [], by simp, by simp⟩
  rely_trans := by
    rintro _ g₁ g₂ g₃ ⟨hI, es, hwal, hes⟩ ⟨hI', fs, hwal', hfs⟩
    refine ⟨fun h => hI' (hI h), es ++ fs, by rw [hwal', hwal, List.append_assoc], fun e he => ?_⟩
    exact (List.mem_append.mp he).elim (hes e) (hfs e)
  rely_mono _ h := h

/-- What the others commit is no commit of the session. -/
theorem RG.once_rely {me : ι} {I : D → Prop} {rs : List R} {g g' : Shared ι D W}
    (h : (RG.once me I).rely rs g g') : commitsOf me g'.wal = commitsOf me g.wal := by
  obtain ⟨-, es, hwal, hes⟩ := h
  rw [hwal, commitsOf_others hes]

/-- What a session returns, in terms of its commits. -/
def Tells (K : α → List (Entry ι W) → Prop) (me : ι) : Post ι D W R ε α :=
  fun r g _ => ∀ a, r = .ok a → K a (commitsOf me g.wal)

variable [Dbms D W R] {allow : OfCommit ι D W R} {s₀ s : Sys ι D W R ε α} {me : ι}
  {K : α → List (Entry ι W) → Prop} {I : D → Prop}

/-- Commits of others change nothing for a session. -/
theorem Tells.rely {p : Prog D W R ε α} {g g' : Shared ι D W} {tx : Tx W R}
    (hr : (RG.once me I).rely tx.held g g') (h : wp (RG.once me I) me p (Tells K me) g tx) :
    wp (RG.once me I) me p (Tells K me) g' tx := by
  refine wp_rely (fun r g g' tx hr hQ a ha => ?_) hr h
  rw [RG.once_rely hr]
  exact hQ a ha

/-- **Step lemma**: a session that has committed once at most and is verified
    from there on stays so, whoever moves. -/
theorem Tells.step (j : ι) (u : Nat)
    (hI : I (s.advance j u).shared.db)
    (h : wp (RG.once me I) me (s.sess me).prog (Tells K me) s.shared (s.sess me).tx)
    (hone : (commitsOf me s.shared.wal).length ≤ 1) :
    wp (RG.once me I) me ((s.advance j u).sess me).prog (Tells K me) (s.advance j u).shared
        ((s.advance j u).sess me).tx ∧
      (commitsOf me (s.advance j u).shared.wal).length ≤ 1 := by
  by_cases hj : j = me
  · subst hj
    refine ⟨wp_advance (fun _ _ _ hQ => hQ) (fun _ _ _ _ hraised => by cases hraised)
      (fun _ => trivial) u h, ?_⟩
    rcases guar_of_advance (fun _ => by trivial) u h with hsame | ⟨hcommit, hfirst⟩
    · rw [hsame]
      exact hone
    · -- the first commit of the session
      rw [hcommit]
      have hnone : commitsOf j s.shared.wal = [] := hfirst
      have hadd : commitsOf j (s.shared.commit j (s.sess j).tx).wal =
          commitsOf j s.shared.wal ++ [⟨j, s.shared.clock, (s.sess j).tx.log⟩] := by
        simp [commitsOf, Shared.commit]
      simp [hadd, hnone]
  · have hrely : (RG.once me I).rely (s.sess me).tx.held s.shared (s.advance j u).shared := by
      refine ⟨fun _ => hI, ?_⟩
      rcases s.advance_shared j u with hsame | ⟨-, hcommit⟩
      · exact ⟨[], by simp [hsame], by simp⟩
      · exact ⟨[⟨j, s.shared.clock, (s.sess j).tx.log⟩], by rw [hcommit]; rfl, by simpa using hj⟩
    rw [s.advance_ne fun heq => hj heq.symm, RG.once_rely hrely]
    exact ⟨Tells.rely hrely h, hone⟩

/-- **At most once**: a session whose program commits once at most does so in
    every run with the invariant, and what it returns tells of it. -/
theorem once_of_reachable (hI : ∀ s, Sys.Reachable allow s₀ s → I s.shared.db)
    (hinit : wp (RG.once me I) me (s₀.sess me).prog (Tells K me) s₀.shared (s₀.sess me).tx)
    (hwal : s₀.shared.wal = []) (hr : Sys.Reachable allow s₀ s) :
    (commitsOf me s.shared.wal).length ≤ 1 ∧
      ∀ a, (s.sess me).prog = .ret a → K a (commitsOf me s.shared.wal) := by
  have hboth : wp (RG.once me I) me (s.sess me).prog (Tells K me) s.shared (s.sess me).tx ∧
      (commitsOf me s.shared.wal).length ≤ 1 := by
    induction hr with
    | init => exact ⟨hinit, by simp [commitsOf, hwal]⟩
    | @step s₁ s₂ hr hstep ih =>
      obtain ⟨hwp, hone⟩ := ih
      have hI' := hI s₂ (hr.step hstep)
      cases hstep with
      | run j u hfree hallow =>
        exact Tells.step j u hI' hwp hone
      | tick t _ =>
        have hclock : (RG.once me I).rely (s₁.sess me).tx.held s₁.shared
            { s₁.shared with clock := t } := ⟨id, [], by simp, by simp⟩
        exact ⟨Tells.rely hclock hwp, hone⟩
      | abort j e =>
        refine ⟨?_, hone⟩
        by_cases hj : j = me
        · subst hj
          rw [Sys.setSess_self]
          intro a ha
          cases ha
        · rw [Sys.setSess_ne _ _ fun heq => hj heq.symm]
          exact hwp
  refine ⟨hboth.2, fun a ha => ?_⟩
  rw [ha] at hboth
  exact hboth.1 a rfl

end sessions

/-! ## Errors as Values -/

/-- The program with what it raises for a value; a statement that is rejected
    raises. -/
def Prog.attempt : Prog D W R ε α → Prog D W R ε (Except ε α)
  | .ret a => .ret (.ok a)
  | .fail e => .ret (.error e)
  | .now k => .now fun t => attempt (k t)
  | .draw k => .draw fun u => attempt (k u)
  | .lock r k => .lock r (attempt k)
  | .stmt q k =>
    .stmt (fun d t =>
      match q d t with
      | .ok (b, ws) => .ok (Except.ok b, ws)
      | .error e => .ok (Except.error e, []))
      fun
        | Except.ok b => attempt (k b)
        | Except.error e => .ret (.error e)
  | .commit k => .commit (attempt k)

/-- **Rule of attempts**: they end in values as the program ends. -/
theorem wp_attempt [Dbms D W R] {rg : RG ι D W R} {me : ι} {p : Prog D W R ε α}
    {Q : Post ι D W R ε (Except ε α)} {g : Shared ι D W} {tx : Tx W R}
    (h : wp rg me p (fun r => Q (.ok r)) g tx) : wp rg me p.attempt Q g tx := by
  induction p generalizing g tx with
  | ret a => exact h
  | fail e => exact h
  | now k ih => exact fun g' hr => ih _ (h g' hr)
  | draw k ih => exact fun g' hr u => ih u (h g' hr u)
  | lock r k ih => exact fun g' hr => ih (h g' hr)
  | stmt q k ih =>
    rw [Prog.attempt]
    intro g' hr
    have h' := h g' hr
    cases hq : q (replay g'.db tx.log) (tx.openAt g'.clock g'.wal.length).now with
    | error e =>
      rw [hq] at h'
      simpa [hq, wp] using h'
    | ok p =>
      rw [hq] at h'
      simpa [hq] using ih _ h'
  | commit k ih => exact fun g' hr hallow => ⟨(h g' hr hallow).1, ih (h g' hr hallow).2⟩

/-! ## Programs That Only Read -/

/-- No statement writes, and nothing is committed. -/
def Prog.Reads : Prog D W R ε α → Prop
  | .ret _ => True
  | .fail _ => True
  | .now k => ∀ t, Reads (k t)
  | .draw k => ∀ u, Reads (k u)
  | .lock _ k => Reads k
  | .stmt q k => (∀ d t b ws, q d t = .ok (b, ws) → ws = []) ∧ ∀ b, Reads (k b)
  | .commit _ => False

theorem Prog.Reads.bind {p : Prog D W R ε α} {f : α → Prog D W R ε β} (hp : p.Reads)
    (hf : ∀ a, (f a).Reads) : (p >>= f).Reads := by
  show (p.bind f).Reads
  induction p with
  | ret a => exact hf a
  | fail e => trivial
  | now k ih => exact fun t => ih t (hp t)
  | draw k ih => exact fun u => ih u (hp u)
  | lock r k ih => exact ih hp
  | stmt q k ih => exact ⟨hp.1, fun b => ih b (hp.2 b)⟩
  | commit k ih => exact hp

theorem Prog.Reads.attempt {p : Prog D W R ε α} (hp : p.Reads) : p.attempt.Reads := by
  induction p with
  | ret a => trivial
  | fail e => trivial
  | now k ih => exact fun t => ih t (hp t)
  | draw k ih => exact fun u => ih u (hp u)
  | lock r k ih => exact ih hp
  | stmt q k ih =>
    rw [Prog.attempt]
    refine ⟨fun d t b ws heq => ?_, fun b => ?_⟩
    · cases hq : q d t with
      | error e =>
        simp only [hq, Except.ok.injEq, Prod.mk.injEq] at heq
        exact heq.2.symm
      | ok p =>
        simp only [hq, Except.ok.injEq, Prod.mk.injEq] at heq
        rw [← heq.2]
        exact hp.1 d t p.1 p.2 hq
    · cases b with
      | ok b => exact ih b (hp.2 b)
      | error e => trivial
  | commit k ih => exact hp

section sessions

variable [DecidableEq ι] [Dbms D W R] {allow : OfCommit ι D W R} {s s' : Sys ι D W R ε α} {me : ι}

/-- A step of a session that only reads leaves it one. -/
theorem Prog.Reads.advance (h : (s.sess me).prog.Reads) (u : Nat) :
    ((s.advance me u).sess me).prog.Reads ∧ (s.advance me u).shared = s.shared := by
  unfold Sys.advance
  split
  all_goals rename_i heq; rw [heq] at h
  · simp [Prog.Reads]
  · simp [Prog.Reads]
  · simpa using h _
  · simpa using h u
  · simpa [Prog.Reads] using h
  · split
    · simpa using h.2 _
    · simp [Prog.Reads]
  · exact h.elim

/-- **Readers** commit nothing, in any run. -/
theorem silent_of_reachable (hs : (s.sess me).prog.Reads) (hr : Sys.Reachable allow s s') :
    (s'.sess me).prog.Reads ∧ commitsOf me s'.shared.wal = commitsOf me s.shared.wal := by
  induction hr with
  | init => exact ⟨hs, rfl⟩
  | @step s₁ s₂ _ hstep ih =>
    obtain ⟨hreads, hsame⟩ := ih
    cases hstep with
    | run j u hfree hallow =>
      by_cases hj : me = j
      · subst hj
        obtain ⟨hreads', hshared⟩ := hreads.advance u
        exact ⟨hreads', by rw [hshared, hsame]⟩
      · rw [s₁.advance_ne hj]
        refine ⟨hreads, ?_⟩
        rcases s₁.advance_shared j u with hshared | ⟨-, hcommit⟩
        · rw [hshared, hsame]
        · rw [hcommit, Shared.commit,
            commitsOf_others (by simpa using fun heq => hj heq.symm), hsame]
    | tick t _ => exact ⟨hreads, hsame⟩
    | abort j e =>
      refine ⟨?_, hsame⟩
      by_cases hj : me = j
      · subst hj
        rw [Sys.setSess_self]
        trivial
      · rw [Sys.setSess_ne _ _ hj]
        exact hreads

end sessions

/-- **Rule of readers**: whatever the others do, nothing was written. -/
theorem wp_reads [Dbms D W R] {rg : RG ι D W R} {me : ι} {p : Prog D W R ε α}
    {Q : Post ι D W R ε α} {g : Shared ι D W} {tx : Tx W R} (hp : p.Reads)
    (hQ : ∀ r g' tx', Progress rg [] g tx g' tx' → Q r g' tx') : wp rg me p Q g tx := by
  induction p generalizing g tx with
  | ret a => exact hQ _ g tx (.refl g tx)
  | fail e => exact hQ _ g tx (.refl g tx)
  | now k ih =>
    intro g' hr
    exact ih _ (hp _) fun r g'' tx'' h => hQ r g'' tx'' ((Progress.env hr).trans h)
  | draw k ih =>
    intro g' hr u
    exact ih u (hp u) fun r g'' tx'' h => hQ r g'' tx'' ((Progress.env hr).trans h)
  | lock r k ih =>
    intro g' hr
    exact ih hp fun r' g'' tx'' h => hQ r' g'' tx'' ((Progress.lock hr r).trans h)
  | stmt q k ih =>
    intro g' hr
    have hread := Progress.read hr
    cases hq : q (replay g'.db tx.log) (tx.openAt g'.clock g'.wal.length).now with
    | error e => exact hQ _ _ _ hread
    | ok p =>
      obtain ⟨b, ws⟩ := p
      obtain rfl : ws = [] := hp.1 _ _ b ws hq
      have hcont := ih b (hp.2 b) fun r g'' tx'' h => hQ r g'' tx'' (hread.trans h)
      simpa using hcont
  | commit k ih => exact hp.elim

end ReadCommitted
