import Ledger.Framework.Interleaving

/-! # Rely-Guarantee Rules for Transaction Programs

    A property of every interleaving from a property of each program alone.

    * **Rely**: what the commits of other sessions and the passing of time may
      do to the shared state while a session keeps given locks.
    * **Guarantee**: what a session's own commit may do.
    * **wp**: the weakest precondition of a program when the shared state may
      move by the rely before each of its statements.
    * **Soundness** (`Sound.reachable`): if every guarantee is within the rely
      of any session with other locks, then the rely of a session without
      locks relates any two states of a run.
    * **Solo** (`wp_solo`): the same `wp`, with a rely that keeps the
      database, speaks about the program run alone.
-/

namespace ReadCommitted

variable {ι D W R ε α β : Type}

/-- What is assumed about the environment and promised by each commit. -/
structure RG (ι D W R : Type) where
  /-- What may happen to the shared state while the locks are kept. -/
  rely : List R → Shared ι D W → Shared ι D W → Prop
  /-- Which commits are taken into account. -/
  allow : ι → Tx W R → Shared ι D W → Prop
  /-- What a commit does to the shared state. -/
  guar : ι → Tx W R → Shared ι D W → Shared ι D W → Prop
  rely_refl : ∀ rs g, rely rs g g
  rely_trans : ∀ {rs g₁ g₂ g₃}, rely rs g₁ g₂ → rely rs g₂ g₃ → rely rs g₁ g₃
  /-- More locks leave the others less freedom. -/
  rely_mono : ∀ {rs rs' g g'}, rs ⊆ rs' → rely rs' g g' → rely rs g g'

variable [Dbms D W R]

/-! ## Weakest Preconditions -/

/-- An assertion about what a program returned or raised. -/
abbrev Post (ι D W R ε α : Type) : Type :=
  Except ε α → Shared ι D W → Tx W R → Prop

/-- Weakest precondition of a program run by session `me`. -/
def wp (rg : RG ι D W R) (me : ι) :
    Prog D W R ε α → Post ι D W R ε α → Shared ι D W → Tx W R → Prop
  | .ret a, Q, g, tx => Q (.ok a) g tx
  | .fail e, Q, g, tx => Q (.error e) g tx
  | .now k, Q, g, tx => ∀ g', rg.rely tx.held g g' → wp rg me (k g'.clock) Q g' tx
  | .draw k, Q, g, tx => ∀ g', rg.rely tx.held g g' → ∀ u, wp rg me (k u) Q g' tx
  | .lock r k, Q, g, tx =>
    ∀ g', rg.rely tx.held g g' →
      wp rg me k Q g' ((tx.openAt g'.clock g'.wal.length).hold [r])
  | .stmt q k, Q, g, tx =>
    ∀ g', rg.rely tx.held g g' →
      match q (replay g'.db tx.log) (tx.openAt g'.clock g'.wal.length).now with
      | .error e => Q (.error e) g' (tx.openAt g'.clock g'.wal.length)
      | .ok (b, ws) =>
        wp rg me (k b) Q g' (Tx.write (D := D) (tx.openAt g'.clock g'.wal.length) ws)
  | .commit k, Q, g, tx =>
    ∀ g', rg.rely tx.held g g' → rg.allow me tx g' →
      rg.guar me tx g' (g'.commit me tx) ∧ wp rg me k Q (g'.commit me tx) {}

section rules

variable {rg : RG ι D W R} {me : ι}

theorem wp_mono {p : Prog D W R ε α} {Q Q' : Post ι D W R ε α}
    (hQ : ∀ r g tx, Q r g tx → Q' r g tx) :
    ∀ {g tx}, wp rg me p Q g tx → wp rg me p Q' g tx := by
  induction p with
  | ret a => intro g tx h; exact hQ _ _ _ h
  | fail e => intro g tx h; exact hQ _ _ _ h
  | now k ih => intro g tx h g' hr; exact ih _ (h g' hr)
  | draw k ih => intro g tx h g' hr u; exact ih u (h g' hr u)
  | lock r k ih => intro g tx h g' hr; exact ih (h g' hr)
  | stmt q k ih =>
    intro g tx h g' hr
    have h' := h g' hr
    split at h'
    · exact hQ _ _ _ h'
    · exact ih _ h'
  | commit k ih => intro g tx h g' hr ha; exact ⟨(h g' hr ha).1, ih (h g' hr ha).2⟩

/-- The postcondition of the first part of a sequence. -/
def Post.seq (rg : RG ι D W R) (me : ι) (f : α → Prog D W R ε β) (Q : Post ι D W R ε β) :
    Post ι D W R ε α
  | .ok a => wp rg me (f a) Q
  | .error e => Q (.error e)

/-- **Sequence rule.** -/
theorem wp_bind (p : Prog D W R ε α) (f : α → Prog D W R ε β) (Q : Post ι D W R ε β) :
    wp rg me (p >>= f) Q = wp rg me p (Post.seq rg me f Q) := by
  show wp rg me (p.bind f) Q = _
  induction p with
  | ret a => rfl
  | fail e => rfl
  | now k ih => funext g tx; simp only [Prog.bind, wp, ih]
  | draw k ih => funext g tx; simp only [Prog.bind, wp, ih]
  | lock r k ih => funext g tx; simp only [Prog.bind, wp, ih]
  | stmt q k ih => funext g tx; simp only [Prog.bind, wp, ih, Post.seq]
  | commit k ih => funext g tx; simp only [Prog.bind, wp, ih]

@[simp] theorem wp_pure (a : α) (Q : Post ι D W R ε α) :
    wp rg me (pure a : Prog D W R ε α) Q = Q (.ok a) := rfl

@[simp] theorem wp_fail (e : ε) (Q : Post ι D W R ε α) :
    wp rg me (.fail e : Prog D W R ε α) Q = Q (.error e) := rfl

/-- Without locks to be waited for, the environment may move before the program starts. -/
theorem wp_rely {p : Prog D W R ε α} {Q : Post ι D W R ε α}
    (hQ : ∀ r g g' tx, rg.rely tx.held g g' → Q r g tx → Q r g' tx)
    {g g' : Shared ι D W} {tx : Tx W R} (hr : rg.rely tx.held g g')
    (h : wp rg me p Q g tx) : wp rg me p Q g' tx := by
  cases p with
  | ret a => exact hQ _ _ _ _ hr h
  | fail e => exact hQ _ _ _ _ hr h
  | now k => exact fun g'' hr' => h g'' (rg.rely_trans hr hr')
  | draw k => exact fun g'' hr' => h g'' (rg.rely_trans hr hr')
  | lock r k => exact fun g'' hr' => h g'' (rg.rely_trans hr hr')
  | stmt q k => exact fun g'' hr' => h g'' (rg.rely_trans hr hr')
  | commit k => exact fun g'' hr' => h g'' (rg.rely_trans hr hr')

/-- **Rule of conjunction**: what is shown of a program by two arguments holds
    together, in an environment that both of them allow for. -/
theorem wp_and {rg₁ rg₂ : RG ι D W R} {p : Prog D W R ε α} {Q₁ Q₂ Q : Post ι D W R ε α}
    (hrely : ∀ rs g g', rg.rely rs g g' → rg₁.rely rs g g' ∧ rg₂.rely rs g g')
    (hallow : ∀ tx g, rg.allow me tx g → rg₁.allow me tx g ∧ rg₂.allow me tx g)
    (hguar : ∀ tx g g', rg₁.guar me tx g g' → rg₂.guar me tx g g' → rg.guar me tx g g')
    (hQ : ∀ r g tx, Q₁ r g tx → Q₂ r g tx → Q r g tx) {g : Shared ι D W} {tx : Tx W R}
    (h₁ : wp rg₁ me p Q₁ g tx) (h₂ : wp rg₂ me p Q₂ g tx) : wp rg me p Q g tx := by
  induction p generalizing g tx with
  | ret a => exact hQ _ _ _ h₁ h₂
  | fail e => exact hQ _ _ _ h₁ h₂
  | now k ih =>
    intro g' hr
    exact ih _ (h₁ g' (hrely _ _ _ hr).1) (h₂ g' (hrely _ _ _ hr).2)
  | draw k ih =>
    intro g' hr u
    exact ih u (h₁ g' (hrely _ _ _ hr).1 u) (h₂ g' (hrely _ _ _ hr).2 u)
  | lock r k ih =>
    intro g' hr
    exact ih (h₁ g' (hrely _ _ _ hr).1) (h₂ g' (hrely _ _ _ hr).2)
  | stmt q k ih =>
    intro g' hr
    have h₁' := h₁ g' (hrely _ _ _ hr).1
    have h₂' := h₂ g' (hrely _ _ _ hr).2
    cases hq : q (replay g'.db tx.log) (tx.openAt g'.clock g'.wal.length).now with
    | error e =>
      rw [hq] at h₁' h₂'
      exact hQ _ _ _ h₁' h₂'
    | ok r =>
      rw [hq] at h₁' h₂'
      exact ih _ h₁' h₂'
  | commit k ih =>
    intro g' hr ha
    obtain ⟨hg₁, hk₁⟩ := h₁ g' (hrely _ _ _ hr).1 (hallow _ _ ha).1
    obtain ⟨hg₂, hk₂⟩ := h₂ g' (hrely _ _ _ hr).2 (hallow _ _ ha).2
    exact ⟨hguar _ _ _ hg₁ hg₂, ih hk₁ hk₂⟩

end rules

/-! ## Soundness for Interleavings -/

/-- Every guarantee is something the other sessions rely on. -/
structure RG.Sound (rg : RG ι D W R) : Prop where
  tick : ∀ rs g t, g.clock ≤ t → rg.rely rs g { g with clock := t }
  commit : ∀ i tx g, rg.guar i tx g (g.commit i tx) →
    ∀ rs, (∀ r ∈ rs, r ∉ tx.held) → rg.rely rs g (g.commit i tx)

section soundness

variable [DecidableEq ι] {rg : RG ι D W R}

/-- **A move of the session itself** leaves a program that is verified from there on. -/
theorem wp_advance {Q : Post ι D W R ε α} (hret : ∀ a g tx, Q (.ok a) g tx → Q (.ok a) g {})
    (hfail : ∀ e g tx, Q (.error e) g tx) {s : Sys ι D W R ε α} {i : ι}
    (hallow : s.committing i = true → rg.allow i (s.sess i).tx s.shared) (u : Nat)
    (h : wp rg i (s.sess i).prog Q s.shared (s.sess i).tx) :
    wp rg i ((s.advance i u).sess i).prog Q (s.advance i u).shared
      ((s.advance i u).sess i).tx := by
  have hrefl := rg.rely_refl (s.sess i).tx.held s.shared
  unfold Sys.advance
  split
  all_goals rename_i heq; rw [heq] at h
  · rw [Sys.setSess_self]
    exact hret _ _ _ h
  · rw [Sys.setSess_self]
    exact hfail _ _ _
  · simpa using h _ hrefl
  · simpa using h _ hrefl u
  · simpa [Sys.txAt] using h _ hrefl
  · -- a statement, on what the session sees
    have h' := h _ hrefl
    simp only [Sys.view, Sys.txAt]
    split
    · rename_i b ws hq
      rw [hq] at h'
      simpa using h'
    · rw [Sys.setSess_self]
      exact hfail _ _ _
  · have hcommits : s.committing i = true := by simp [Sys.committing, heq]
    simpa using (h _ hrefl (hallow hcommits)).2

/-- A move of the session itself changes nothing, or is a commit that keeps
    its guarantee. -/
theorem guar_of_advance {Q : Post ι D W R ε α} {s : Sys ι D W R ε α} {i : ι}
    (hallow : s.committing i = true → rg.allow i (s.sess i).tx s.shared) (u : Nat)
    (h : wp rg i (s.sess i).prog Q s.shared (s.sess i).tx) :
    (s.advance i u).shared = s.shared ∨
      (s.advance i u).shared = s.shared.commit i (s.sess i).tx ∧
      rg.guar i (s.sess i).tx s.shared (s.shared.commit i (s.sess i).tx) := by
  rcases s.advance_shared i u with hsame | ⟨hcommits, hcommit⟩
  · exact .inl hsame
  · refine .inr ⟨hcommit, ?_⟩
    cases hprog : (s.sess i).prog with
    | commit k =>
      rw [hprog] at h
      exact (h _ (rg.rely_refl _ _) (hallow hcommits)).1
    | _ => simp [Sys.committing, hprog] at hcommits

/-- Every session's program is verified from here on, and no lock is kept twice. -/
structure Verified (rg : RG ι D W R) (s : Sys ι D W R ε α) : Prop where
  prog : ∀ i, wp rg i (s.sess i).prog (fun _ _ _ => True) s.shared (s.sess i).tx
  locks : ∀ i j, i ≠ j → ∀ r ∈ (s.sess i).tx.held, r ∉ (s.sess j).tx.held

/-- A move is within the rely of the other sessions. -/
theorem Verified.rely {s : Sys ι D W R ε α} (hs : rg.Sound) (h : Verified rg s) {i : ι}
    (hallow : s.committing i = true → rg.allow i (s.sess i).tx s.shared) (u : Nat) {rs : List R}
    (hrs : ∀ r ∈ rs, r ∉ (s.sess i).tx.held) : rg.rely rs s.shared (s.advance i u).shared := by
  rcases guar_of_advance hallow u (h.prog i) with hsame | ⟨hcommit, hguar⟩
  · rw [hsame]
    exact rg.rely_refl _ _
  · rw [hcommit]
    exact hs.commit _ _ _ hguar rs hrs

/-- **Step lemma**: a step keeps every session verified and is within the
    rely of a session without locks. -/
theorem Verified.step {s s' : Sys ι D W R ε α} (hs : rg.Sound) (h : Verified rg s)
    (hstep : Sys.Step rg.allow s s') : Verified rg s' ∧ rg.rely [] s.shared s'.shared := by
  cases hstep with
  | abort i e =>
    refine ⟨⟨fun j => ?_, fun j k hjk r hr => ?_⟩, rg.rely_refl _ _⟩
    · by_cases hj : j = i
      · subst hj
        rw [Sys.setSess_self]
        trivial
      · rw [Sys.setSess_ne _ _ hj]
        exact h.prog j
    · by_cases hj : j = i
      · subst hj
        simp at hr
      · rw [Sys.setSess_ne _ _ hj] at hr
        by_cases hk : k = i
        · subst hk
          simp
        · rw [Sys.setSess_ne _ _ hk]
          exact h.locks j k hjk r hr
  | tick t ht =>
    refine ⟨⟨fun i => ?_, h.locks⟩, hs.tick _ _ _ ht⟩
    exact wp_rely (fun _ _ _ _ _ _ => trivial) (hs.tick _ _ _ ht) (h.prog i)
  | run i u hfree hallow =>
    refine ⟨⟨fun j => ?_, fun j k hjk r hr => ?_⟩, h.rely hs hallow u (by simp)⟩
    · by_cases hj : j = i
      · subst hj
        exact wp_advance (fun _ _ _ _ => trivial) (fun _ _ _ => trivial) hallow u (h.prog j)
      · rw [s.advance_ne hj]
        exact wp_rely (fun _ _ _ _ _ _ => trivial) (h.rely hs hallow u (h.locks j i hj)) (h.prog j)
    · -- the locks that came with the move were free
      have hmine : ∀ r ∈ ((s.advance i u).sess i).tx.held, ∀ j, j ≠ i → r ∉ (s.sess j).tx.held := by
        intro r hr j hj
        rcases List.mem_append.mp (s.held_advance i u hr) with hr | hr
        · exact h.locks i j (fun e => hj e.symm) r hr
        · exact hfree j hj r hr
      by_cases hj : j = i
      · subst hj
        rw [s.advance_ne fun e => hjk e.symm]
        exact hmine r hr k fun e => hjk e.symm
      · rw [s.advance_ne hj] at hr
        by_cases hk : k = i
        · subst hk
          exact fun hmem => hmine r hmem j hj hr
        · rw [s.advance_ne hk]
          exact h.locks j k hjk r hr

/-- **Run lemma**: whatever the interleaving, two states of a run are related
    by the rely of a session without locks. -/
theorem Verified.reachable {s s' : Sys ι D W R ε α} (hs : rg.Sound) (h : Verified rg s)
    (hreach : Sys.Reachable rg.allow s s') :
    Verified rg s' ∧ rg.rely [] s.shared s'.shared := by
  induction hreach with
  | init => exact ⟨h, rg.rely_refl _ _⟩
  | step _ hstep ih =>
    obtain ⟨hv, hr⟩ := ih
    obtain ⟨hv', hr'⟩ := hv.step hs hstep
    exact ⟨hv', rg.rely_trans hr hr'⟩

/-- **What a session returned** in a run of verified programs, if its program
    promises it and the rely of a session without locks keeps it. -/
theorem Verified.returned {s s' : Sys ι D W R ε α} (hs : rg.Sound) (h : Verified rg s) {i : ι}
    {K : Shared ι D W → α → Prop} (hK : ∀ g g' a, rg.rely [] g g' → K g a → K g' a)
    (hp : wp rg i (s.sess i).prog (fun r g _ => ∀ a, r = .ok a → K g a) s.shared (s.sess i).tx)
    (hreach : Sys.Reachable rg.allow s s') {a : α} (ha : (s'.sess i).prog = .ret a) :
    K s'.shared a := by
  let Q : Post ι D W R ε α := fun r g _ => ∀ a, r = .ok a → K g a
  have hwp : wp rg i (s'.sess i).prog Q s'.shared (s'.sess i).tx := by
    clear ha
    induction hreach with
    | init => exact hp
    | @step s₁ s₂ hreach hstep ih =>
      have hv := (h.reachable hs hreach).1
      have hrely : ∀ {g'}, rg.rely (s₁.sess i).tx.held s₁.shared g' →
          wp rg i (s₁.sess i).prog Q g' (s₁.sess i).tx := by
        intro g' hr
        refine wp_rely (fun r g g' tx hr hQ a hra => ?_) hr ih
        exact hK g g' a (rg.rely_mono (by simp) hr) (hQ a hra)
      cases hstep with
      | abort j e =>
        by_cases hj : i = j
        · subst hj
          rw [Sys.setSess_self]
          intro a ha
          cases ha
        · rw [Sys.setSess_ne _ _ hj]
          exact ih
      | tick t ht => exact hrely (hs.tick _ _ _ ht)
      | run j u hfree hallow =>
        by_cases hj : i = j
        · subst hj
          exact wp_advance (fun _ _ _ hQ => hQ) (fun _ _ _ _ hraised => by cases hraised)
            hallow u ih
        · rw [s₁.advance_ne hj]
          exact hrely (hv.rely hs hallow u (hv.locks i j hj))
  rw [ha] at hwp
  exact hwp a rfl

omit [DecidableEq ι] in
theorem Verified.initial {s : Sys ι D W R ε α} (hinit : s.Initial)
    (h : ∀ i, wp rg i (s.sess i).prog (fun _ _ _ => True) s.shared {}) : Verified rg s where
  prog i := by rw [hinit.2 i]; exact h i
  locks i _ _ r hr := by rw [hinit.2 i] at hr; cases hr

end soundness

/-! ## Soundness for the Solo Run -/

/-- Alone on the database: the rows do not move, the clock goes from one
    reading of the environment to another, and a commit is not held to
    anything.  Its transaction has started at one of the times `S`. -/
def RG.solo (D W R : Type) (env : Env) (S : Time → Prop) : RG Unit D W R where
  rely _ g g' := g'.db = g.db ∧ (env.Reads g.clock → env.Reads g'.clock)
  allow _ tx _ := ∀ t, tx.start = some t → S t
  guar _ _ _ _ := True
  rely_refl _ _ := ⟨rfl, id⟩
  rely_trans h h' := ⟨h'.1.trans h.1, fun hr => h'.2 (h.2 hr)⟩
  rely_mono _ h := h

/-- A program verified for the solo rely ends, when run alone, in a state and
    with a result that satisfy its postcondition, and in a transaction that
    has started when the run says. -/
theorem wp_solo (env : Env) (S : Time → Prop) (p : Prog D W R ε α) (Q : Post Unit D W R ε α) :
    ∀ (n : Nat) (d : D) (tx : Tx W R) (g : Shared Unit D W), g.db = d →
      (∀ t, tx.start = some t → S t) → (∀ t ∈ p.starts env n d tx, S t) →
      wp (RG.solo D W R env S) () p Q g tx →
      ∃ g' tx', g'.db = (p.solo env n d tx).2 ∧ (∀ t, tx'.start = some t → S t) ∧
        Q (p.solo env n d tx).1 g' tx' := by
  induction p with
  | ret a => intro n d tx g hg hS _ h; exact ⟨g, tx, hg, hS, h⟩
  | fail e => intro n d tx g hg hS _ h; exact ⟨g, tx, hg, hS, h⟩
  | now k ih =>
    intro n d tx g hg hS hstarts h
    exact ih _ (n + 1) d tx ⟨d, env.clock n, []⟩ rfl hS hstarts
      (h ⟨d, env.clock n, []⟩ ⟨hg.symm, fun _ => ⟨n, rfl⟩⟩)
  | draw k ih =>
    intro n d tx g hg hS hstarts h
    exact ih _ (n + 1) d tx g hg hS hstarts (h g ⟨rfl, id⟩ (env.ident n))
  | lock r k ih =>
    intro n d tx g hg hS hstarts h
    rw [Prog.starts] at hstarts
    have hopen : ∀ t, (tx.openAt (env.clock n) 0).start = some t → S t := fun t ht =>
      (Tx.start_openAt ht).elim (hS t) fun hmem => hstarts t (List.mem_append_left _ hmem)
    exact ih (n + 1) d _ ⟨d, env.clock n, []⟩ rfl hopen
      (fun t ht => hstarts t (List.mem_append_right _ ht))
      (h ⟨d, env.clock n, []⟩ ⟨hg.symm, fun _ => ⟨n, rfl⟩⟩)
  | stmt q k ih =>
    intro n d tx g hg hS hstarts h
    rw [Prog.starts] at hstarts
    have hopen : ∀ t, (tx.openAt (env.clock n) 0).start = some t → S t := fun t ht =>
      (Tx.start_openAt ht).elim (hS t) fun hmem => hstarts t (List.mem_append_left _ hmem)
    have hrest := fun t ht => hstarts t (List.mem_append_right _ ht)
    have h' := h ⟨d, env.clock n, []⟩ ⟨hg.symm, fun _ => ⟨n, rfl⟩⟩
    simp only [List.length_nil] at h'
    simp only [Prog.solo]
    cases hq : q (replay d tx.log) (tx.openAt (env.clock n) 0).now with
    | error e =>
      rw [hq] at h'
      exact ⟨⟨d, env.clock n, []⟩, _, rfl, hopen, h'⟩
    | ok r =>
      rw [hq] at h' hrest
      exact ih r.1 (n + 1) d _ ⟨d, env.clock n, []⟩ rfl hopen hrest h'
  | commit k ih =>
    intro n d tx g hg hS hstarts h
    have h' := (h ⟨d, env.clock n, []⟩ ⟨hg.symm, fun _ => ⟨n, rfl⟩⟩ hS).2
    exact ih (n + 1) _ _ _ rfl (fun t ht => by cases ht) hstarts h'

end ReadCommitted
