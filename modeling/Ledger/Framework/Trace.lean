import Ledger.Framework.RelyGuarantee

/-! # What a Stretch of a Program Did

    `Progress rg ws g tx g' tx'`: between two points of its run a program
    made the writes `ws`, and nothing else happened to its transaction but
    locks being added.  It is what the rule of one statement gives, and it
    composes (`Progress.trans`), so that the facts about a whole program are
    facts about one list of writes.
-/

namespace ReadCommitted

variable {ι D W R : Type} [Dbms D W R]

/-- From `g`, `tx` to `g'`, `tx'` by the writes `ws`. -/
structure Progress (rg : RG ι D W R) (ws : List W) (g : Shared ι D W) (tx : Tx W R)
    (g' : Shared ι D W) (tx' : Tx W R) : Prop where
  rely : rg.rely tx.held g g'
  log : tx'.log = tx.log ++ ws
  held : tx.held ⊆ tx'.held
  start : ∀ t, tx.start = some t → tx'.start = some t ∧ tx'.began = tx.began
  /-- A transaction that was not open was opened on the way, before it wrote. -/
  opened : tx.start = none → (ws = [] ∧ tx'.start = none) ∨ ∃ go, rg.rely tx.held g go ∧
    rg.rely [] go g' ∧ tx'.start = some go.clock ∧ tx'.began = go.wal.length
  /-- Each write was admitted by the rows its statement saw, and its locks
      were kept from then on. -/
  wrote : ∀ pre w post, ws = pre ++ w :: post → ∃ gs hs,
    rg.rely tx.held g gs ∧ rg.rely hs gs g' ∧ Dbms.locks D w ⊆ hs ∧ hs ⊆ tx'.held ∧
    Dbms.admits (replay gs.db (tx.log ++ pre)) w

namespace Progress

variable {rg : RG ι D W R} {ws vs : List W} {g g₁ g₂ : Shared ι D W} {tx tx₁ tx₂ : Tx W R}

theorem trans (h : Progress rg ws g tx g₁ tx₁) (h' : Progress rg vs g₁ tx₁ g₂ tx₂) :
    Progress rg (ws ++ vs) g tx g₂ tx₂ where
  rely := rg.rely_trans h.rely (rg.rely_mono h.held h'.rely)
  log := by rw [h'.log, h.log, List.append_assoc]
  held := List.Subset.trans h.held h'.held
  start t ht := by
    obtain ⟨hs, hb⟩ := h.start t ht
    obtain ⟨hs', hb'⟩ := h'.start t hs
    exact ⟨hs', hb'.trans hb⟩
  opened hnone := by
    rcases h.opened hnone with ⟨rfl, hnone₁⟩ | ⟨go, hr, hr', hs, hb⟩
    · rcases h'.opened hnone₁ with ⟨rfl, hnone₂⟩ | ⟨go, hr, hr', hs, hb⟩
      · exact .inl ⟨rfl, hnone₂⟩
      · exact .inr ⟨go, rg.rely_trans h.rely (rg.rely_mono h.held hr), hr', hs, hb⟩
    · obtain ⟨hs', hb'⟩ := h'.start _ hs
      have hlater : rg.rely [] g₁ g₂ := rg.rely_mono (List.nil_subset _) h'.rely
      exact .inr ⟨go, hr, rg.rely_trans hr' hlater, hs', hb'.trans hb⟩
  wrote pre w post heq := by
    rcases List.append_eq_append_iff.mp heq with ⟨mid, hpre, hvs⟩ | ⟨mid, hws, hpost⟩
    · -- the write belongs to the second stretch
      obtain ⟨gs, hs, hr, hr', hl, hh, ha⟩ := h'.wrote mid w post hvs
      refine ⟨gs, hs, rg.rely_trans h.rely (rg.rely_mono h.held hr), hr', hl, hh, ?_⟩
      rwa [hpre, ← List.append_assoc, ← h.log]
    · cases mid with
      | nil =>
        obtain ⟨gs, hs, hr, hr', hl, hh, ha⟩ := h'.wrote [] w post hpost.symm
        refine ⟨gs, hs, rg.rely_trans h.rely (rg.rely_mono h.held hr), hr', hl, hh, ?_⟩
        simp only [List.append_nil] at ha hws
        rwa [← hws, ← h.log]
      | cons x mid =>
        -- the write belongs to the first stretch
        simp only [List.cons_append, List.cons.injEq] at hpost
        obtain ⟨rfl, hpost⟩ := hpost
        obtain ⟨gs, hs, hr, hr', hl, hh, ha⟩ := h.wrote pre w mid hws
        exact ⟨gs, hs, hr, rg.rely_trans hr' (rg.rely_mono hh h'.rely), hl,
          List.Subset.trans hh h'.held, ha⟩

/-- Nothing was written, and no transaction opened. -/
theorem of_rely (hr : rg.rely tx.held g g₁) (hlog : tx₁.log = tx.log)
    (hheld : tx.held ⊆ tx₁.held) (hstart : tx₁.start = tx.start) (hbegan : tx₁.began = tx.began) :
    Progress rg [] g tx g₁ tx₁ where
  rely := hr
  log := by simp [hlog]
  held := hheld
  start t ht := ⟨hstart.trans ht, hbegan⟩
  opened hnone := .inl ⟨rfl, hstart.trans hnone⟩
  wrote pre w post h := by simp at h

theorem refl (g : Shared ι D W) (tx : Tx W R) : Progress rg [] g tx g tx :=
  of_rely (rg.rely_refl _ _) rfl (List.Subset.refl _) rfl rfl

/-- The environment moved. -/
theorem env (hr : rg.rely tx.held g g₁) : Progress rg [] g tx g₁ tx :=
  of_rely hr rfl (List.Subset.refl _) rfl rfl

/-- A statement that writes nothing. -/
theorem read (hr : rg.rely tx.held g g₁) :
    Progress rg [] g tx g₁ (tx.openAt g₁.clock g₁.wal.length) where
  rely := hr
  log := by simp
  held := by simp
  start t h := by rw [Tx.openAt_of_start h]; exact ⟨h, rfl⟩
  opened hnone := .inr ⟨g₁, hr, rg.rely_refl _ _, by simp [Tx.openAt, hnone],
    by simp [Tx.openAt, hnone]⟩
  wrote pre w post h := by simp at h

/-- A lock. -/
theorem lock (hr : rg.rely tx.held g g₁) (r : R) :
    Progress rg [] g tx g₁ ((tx.openAt g₁.clock g₁.wal.length).hold [r]) := by
  have hopen : Progress rg [] g tx g₁ (tx.openAt g₁.clock g₁.wal.length) := read hr
  exact hopen.trans (of_rely (rg.rely_refl _ _) rfl (by simp) rfl rfl)

/-- A statement that makes one write. -/
theorem write (hr : rg.rely tx.held g g₁) (w : W) (ha : Dbms.admits (replay g₁.db tx.log) w) :
    Progress rg [w] g tx g₁ (Tx.write (D := D) (tx.openAt g₁.clock g₁.wal.length) [w]) where
  rely := hr
  log := by simp [Tx.write]
  held := by simp [Tx.write]
  start t h := by rw [Tx.openAt_of_start h]; exact ⟨h, rfl⟩
  opened hnone := .inr ⟨g₁, hr, rg.rely_refl _ _, by simp [Tx.write, Tx.openAt, hnone],
    by simp [Tx.write, Tx.openAt, hnone]⟩
  wrote pre v post heq := by
    cases pre with
    | nil =>
      simp only [List.nil_append, List.cons.injEq] at heq
      obtain ⟨rfl, -⟩ := heq
      exact ⟨g₁, _, hr, rg.rely_refl _ _, by simp [Tx.write], List.Subset.refl _, by simpa using ha⟩
    | cons x pre => simp at heq

/-- What a write relied on, seen from the end of the stretch. -/
theorem wrote_mem (h : Progress rg ws g tx g₁ tx₁) {w : W} (hw : w ∈ ws) : ∃ gs hs pre,
    rg.rely tx.held g gs ∧ rg.rely hs gs g₁ ∧ Dbms.locks D w ⊆ hs ∧ hs ⊆ tx₁.held ∧
    pre <+: ws ∧ Dbms.admits (replay gs.db (tx.log ++ pre)) w := by
  obtain ⟨pre, post, rfl⟩ := List.append_of_mem hw
  obtain ⟨gs, hs, hr, hr', hl, hh, ha⟩ := h.wrote pre w post rfl
  exact ⟨gs, hs, pre, hr, hr', hl, hh, ⟨w :: post, by simp⟩, ha⟩

end Progress

/-! ## Lists of Commits -/

/-- From `d` to `d'` by a list of commits, each with the property `P` of the
    database it found. -/
inductive Commits (P : D → Entry ι W → Prop) : D → List (Entry ι W) → D → Prop where
  | nil (d : D) : Commits P d [] d
  | cons {d d' : D} {e : Entry ι W} {es : List (Entry ι W)} (h : P d e)
      (hs : Commits P (replay d e.writes) es d') : Commits P d (e :: es) d'

/-- The database after a list of commits. -/
def afterCommits (d : D) (es : List (Entry ι W)) : D := replay d (es.flatMap Entry.writes)

@[simp] theorem afterCommits_nil (d : D) : afterCommits d ([] : List (Entry ι W)) = d := rfl

theorem afterCommits_cons (d : D) (e : Entry ι W) (es : List (Entry ι W)) :
    afterCommits d (e :: es) = afterCommits (replay d e.writes) es := by
  simp [afterCommits, replay_append]

theorem afterCommits_append (d : D) (es fs : List (Entry ι W)) :
    afterCommits d (es ++ fs) = afterCommits (afterCommits d es) fs := by
  simp [afterCommits, replay_append]

namespace Commits

variable {P : D → Entry ι W → Prop} {d d' d'' : D} {es fs : List (Entry ι W)}

theorem append (h : Commits P d es d') (h' : Commits P d' fs d'') :
    Commits P d (es ++ fs) d'' := by
  induction h with
  | nil d => exact h'
  | cons h hs ih => exact .cons h (ih h')

/-- The commits of a part of the list. -/
theorem split (h : Commits P d (es ++ fs) d'') :
    Commits P d es (afterCommits d es) ∧ Commits P (afterCommits d es) fs d'' := by
  induction es generalizing d with
  | nil => exact ⟨.nil d, h⟩
  | cons e es ih =>
    cases h with
    | cons h hs =>
      rw [afterCommits_cons]
      exact ⟨.cons h (ih hs).1, (ih hs).2⟩

/-- One of the commits. -/
theorem at_entry {e : Entry ι W} (h : Commits P d (es ++ e :: fs) d') :
    P (afterCommits d es) e := by
  cases h.split.2 with
  | cons h hs => exact h

/-- What the first database has and the last one has not, one commit took away. -/
theorem exists_loss {Q : D → Prop} (h : Commits P d es d') (hd : Q d) (hd' : ¬ Q d') :
    ∃ es₁ e es₂, es = es₁ ++ e :: es₂ ∧ P (afterCommits d es₁) e ∧ Q (afterCommits d es₁) ∧
      ¬ Q (replay (afterCommits d es₁) e.writes) := by
  induction h with
  | nil d => exact absurd hd hd'
  | @cons d d' e es h hs ih =>
    by_cases hq : Q (replay d e.writes)
    · obtain ⟨es₁, e', es₂, rfl, hP, hQ, hn⟩ := ih hq hd'
      refine ⟨e :: es₁, e', es₂, rfl, ?_⟩
      rw [afterCommits_cons]
      exact ⟨hP, hQ, hn⟩
    · exact ⟨[], e, es, rfl, h, hd, hq⟩

end Commits

/-! ## Admitted Writes -/

/-- Every write of a list is admitted after the ones before it. -/
def Admitted (d : D) (ws : List W) : Prop :=
  ∀ pre w post, ws = pre ++ w :: post → Dbms.admits (replay d pre) w

theorem Admitted.head {d : D} {w : W} {ws : List W} (h : Admitted d (w :: ws)) :
    Dbms.admits d w :=
  h [] w ws rfl

theorem Admitted.tail {d : D} {w : W} {ws : List W} (h : Admitted d (w :: ws)) :
    Admitted (Dbms.apply d w) ws :=
  fun pre v post heq => h (w :: pre) v post (by simp [heq])

theorem Admitted.left {d : D} {ws vs : List W} (h : Admitted d (ws ++ vs)) : Admitted d ws :=
  fun pre v post heq => h pre v (post ++ vs) (by simp [heq])

theorem Admitted.right {d : D} {ws vs : List W} (h : Admitted d (ws ++ vs)) :
    Admitted (replay d ws) vs :=
  fun pre v post heq => by
    rw [← replay_append]
    exact h (ws ++ pre) v post (by simp [heq])

/-- Alone on the database, the writes of a stretch were admitted in order. -/
theorem Progress.admitted {env : Env} {S : Time → Prop} {ws : List W} {g g' : Shared Unit D W}
    {tx tx' : Tx W R} (h : Progress (RG.solo D W R env S) ws g tx g' tx') :
    Admitted (replay g.db tx.log) ws :=
  fun pre w post heq => by
    obtain ⟨gs, _, hr, -, -, -, ha⟩ := h.wrote pre w post heq
    have hdb : gs.db = g.db := hr.1
    rwa [hdb, replay_append] at ha

end ReadCommitted
