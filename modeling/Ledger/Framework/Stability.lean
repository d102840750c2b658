import Ledger.Framework.Histories

/-! # Checks That Hold at the Commit

    A statement is checked against the rows it sees.  Until its transaction
    commits, others commit too, and what it was checked against may be gone.

    * **Stability**: `Stable`, no write that spares the locks of another can
      undo the check of that other.
    * **Commits** (`Progress.admitted_at_commit`): then what a transaction
      writes is let through by the database it is published to.
    * **Promises** (`Verified.promising`): two properties of the commits, the
      second shown by counting on the first.
    * **Invariants** (`invariant_of_reachable`): what the commits of verified
      programs keep, every state of their runs has.
    * **Commit log** (`commits_of_reachable`): each of its entries is such a
      commit.
-/

namespace ReadCommitted

variable {ι D W R ε α β : Type} [Dbms D W R]

/-! ## Commits -/

variable (D) in
/-- The check of a write, after earlier writes of its own transaction, passes
    as well when others have made writes that spare its locks. -/
def Stable : Prop :=
  ∀ (d : D) (vs pre : List W) (w : W),
    (∀ v ∈ vs, ∀ r ∈ Dbms.locks D v, r ∉ Dbms.locks D w) →
      Dbms.admits (replay d pre) w → Dbms.admits (replay (replay d vs) pre) w

section stretch

variable {allow P : OfCommit ι D W R} {g g' : Shared ι D W} {tx tx' : Tx W R} {ws : List W}

/-- **The writes of a transaction** are let through by the database it commits
    to: each was when it was made, and its locks have kept the others from
    undoing that. -/
theorem Progress.admitted_at_commit (hstable : Stable D)
    (h : Progress (.logging allow P) ws g {} g' tx') : Admitted g'.db ws := by
  intro pre w post heq
  obtain ⟨gs, cs, hlogged, hspares, hadm⟩ := h.spared heq
  rw [hlogged.db]
  refine hstable gs.db _ pre w (fun v hv r hr => ?_) hadm
  obtain ⟨e, he, hve⟩ := List.mem_flatMap.mp hv
  obtain ⟨c, hc, rfl⟩ := List.mem_map.mp he
  exact hspares c hc v hve r hr

end stretch

/-- What a write of a list establishes and no write undoes holds after the list. -/
theorem Admitted.establishes {I J : D → Prop} {d : D} {w : W} {ws : List W}
    (hadm : Admitted d ws) (hw : w ∈ ws) (hI : ∀ d w, I d → I (Dbms.apply d w))
    (hJ : ∀ d w, J d → J (Dbms.apply d w)) (h₀ : J d)
    (hnew : ∀ d, J d → Dbms.admits d w → I (Dbms.apply d w)) : I (replay d ws) := by
  obtain ⟨pre, post, rfl⟩ := List.append_of_mem hw
  have hbefore : J (replay d pre) := replay_induction d h₀ fun d v _ hd => hJ d v hd
  rw [replay_append, replay_cons]
  exact replay_induction _ (hnew _ hbefore (hadm pre w post rfl)) fun d v _ hd => hI d v hd

/-! ## Promises -/

/-- A session counts on what the commits of the others have, and shows
    something else of its own. -/
def RG.promising (allow P G : OfCommit ι D W R) : RG ι D W R :=
  { RG.logging allow P with guar := fun i tx g _ => G i tx g }

/-- What a session counts on when it shows something else. -/
theorem Progress.counted {allow P G : OfCommit ι D W R} {ws : List W} {g g' : Shared ι D W}
    {tx tx' : Tx W R} (h : Progress (.promising allow P G) ws g tx g' tx') :
    Progress (.logging allow P) ws g tx g' tx' :=
  ⟨h.rely, h.log, h.held, h.start, h.opened, h.wrote⟩

/-- **Promises**: sessions whose commits have a property, each on the condition
    that those of the others have it, and that show another property on that
    condition, have both. -/
theorem Verified.promising {allow P G : OfCommit ι D W R} {s : Sys ι D W R ε α}
    (hP : Verified (.logging allow P) s) (hG : Verified (.promising allow P G) s) :
    Verified (.logging allow fun i tx g => P i tx g ∧ G i tx g) s where
  prog i := by
    refine wp_and ?_ ?_ ?_ (fun _ _ _ _ _ => trivial) (hP.prog i) (hG.prog i)
    · rintro rs g g' ⟨cs, hlogged, hspares⟩
      have hless : Logged P g cs g' := hlogged.mono fun _ _ _ h => h.1
      exact ⟨⟨cs, hless, hspares⟩, ⟨cs, hless, hspares⟩⟩
    · exact fun _ _ ha => ⟨ha, ha⟩
    · exact fun _ _ _ h₁ h₂ => ⟨⟨h₁.1, h₂⟩, h₁.2⟩
  locks := hP.locks

/-! ## Runs -/

section runs

variable {P : OfCommit ι D W R} {I : D → Prop}

/-- What no write undoes is not undone by the others. -/
theorem rely_write {allow : OfCommit ι D W R} {rs : List R} {g g' : Shared ι D W}
    (hI : ∀ d w, I d → I (Dbms.apply d w)) (hr : (RG.logging allow P).rely rs g g') (h : I g.db) :
    I g'.db := by
  obtain ⟨cs, hlogged, -⟩ := hr
  rw [hlogged.db]
  exact replay_induction g.db h fun d w _ hd => hI d w hd

/-- What each commit of a history keeps, the history keeps. -/
theorem Logged.invariant {g g' : Shared ι D W} {cs : List (Commit ι W R)} (h : Logged P g cs g')
    (h₀ : I g.db)
    (hstep : ∀ i tx (g : Shared ι D W), P i tx g → I g.db → I (replay g.db tx.log)) :
    I g'.db := by
  have hprefix : ∀ ds, ds <+: cs → I (afterCommits g.db (ds.map Commit.entry)) := by
    intro ds
    induction ds using List.reverseRecOn with
    | nil => exact fun _ => h₀
    | append_singleton ds c ih =>
      rintro ⟨es, heq⟩
      have hP := h.each ds c es (by simp [← heq])
      have hI := ih ⟨c :: es, by simp [← heq]⟩
      simpa [afterCommits_append, afterCommits_cons, Commit.entry] using hstep _ _ _ hP hI
  rw [h.db]
  exact hprefix cs (List.prefix_refl cs)

variable [DecidableEq ι] {allow : OfCommit ι D W R} {s₀ s : Sys ι D W R ε α}

/-- **Invariants**: what the commits of verified programs keep, every state of
    their runs has. -/
theorem invariant_of_reachable (hv : Verified (.logging allow P) s₀) (h₀ : I s₀.shared.db)
    (hstep : ∀ i tx (g : Shared ι D W), P i tx g → I g.db → I (replay g.db tx.log))
    (hr : Sys.Reachable allow s₀ s) : I s.shared.db := by
  obtain ⟨-, cs, hlogged, -⟩ := hv.reachable (RG.logging_sound allow P) hr
  exact hlogged.invariant h₀ hstep

/-- **Commits**: in the commit log of a run that started without one, each
    commit has the property in the state it was published to, and that state
    has the invariant. -/
theorem commits_of_reachable (hv : Verified (.logging allow P) s₀) (hwal : s₀.shared.wal = [])
    (h₀ : I s₀.shared.db)
    (hstep : ∀ i tx (g : Shared ι D W), P i tx g → I g.db → I (replay g.db tx.log))
    (hr : Sys.Reachable allow s₀ s) :
    s.shared.db = afterCommits s₀.shared.db s.shared.wal ∧
      ∀ es e es', s.shared.wal = es ++ e :: es' → I (afterCommits s₀.shared.db es) ∧
        ∃ tx g, tx.log = e.writes ∧ g.db = afterCommits s₀.shared.db es ∧ P e.who tx g := by
  obtain ⟨-, cs, hlogged, -⟩ := hv.reachable (RG.logging_sound allow P) hr
  have hwal' : s.shared.wal = cs.map Commit.entry := by simpa [hwal] using hlogged.wal
  refine ⟨by rw [hwal']; exact hlogged.db, fun es e es' heq => ?_⟩
  rw [hwal', List.map_eq_append_iff] at heq
  obtain ⟨cs₁, cs₂, rfl, rfl, hcs₂⟩ := heq
  obtain ⟨c, cs₂, rfl, rfl, -⟩ := List.map_eq_cons_iff.mp hcs₂
  exact ⟨hlogged.left.invariant h₀ hstep, c.tx, _, rfl, rfl, hlogged.each cs₁ c cs₂ rfl⟩

end runs

end ReadCommitted
