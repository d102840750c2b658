import Ledger.Framework.RelyGuarantee
import Mathlib.Logic.Relation
import Mathlib.Order.Defs.PartialOrder

/-! # Deadlock Freedom from an Order on Locks

    Sessions that wait for one another in a circle, and why sessions that ask
    for their locks in one order never do.

    * **Deadlock**: `Sys.WaitsFor`, the next statement of a session needs a
      lock another session keeps; `Sys.Deadlock`, a circle of such sessions.
    * **Order**: `Asks`, a session asks for a lock it keeps already, or for one
      that ranks above those it keeps.
    * **Programs**: `Orderly`, the program asks so at each of its statements,
      whatever it is answered; `Orderly.weaken`, also for a coarser order.
    * **Soundness**: `Verified.no_deadlock`, sessions with orderly programs do
      not deadlock.
-/

namespace ReadCommitted

variable {ι D W R ε α β κ κ' : Type} [Dbms D W R]

/-! ## Deadlock -/

/-- The next statement of `i` needs one of the locks in question, which `j` keeps. -/
def Sys.WaitsFor (blocking : R → Prop) (s : Sys ι D W R ε α) (i j : ι) : Prop :=
  i ≠ j ∧ ∃ r ∈ s.wants i, blocking r ∧ r ∈ (s.sess j).tx.held

/-- A circle of sessions, each waiting for the next. -/
def Sys.Deadlock (blocking : R → Prop) (s : Sys ι D W R ε α) : Prop :=
  ∃ i, Relation.TransGen (s.WaitsFor blocking) i i

/-! ## Order -/

/-- An order on the locks in question, for runs in whose states the committed
    database has a property. -/
structure LockOrder (D R κ : Type) where
  /-- What the committed databases have. -/
  ok : D → Prop
  /-- The locks in question. -/
  blocking : R → Prop
  /-- Where a lock stands in the order. -/
  rank : R → κ

variable [Preorder κ] [Preorder κ'] {L : LockOrder D R κ} {L' : LockOrder D R κ'}

/-- A session that keeps `held` may ask for the lock. -/
def Asks (L : LockOrder D R κ) (held : List R) (r : R) : Prop :=
  L.blocking r → r ∈ held ∨ ∀ h ∈ held, L.blocking h → L.rank h < L.rank r

/-- **No circle**: if each session may ask for what it waits for and no lock
    is kept twice, no sessions wait for one another. -/
theorem not_deadlock_of_asks {s : Sys ι D W R ε α}
    (hexclusive : ∀ i j, i ≠ j → ∀ r ∈ (s.sess i).tx.held, r ∉ (s.sess j).tx.held)
    (hasks : ∀ i, ∀ r ∈ s.wants i, Asks L (s.sess i).tx.held r) : ¬ s.Deadlock L.blocking := by
  -- what a session waits for ranks above all it keeps
  have hwaits : ∀ {i j}, s.WaitsFor L.blocking i j → ∃ r ∈ (s.sess j).tx.held, L.blocking r ∧
      ∀ h ∈ (s.sess i).tx.held, L.blocking h → L.rank h < L.rank r := by
    rintro i j ⟨hij, r, hr, hblocking, hheld⟩
    rcases hasks i r hr hblocking with hown | habove
    · exact absurd hheld (hexclusive i j hij r hown)
    · exact ⟨r, hheld, hblocking, habove⟩
  have hchain : ∀ {i j}, Relation.TransGen (s.WaitsFor L.blocking) i j →
      ∃ r ∈ (s.sess j).tx.held, L.blocking r ∧
        ∀ h ∈ (s.sess i).tx.held, L.blocking h → L.rank h < L.rank r := by
    intro i j h
    induction h with
    | single h => exact hwaits h
    | tail _ h ih =>
      obtain ⟨r, hr, hblocking, habove⟩ := ih
      obtain ⟨r', hr', hblocking', habove'⟩ := hwaits h
      refine ⟨r', hr', hblocking', fun h hh hb => ?_⟩
      exact lt_trans (habove h hh hb) (habove' r hr hblocking)
  rintro ⟨i, hcircle⟩
  obtain ⟨r, hr, hblocking, habove⟩ := hchain hcircle
  exact lt_irrefl _ (habove r hr hblocking)

/-! ## Programs -/

/-- The program asks for its locks in order, from a point where its
    transaction keeps `held` and wrote `log`, up to a return with `Q`. -/
def Orderly (L : LockOrder D R κ) :
    Prog D W R ε α → (α → List R → List W → Prop) → List R → List W → Prop
  | .ret a, Q, held, log => Q a held log
  | .fail _, _, _, _ => True
  | .now k, Q, held, log => ∀ t, Orderly L (k t) Q held log
  | .draw k, Q, held, log => ∀ u, Orderly L (k u) Q held log
  | .lock r k, Q, held, log => Asks L held r ∧ Orderly L k Q (held ++ [r]) log
  | .stmt q k, Q, held, log => ∀ d, L.ok d → ∀ t b ws, q (replay d log) t = .ok (b, ws) →
      (∀ r ∈ ws.flatMap (Dbms.locks D), Asks L held r) ∧
        Orderly L (k b) Q (held ++ ws.flatMap (Dbms.locks D)) (log ++ ws)
  | .commit k, Q, _, _ => Orderly L k Q [] []

/-- **Sequence rule.** -/
theorem orderly_bind (p : Prog D W R ε α) (f : α → Prog D W R ε β)
    (Q : β → List R → List W → Prop) :
    Orderly L (p >>= f) Q = Orderly L p fun a => Orderly L (f a) Q := by
  show Orderly L (p.bind f) Q = _
  induction p with
  | ret a => rfl
  | fail e => rfl
  | now k ih => funext held log; simp only [Prog.bind, Orderly, ih]
  | draw k ih => funext held log; simp only [Prog.bind, Orderly, ih]
  | lock r k ih => funext held log; simp only [Prog.bind, Orderly, ih]
  | stmt q k ih => funext held log; simp only [Prog.bind, Orderly, ih]
  | commit k ih => funext held log; simp only [Prog.bind, Orderly, ih]

/-- `L'` orders some of the locks of `L`, as `L` does. -/
structure Coarser (L : LockOrder D R κ) (L' : LockOrder D R κ') : Prop where
  ok : ∀ d, L'.ok d → L.ok d
  blocking : ∀ r, L'.blocking r → L.blocking r
  rank : ∀ r r', L'.blocking r → L'.blocking r' → L.rank r < L.rank r' → L'.rank r < L'.rank r'

theorem Asks.weaken (hL : Coarser L L') {held : List R} {r : R} (h : Asks L held r) :
    Asks L' held r := by
  intro hr
  rcases h (hL.blocking r hr) with hown | habove
  · exact .inl hown
  · exact .inr fun x hx hb => hL.rank x r hb hr (habove x hx (hL.blocking x hb))

/-- **Weakening**: a program that is orderly stays so for a coarser order. -/
theorem Orderly.weaken (hL : Coarser L L') {p : Prog D W R ε α} {Q : α → List R → List W → Prop}
    {held : List R} {log : List W} (h : Orderly L p Q held log) : Orderly L' p Q held log := by
  induction p generalizing held log with
  | ret a => exact h
  | fail e => trivial
  | now k ih => exact fun t => ih t (h t)
  | draw k ih => exact fun u => ih u (h u)
  | lock r k ih => exact ⟨h.1.weaken hL, ih h.2⟩
  | stmt q k ih =>
    intro d hd t b ws hq
    obtain ⟨hasks, hrest⟩ := h d (hL.ok d hd) t b ws hq
    exact ⟨fun r hr => (hasks r hr).weaken hL, ih b hrest⟩
  | commit k ih => exact ih h

/-! ## Soundness -/

/-- Every session is orderly from here on. -/
def Sys.Orderly (L : LockOrder D R κ) (s : Sys ι D W R ε α) : Prop :=
  ∀ i, ReadCommitted.Orderly L (s.sess i).prog (fun _ _ _ => True) (s.sess i).tx.held
    (s.sess i).tx.log

/-- What an orderly session asks for next, it may ask for. -/
theorem Sys.Orderly.asks {s : Sys ι D W R ε α} (hok : L.ok s.shared.db) (h : s.Orderly L) (i : ι) :
    ∀ r ∈ s.wants i, Asks L (s.sess i).tx.held r := by
  intro r hr
  have hi := h i
  unfold Sys.wants at hr
  split at hr
  · rename_i heq
    rw [heq] at hi
    rw [List.mem_singleton.mp hr]
    exact hi.1
  · rename_i heq
    rw [heq] at hi
    split at hr
    · rename_i hq
      exact (hi _ hok _ _ _ hq).1 r hr
    · cases hr
  · cases hr

section soundness

variable [DecidableEq ι] {allow : Sys.Allow ι D W R} {s₀ s s' : Sys ι D W R ε α}

/-- A session that moves to an orderly program. -/
theorem Sys.Orderly.setSess (h : s.Orderly L) {i : ι} {x : Session D W R ε α}
    (hx : ReadCommitted.Orderly L x.prog (fun _ _ _ => True) x.tx.held x.tx.log) :
    (s.setSess i x).Orderly L := by
  intro j
  by_cases hj : j = i
  · subst hj
    rw [Sys.setSess_self]
    exact hx
  · rw [Sys.setSess_ne _ _ hj]
    exact h j

/-- **Step lemma**: a step keeps every session orderly. -/
theorem Sys.Orderly.step (hok : L.ok s.shared.db) (h : s.Orderly L)
    (hstep : Sys.Step allow s s') : s'.Orderly L := by
  cases hstep with
  | abort i e => exact h.setSess trivial
  | tick t ht => exact h
  | run i u hfree hallow =>
    have hi := h i
    unfold Sys.advance
    split
    all_goals rename_i heq; rw [heq] at hi
    · exact h.setSess trivial
    · exact h.setSess trivial
    · exact h.setSess (hi _)
    · exact h.setSess (hi u)
    · refine h.setSess ?_
      simpa [Sys.txAt] using hi.2
    · -- a statement, on the database committed so far
      split
      · rename_i b ws hq
        refine h.setSess ?_
        simpa [Sys.txAt, Tx.write] using (hi _ hok _ _ _ hq).2
      · exact h.setSess trivial
    · show (s.setSess i _).Orderly L
      exact h.setSess hi

/-- **Run lemma**: sessions that are orderly stay so. -/
theorem Sys.Orderly.reachable (hok : ∀ s, Sys.Reachable allow s₀ s → L.ok s.shared.db)
    (h : s₀.Orderly L) (hr : Sys.Reachable allow s₀ s) : s.Orderly L := by
  induction hr with
  | init => exact h
  | step hr hstep ih => exact ih.step (hok _ hr) hstep

/-- **Soundness**: sessions whose programs are orderly for the databases their
    runs can commit never deadlock. -/
theorem Verified.no_deadlock {rg : RG ι D W R} (hs : rg.Sound) (hv : Verified rg s₀)
    (h : s₀.Orderly L) (hok : ∀ s, Sys.Reachable rg.allow s₀ s → L.ok s.shared.db)
    (hr : Sys.Reachable rg.allow s₀ s) : ¬ s.Deadlock L.blocking :=
  not_deadlock_of_asks (hv.reachable hs hr).1.locks ((h.reachable hok hr).asks (hok _ hr))

end soundness

end ReadCommitted
