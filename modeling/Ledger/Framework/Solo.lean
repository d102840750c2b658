import Ledger.Framework.Trace

/-! # Total Runs Alone on the Database

    The rules of `wp` say what holds if a program gets to its end.  A client
    alone on the database always gets to one, so its end can be computed.

    * **Run**: `Prog.run`, a solo run that hands over at its end: the value,
      the node it stopped at and the open transaction.
    * **Sequence**: `run_bind`, and `solo_eq_run`, what is left of a run when
      the session closes.
    * **Admission**: `Admitted` of a list of writes, one write at a time.
-/

namespace ReadCommitted

variable {D W R ε α β : Type} [Dbms D W R]

/-- The client alone on the database, to its return or its error. -/
def Prog.run (env : Env) :
    Prog D W R ε α → Nat → D → Tx W R → Except ε (α × Nat × Tx W R) × D
  | .ret a, n, d, tx => (.ok (a, n, tx), d)
  | .fail e, _, d, _ => (.error e, d)
  | .now k, n, d, tx => run env (k (env.clock n)) (n + 1) d tx
  | .draw k, n, d, tx => run env (k (env.ident n)) (n + 1) d tx
  | .lock r k, n, d, tx => run env k (n + 1) d ((tx.openAt (env.clock n) 0).hold [r])
  | .stmt q k, n, d, tx =>
    match q (replay d tx.log) (tx.openAt (env.clock n) 0).now with
    | .error e => (.error e, d)
    | .ok (b, ws) => run env (k b) (n + 1) d (Tx.write (D := D) (tx.openAt (env.clock n) 0) ws)
  | .commit k, n, d, tx => run env k (n + 1) (replay d tx.log) {}

variable {env : Env}

/-- A sequence whose first part returns goes on from there. -/
theorem Prog.run_bind_ok {p : Prog D W R ε α} {f : α → Prog D W R ε β} {n n' : Nat} {d d' : D}
    {tx tx' : Tx W R} {a : α} (h : p.run env n d tx = (.ok (a, n', tx'), d')) :
    (p >>= f).run env n d tx = (f a).run env n' d' tx' := by
  show (p.bind f).run env n d tx = _
  induction p generalizing n d tx with
  | ret b =>
    simp only [run, Prod.mk.injEq, Except.ok.injEq] at h
    obtain ⟨⟨rfl, rfl, rfl⟩, rfl⟩ := h
    rfl
  | fail e => simp [run] at h
  | now k ih => exact ih _ h
  | draw k ih => exact ih _ h
  | lock r k ih => exact ih h
  | commit k ih => exact ih h
  | stmt q k ih =>
    simp only [run, bind] at h ⊢
    cases hq : q (replay d tx.log) (tx.openAt (env.clock n) 0).now with
    | error e => simp [hq] at h
    | ok r =>
      simp only [hq] at h ⊢
      exact ih _ h

/-- A sequence whose first part raises raises. -/
theorem Prog.run_bind_error {p : Prog D W R ε α} {f : α → Prog D W R ε β} {n : Nat} {d d' : D}
    {tx : Tx W R} {e : ε} (h : p.run env n d tx = (.error e, d')) :
    (p >>= f).run env n d tx = (.error e, d') := by
  show (p.bind f).run env n d tx = _
  induction p generalizing n d tx with
  | ret b => simp [run] at h
  | fail e' =>
    simp only [run, Prod.mk.injEq, Except.error.injEq] at h
    obtain ⟨rfl, rfl⟩ := h
    rfl
  | now k ih => exact ih _ h
  | draw k ih => exact ih _ h
  | lock r k ih => exact ih h
  | commit k ih => exact ih h
  | stmt q k ih =>
    simp only [run, bind] at h ⊢
    cases hq : q (replay d tx.log) (tx.openAt (env.clock n) 0).now with
    | error e' => simpa [hq] using h
    | ok r =>
      simp only [hq] at h ⊢
      exact ih _ h

/-- The session that closes after the run leaves the value and the database. -/
theorem Prog.solo_eq_run (p : Prog D W R ε α) (n : Nat) (d : D) (tx : Tx W R) :
    p.solo env n d tx = ((p.run env n d tx).1.map Prod.fst, (p.run env n d tx).2) := by
  induction p generalizing n d tx with
  | ret a => rfl
  | fail e => rfl
  | now k ih => exact ih _ _ _ _
  | draw k ih => exact ih _ _ _ _
  | lock r k ih => exact ih _ _ _
  | commit k ih => exact ih _ _ _
  | stmt q k ih =>
    simp only [solo, run]
    cases q (replay d tx.log) (tx.openAt (env.clock n) 0).now with
    | error e => rfl
    | ok r => exact ih _ _ _ _

/-! ## Admission -/

theorem admitted_nil (d : D) : Admitted d ([] : List W) :=
  fun _ _ _ h => by simp at h

theorem admitted_cons {d : D} {w : W} {ws : List W} :
    Admitted d (w :: ws) ↔ Dbms.admits d w ∧ Admitted (Dbms.apply d w) ws := by
  refine ⟨fun h => ⟨h.head, h.tail⟩, ?_⟩
  rintro ⟨hhead, htail⟩ pre v post heq
  cases pre with
  | nil =>
    simp only [List.nil_append, List.cons.injEq] at heq
    obtain ⟨rfl, -⟩ := heq
    exact hhead
  | cons x pre =>
    simp only [List.cons_append, List.cons.injEq] at heq
    obtain ⟨rfl, heq⟩ := heq
    exact htail pre v post heq

theorem admitted_append {d : D} {ws vs : List W} :
    Admitted d (ws ++ vs) ↔ Admitted d ws ∧ Admitted (replay d ws) vs := by
  induction ws generalizing d with
  | nil => simp [admitted_nil]
  | cons w ws ih => rw [List.cons_append, admitted_cons, admitted_cons, ih, replay_cons, and_assoc]

end ReadCommitted
