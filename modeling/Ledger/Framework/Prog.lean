import Mathlib.Logic.Basic

/-! # Transaction Programs

    A database client as a tree of statements.  A node sends one statement
    and its continuation takes the answer; nothing happens between two nodes,
    so a node is the unit at which clients interleave.

    * **Syntax**: `Prog` and its monad, so that a client is written with `do`.
    * **Transaction**: `Tx`, the statements of the open transaction that have
      been executed and are not committed yet, and the locks they keep.
    * **Solo run**: `Prog.solo`, the client alone on the database, and
      `Prog.starts`, the `now()` of its transactions.
-/

namespace ReadCommitted

/-- An instant, in microseconds. -/
abbrev Time := Int

/-- A database seen from outside: a statement makes a write only if the
    constraints allow it, the write changes the database at commit, and it
    keeps some locks from its statement until the transaction ends. -/
class Dbms (D : Type) (W R : outParam Type) where
  /-- The effect of one write. -/
  apply : D → W → D
  /-- The locks the statement making the write waits for and then keeps. -/
  locks : W → List R
  /-- The constraints of the database let the write through. -/
  admits : D → W → Prop

/-! ## Syntax -/

/-- A client program over databases `D`, writes `W` and locks `R`, raising
    errors `ε` and returning `α`. -/
inductive Prog (D W R ε : Type) (α : Type) : Type 1 where
  /-- Return: the session closes and drops what is not committed. -/
  | ret (a : α)
  /-- Raise: the session rolls back. -/
  | fail (e : ε)
  /-- Read the clock of the application. -/
  | now (k : Time → Prog D W R ε α)
  /-- Draw an identifier; nothing is assumed about which one. -/
  | draw (k : Nat → Prog D W R ε α)
  /-- Wait for a lock and keep it until the transaction ends. -/
  | lock (r : R) (k : Prog D W R ε α)
  /-- One statement.  It sees the committed rows, the transaction's own
      writes and the transaction's `now()`; it answers and writes, or the
      database rejects it. -/
  | stmt {β : Type} (q : D → Time → Except ε (β × List W)) (k : β → Prog D W R ε α)
  /-- Commit the open transaction. -/
  | commit (k : Prog D W R ε α)

namespace Prog

variable {D W R ε α β : Type}

/-- Sequencing. -/
def bind : Prog D W R ε α → (α → Prog D W R ε β) → Prog D W R ε β
  | .ret a, f => f a
  | .fail e, _ => .fail e
  | .now k, f => .now fun t => bind (k t) f
  | .draw k, f => .draw fun u => bind (k u) f
  | .lock r k, f => .lock r (bind k f)
  | .stmt q k, f => .stmt q fun b => bind (k b) f
  | .commit k, f => .commit (bind k f)

instance : Monad (Prog D W R ε) where
  pure := .ret
  bind := .bind

/-- A `SELECT`: it writes nothing and is never rejected. -/
def select {β : Type} (q : D → Time → β) : Prog D W R ε β :=
  .stmt (fun d t => .ok (q d t, [])) .ret

/-- A statement that writes. -/
def write {β : Type} (q : D → Except ε (β × List W)) : Prog D W R ε β :=
  .stmt (fun d _ => q d) .ret

end Prog

/-! ## Open Transactions -/

/-- The open transaction of a session. -/
structure Tx (W R : Type) where
  /-- The writes of the executed statements, oldest first. -/
  log : List W := []
  /-- The locks kept until the end of the transaction. -/
  held : List R := []
  /-- The transaction's `now()`: when its first statement ran. -/
  start : Option Time := none
  /-- How many commits the database had seen when the first statement ran. -/
  began : Nat := 0

namespace Tx

variable {D W R : Type}

/-- The first statement of a transaction opens it. -/
def openAt (tx : Tx W R) (clock : Time) (commits : Nat) : Tx W R :=
  match tx.start with
  | some _ => tx
  | none => { tx with start := some clock, began := commits }

/-- The transaction's `now()`. -/
def now (tx : Tx W R) : Time := tx.start.getD 0

/-- Keep more locks. -/
def hold (tx : Tx W R) (rs : List R) : Tx W R := { tx with held := tx.held ++ rs }

/-- Record the writes of a statement, with their locks. -/
def write [Dbms D W R] (tx : Tx W R) (ws : List W) : Tx W R :=
  { tx with log := tx.log ++ ws, held := tx.held ++ ws.flatMap (Dbms.locks D) }

@[simp] theorem openAt_log (tx : Tx W R) (c : Time) (n : Nat) : (tx.openAt c n).log = tx.log := by
  unfold Tx.openAt; split <;> rfl

@[simp] theorem openAt_held (tx : Tx W R) (c : Time) (n : Nat) :
    (tx.openAt c n).held = tx.held := by
  unfold Tx.openAt; split <;> rfl

theorem openAt_of_start {tx : Tx W R} {st : Time} (h : tx.start = some st) (c : Time) (n : Nat) :
    tx.openAt c n = tx := by
  unfold Tx.openAt; rw [h]

theorem isSome_openAt (tx : Tx W R) (c : Time) (n : Nat) : (tx.openAt c n).start.isSome = true := by
  unfold Tx.openAt
  cases h : tx.start <;> simp [h]

@[simp] theorem write_nil [Dbms D W R] (tx : Tx W R) : Tx.write (D := D) tx [] = tx := by
  simp [Tx.write]

@[simp] theorem hold_log (tx : Tx W R) (rs : List R) : (tx.hold rs).log = tx.log := rfl
@[simp] theorem hold_held (tx : Tx W R) (rs : List R) : (tx.hold rs).held = tx.held ++ rs := rfl
@[simp] theorem hold_start (tx : Tx W R) (rs : List R) : (tx.hold rs).start = tx.start := rfl
@[simp] theorem hold_began (tx : Tx W R) (rs : List R) : (tx.hold rs).began = tx.began := rfl

end Tx

/-- The database after a list of writes. -/
def replay {D W R : Type} [Dbms D W R] (d : D) (ws : List W) : D := ws.foldl Dbms.apply d

section replay

variable {D W R : Type} [Dbms D W R]

@[simp] theorem replay_nil (d : D) : replay d ([] : List W) = d := rfl

@[simp] theorem replay_cons (d : D) (w : W) (ws : List W) :
    replay d (w :: ws) = replay (Dbms.apply d w) ws := rfl

theorem replay_append (d : D) (ws vs : List W) :
    replay d (ws ++ vs) = replay (replay d ws) vs := by
  simp [replay, List.foldl_append]

/-- What every write keeps, a list of writes keeps. -/
theorem replay_induction {P : D → Prop} {ws : List W} (d : D) (h0 : P d)
    (hstep : ∀ d, ∀ w ∈ ws, P d → P (Dbms.apply d w)) : P (replay d ws) := by
  induction ws generalizing d with
  | nil => exact h0
  | cons w ws ih =>
    exact ih (Dbms.apply d w) (hstep d w (by simp) h0)
      (fun d' w' hw' => hstep d' w' (by simp [hw']))

end replay

/-! ## Solo Run -/

/-- What the environment answers at each node of a client that runs alone. -/
structure Env where
  /-- The reading of the clock. -/
  clock : Nat → Time
  /-- The identifier drawn. -/
  ident : Nat → Nat

/-- The instant is one of the readings of the clock. -/
def Env.Reads (env : Env) (t : Time) : Prop := ∃ n, env.clock n = t

/-- The client alone on the database.  The environment answers its `n`-th
    node; the result is what it returned or raised, and the committed
    database it leaves. -/
def Prog.solo {D W R ε α : Type} [Dbms D W R] (env : Env) :
    Prog D W R ε α → Nat → D → Tx W R → Except ε α × D
  | .ret a, _, d, _ => (.ok a, d)
  | .fail e, _, d, _ => (.error e, d)
  | .now k, n, d, tx => solo env (k (env.clock n)) (n + 1) d tx
  | .draw k, n, d, tx => solo env (k (env.ident n)) (n + 1) d tx
  | .lock r k, n, d, tx => solo env k (n + 1) d ((tx.openAt (env.clock n) 0).hold [r])
  | .stmt q k, n, d, tx =>
    match q (replay d tx.log) (tx.openAt (env.clock n) 0).now with
    | .error e => (.error e, d)
    | .ok (b, ws) => solo env (k b) (n + 1) d (Tx.write (D := D) (tx.openAt (env.clock n) 0) ws)
  | .commit k, n, d, tx => solo env k (n + 1) (replay d tx.log) {}

/-- When a statement at `clock` opens the transaction. -/
def Tx.opens {W R : Type} (tx : Tx W R) (clock : Time) : List Time :=
  match tx.start with
  | some _ => []
  | none => [clock]

theorem Tx.start_openAt {W R : Type} {tx : Tx W R} {clock t : Time} {n : Nat}
    (h : (tx.openAt clock n).start = some t) : tx.start = some t ∨ t ∈ tx.opens clock := by
  unfold Tx.openAt at h
  unfold Tx.opens
  cases hs : tx.start with
  | some u =>
    simp only [hs] at h
    exact .inl h
  | none =>
    simp only [hs, Option.some.injEq] at h
    exact .inr (by simp [h])

/-- What `now()` is in the transactions of the client alone, one after the
    other. -/
def Prog.starts {D W R ε α : Type} [Dbms D W R] (env : Env) :
    Prog D W R ε α → Nat → D → Tx W R → List Time
  | .ret _, _, _, _ => []
  | .fail _, _, _, _ => []
  | .now k, n, d, tx => starts env (k (env.clock n)) (n + 1) d tx
  | .draw k, n, d, tx => starts env (k (env.ident n)) (n + 1) d tx
  | .lock r k, n, d, tx =>
    tx.opens (env.clock n) ++ starts env k (n + 1) d ((tx.openAt (env.clock n) 0).hold [r])
  | .stmt q k, n, d, tx =>
    tx.opens (env.clock n) ++
      match q (replay d tx.log) (tx.openAt (env.clock n) 0).now with
      | .error _ => []
      | .ok (b, ws) =>
        starts env (k b) (n + 1) d (Tx.write (D := D) (tx.openAt (env.clock n) 0) ws)
  | .commit k, n, d, tx => starts env k (n + 1) (replay d tx.log) {}

theorem Tx.reads_opens {W R : Type} {env : Env} {tx : Tx W R} {n : Nat} {t : Time}
    (h : t ∈ tx.opens (env.clock n)) : env.Reads t := by
  unfold Tx.opens at h
  split at h
  · cases h
  · exact ⟨n, (List.mem_singleton.mp h).symm⟩

/-- A transaction starts at a reading of the clock. -/
theorem Prog.reads_starts {D W R ε α : Type} [Dbms D W R] {env : Env} {t : Time}
    (p : Prog D W R ε α) :
    ∀ {n : Nat} {d : D} {tx : Tx W R}, t ∈ p.starts env n d tx → env.Reads t := by
  induction p with
  | ret a => intro n d tx h; cases h
  | fail e => intro n d tx h; cases h
  | now k ih => intro n d tx h; exact ih _ h
  | draw k ih => intro n d tx h; exact ih _ h
  | lock r k ih =>
    intro n d tx h
    rw [starts, List.mem_append] at h
    exact h.elim Tx.reads_opens ih
  | stmt q k ih =>
    intro n d tx h
    rw [starts, List.mem_append] at h
    rcases h with h | h
    · exact Tx.reads_opens h
    · split at h
      · cases h
      · exact ih _ h
  | commit k ih => intro n d tx h; exact ih h

end ReadCommitted
