import Ledger.Framework.Prog
import Mathlib.Data.Fintype.Basic
import Mathlib.Data.List.Basic

/-! # Interleaving under READ COMMITTED

    Any number of sessions run their programs on one database.

    * A statement sees the database committed so far, then the session's own
      writes, and is a step of its own.
    * A statement that needs a lock another open transaction keeps does not
      run until that transaction ends.
    * A commit publishes the transaction's writes at once and is appended to
      the commit log; a rollback, possible at any point, drops them.
    * The clock never goes back.

    `Step` is the transition relation.  Its parameter `allow` narrows the
    commits taken into account; `fun _ _ _ => True` leaves all of them.
-/

namespace ReadCommitted

/-! ## State -/

/-- One committed transaction. -/
structure Entry (ι W : Type) where
  /-- The session that committed. -/
  who : ι
  /-- The reading of the clock at the commit. -/
  time : Time
  /-- The writes it published. -/
  writes : List W

/-- What all sessions share. -/
structure Shared (ι D W : Type) where
  /-- The committed database. -/
  db : D
  /-- The clock. -/
  clock : Time
  /-- The commits so far, oldest first. -/
  wal : List (Entry ι W) := []

/-- One session: what it still has to run and its open transaction. -/
structure Session (D W R ε α : Type) where
  prog : Prog D W R ε α
  tx : Tx W R := {}

/-- The database and its sessions. -/
structure Sys (ι D W R ε α : Type) where
  shared : Shared ι D W
  sess : ι → Session D W R ε α

/-- Publish a transaction. -/
def Shared.commit {ι D W R : Type} [Dbms D W R] (g : Shared ι D W) (i : ι) (tx : Tx W R) :
    Shared ι D W :=
  { g with db := replay g.db tx.log, wal := g.wal ++ [⟨i, g.clock, tx.log⟩] }

namespace Sys

variable {ι D W R ε α : Type} [DecidableEq ι]

/-- Replace one session. -/
def setSess (s : Sys ι D W R ε α) (i : ι) (x : Session D W R ε α) : Sys ι D W R ε α :=
  { s with sess := fun j => if j = i then x else s.sess j }

@[simp] theorem setSess_shared (s : Sys ι D W R ε α) (i : ι) (x : Session D W R ε α) :
    (s.setSess i x).shared = s.shared := rfl

@[simp] theorem setSess_self (s : Sys ι D W R ε α) (i : ι) (x : Session D W R ε α) :
    (s.setSess i x).sess i = x := by
  simp [setSess]

@[simp] theorem setSess_ne (s : Sys ι D W R ε α) {i j : ι} (x : Session D W R ε α) (h : j ≠ i) :
    (s.setSess i x).sess j = s.sess j := by
  simp [setSess, h]

/-- The transaction of a session as its next statement finds it. -/
def txAt (s : Sys ι D W R ε α) (i : ι) : Tx W R :=
  (s.sess i).tx.openAt s.shared.clock s.shared.wal.length

variable [Dbms D W R]

/-! ## Steps -/

/-- The database as a session sees it. -/
def view (s : Sys ι D W R ε α) (i : ι) : D := replay s.shared.db (s.sess i).tx.log

/-- The locks the next statement of a session waits for. -/
def wants (s : Sys ι D W R ε α) (i : ι) : List R :=
  match (s.sess i).prog with
  | .lock r _ => [r]
  | .stmt q _ =>
    match q (s.view i) (s.txAt i).now with
    | .ok (_, ws) => ws.flatMap (Dbms.locks D)
    | .error _ => []
  | _ => []

/-- No other open transaction keeps a lock the session waits for. -/
def free (s : Sys ι D W R ε α) (i : ι) : Prop :=
  ∀ j, j ≠ i → ∀ r ∈ s.wants i, r ∉ (s.sess j).tx.held

/-- The next step of a session that does not have to wait; `u` is the
    identifier it gets if it draws one. -/
def advance (s : Sys ι D W R ε α) (i : ι) (u : Nat) : Sys ι D W R ε α :=
  match (s.sess i).prog with
  | .ret a => s.setSess i ⟨.ret a, {}⟩
  | .fail e => s.setSess i ⟨.fail e, {}⟩
  | .now k => s.setSess i ⟨k s.shared.clock, (s.sess i).tx⟩
  | .draw k => s.setSess i ⟨k u, (s.sess i).tx⟩
  | .lock r k => s.setSess i ⟨k, (s.txAt i).hold [r]⟩
  | .stmt q k =>
    match q (s.view i) (s.txAt i).now with
    | .ok (b, ws) => s.setSess i ⟨k b, Tx.write (D := D) (s.txAt i) ws⟩
    | .error e => s.setSess i ⟨.fail e, s.txAt i⟩
  | .commit k =>
    { s.setSess i ⟨k, {}⟩ with shared := s.shared.commit i (s.sess i).tx }

/-- The session is about to commit. -/
def committing (s : Sys ι D W R ε α) (i : ι) : Bool :=
  match (s.sess i).prog with
  | .commit _ => true
  | _ => false

/-- Which commits are taken into account. -/
abbrev Allow (ι D W R : Type) : Type := ι → Tx W R → Shared ι D W → Prop

/-- One step of the system. -/
inductive Step (allow : Allow ι D W R) : Sys ι D W R ε α → Sys ι D W R ε α → Prop where
  /-- A session takes its next step. -/
  | run (s : Sys ι D W R ε α) (i : ι) (u : Nat) (hfree : s.free i)
      (hallow : s.committing i = true → allow i (s.sess i).tx s.shared) :
      Step allow s (s.advance i u)
  /-- A session dies; its transaction rolls back. -/
  | abort (s : Sys ι D W R ε α) (i : ι) (e : ε) : Step allow s (s.setSess i ⟨.fail e, {}⟩)
  /-- Time passes. -/
  | tick (s : Sys ι D W R ε α) (t : Time) (ht : s.shared.clock ≤ t) :
      Step allow s { s with shared := { s.shared with clock := t } }

/-- The states a run from `s₀` can reach. -/
inductive Reachable (allow : Allow ι D W R) (s₀ : Sys ι D W R ε α) : Sys ι D W R ε α → Prop where
  | init : Reachable allow s₀ s₀
  | step {s s' : Sys ι D W R ε α} : Reachable allow s₀ s → Step allow s s' → Reachable allow s₀ s'

/-- No narrowing. -/
def all : Allow ι D W R := fun _ _ _ => True

/-- Every session is still to start, and there is no commit yet. -/
def Initial (s : Sys ι D W R ε α) : Prop := s.shared.wal = [] ∧ ∀ i, (s.sess i).tx = {}

/-! ## One Move -/

/-- The other sessions stay where they are. -/
theorem advance_ne (s : Sys ι D W R ε α) {i j : ι} (h : j ≠ i) (u : Nat) :
    (s.advance i u).sess j = s.sess j := by
  unfold advance
  split
  case h_7 =>
    show (s.setSess i _).sess j = s.sess j
    exact setSess_ne s _ h
  case h_6 => split <;> exact setSess_ne s _ h
  all_goals exact setSess_ne s _ h

/-- The shared state does not change, unless the move is a commit. -/
theorem advance_shared (s : Sys ι D W R ε α) (i : ι) (u : Nat) :
    (s.advance i u).shared = s.shared ∨ s.committing i = true ∧
      (s.advance i u).shared = s.shared.commit i (s.sess i).tx := by
  unfold advance
  split
  case h_7 k heq => exact .inr ⟨by simp [committing, heq], rfl⟩
  case h_6 => split <;> exact .inl rfl
  all_goals exact .inl rfl

/-- A move keeps no lock but the ones it waited for. -/
theorem held_advance (s : Sys ι D W R ε α) (i : ι) (u : Nat) :
    ((s.advance i u).sess i).tx.held ⊆ (s.sess i).tx.held ++ s.wants i := by
  unfold advance
  split
  case h_5 r k heq => simp [txAt, wants, heq]
  case h_6 q k heq =>
    split
    · rename_i b ws hq
      have hwants : s.wants i = ws.flatMap (Dbms.locks D) := by simp [wants, heq, hq]
      rw [setSess_self, hwants]
      show (s.txAt i).held ++ _ ⊆ _
      rw [txAt, Tx.openAt_held]
      exact List.Subset.refl _
    · simp [txAt]
  all_goals simp

/-! ## Finished Sessions -/

/-- The program has returned or raised. -/
def Finished (s : Sys ι D W R ε α) (i : ι) : Prop :=
  (∃ a, (s.sess i).prog = .ret a) ∨ ∃ e, (s.sess i).prog = .fail e

/-- A finished session stays finished and commits nothing more. -/
theorem Finished.step {allow : Allow ι D W R} {s s' : Sys ι D W R ε α} {i : ι} (h : s.Finished i)
    (hstep : Step allow s s') :
    s'.Finished i ∧ ∃ es, s'.shared.wal = s.shared.wal ++ es ∧ ∀ e ∈ es, e.who ≠ i := by
  cases hstep with
  | abort j e =>
    refine ⟨?_, [], by simp, by simp⟩
    by_cases hj : j = i
    · subst hj
      exact .inr ⟨e, by simp⟩
    · rw [Finished, setSess_ne _ _ fun heq => hj heq.symm]
      exact h
  | tick t ht => exact ⟨h, [], by simp, by simp⟩
  | run j u hfree hallow =>
    by_cases hj : j = i
    · subst hj
      rcases h with ⟨a, ha⟩ | ⟨e, he⟩
      · refine ⟨.inl ⟨a, by simp [advance, ha]⟩, [], by simp [advance, ha], by simp⟩
      · refine ⟨.inr ⟨e, by simp [advance, he]⟩, [], by simp [advance, he], by simp⟩
    · rw [Finished, s.advance_ne fun heq => hj heq.symm]
      refine ⟨h, ?_⟩
      rcases s.advance_shared j u with hsame | ⟨-, hcommit⟩
      · exact ⟨[], by simp [hsame], by simp⟩
      · exact ⟨[⟨j, s.shared.clock, (s.sess j).tx.log⟩], by rw [hcommit]; rfl, by simpa using hj⟩

theorem Finished.reachable {allow : Allow ι D W R} {s s' : Sys ι D W R ε α} {i : ι}
    (h : s.Finished i) (hr : Reachable allow s s') :
    s'.Finished i ∧ ∃ es, s'.shared.wal = s.shared.wal ++ es ∧ ∀ e ∈ es, e.who ≠ i := by
  induction hr with
  | init => exact ⟨h, [], by simp, by simp⟩
  | step _ hstep ih =>
    obtain ⟨hfin, es, hwal, hes⟩ := ih
    obtain ⟨hfin', fs, hwal', hfs⟩ := hfin.step hstep
    refine ⟨hfin', es ++ fs, by rw [hwal', hwal, List.append_assoc], fun e he => ?_⟩
    exact (List.mem_append.mp he).elim (hes e) (hfs e)

/-! ## Schedules

    A schedule names the session that moves; running it computes the state,
    so that a concrete interleaving can be evaluated. -/

/-- One entry of a schedule. -/
inductive Move (ι : Type) where
  | run (i : ι)
  | draw (i : ι) (u : Nat)
  | tick (t : Time)

variable [Fintype ι] [DecidableEq R]

instance (s : Sys ι D W R ε α) (i : ι) : Decidable (s.free i) := by
  unfold free; infer_instance

/-- The state after a schedule; `none` when a move is not possible, or a
    session moves where `check` does not let it. -/
def exec (check : Sys ι D W R ε α → ι → Bool) (s : Sys ι D W R ε α) :
    List (Move ι) → Option (Sys ι D W R ε α)
  | [] => some s
  | .run i :: ms => if s.free i ∧ check s i then exec check (s.advance i 0) ms else none
  | .draw i u :: ms => if s.free i ∧ check s i then exec check (s.advance i u) ms else none
  | .tick t :: ms =>
    if s.shared.clock ≤ t then exec check { s with shared := { s.shared with clock := t } } ms
    else none

/-- The moves of one session alone, drawing consecutive identifiers. -/
def turns (i : ι) (first count : Nat) : List (Move ι) :=
  (List.range count).map fun n => .draw i (first + n)

theorem Reachable.exec {allow : Allow ι D W R} {check : Sys ι D W R ε α → ι → Bool}
    (hcheck : ∀ s i, check s i = true → s.committing i = true → allow i (s.sess i).tx s.shared)
    {s₀ s s' : Sys ι D W R ε α} {ms : List (Move ι)} (h : Reachable allow s₀ s)
    (he : s.exec check ms = some s') : Reachable allow s₀ s' := by
  induction ms generalizing s with
  | nil =>
    cases he
    exact h
  | cons m ms ih =>
    cases m with
    | run i =>
      simp only [Sys.exec] at he
      split at he
      · rename_i hm
        exact ih (h.step (.run s i 0 hm.1 (hcheck s i hm.2))) he
      · cases he
    | draw i u =>
      simp only [Sys.exec] at he
      split at he
      · rename_i hm
        exact ih (h.step (.run s i u hm.1 (hcheck s i hm.2))) he
      · cases he
    | tick t =>
      simp only [Sys.exec] at he
      split at he
      · rename_i ht
        exact ih (h.step (.tick s t ht)) he
      · cases he

/-- A schedule that runs to a state with a property. -/
theorem Reachable.of_exec {s : Sys ι D W R ε α} (ms : List (Move ι)) (p : Sys ι D W R ε α → Bool)
    (h : (s.exec (fun _ _ => true) ms).map p = some true) :
    ∃ s', Reachable all s s' ∧ p s' = true := by
  cases he : s.exec (fun _ _ => true) ms with
  | none => simp [he] at h
  | some s' =>
    simp only [he, Option.map_some, Option.some.injEq] at h
    exact ⟨s', Reachable.init.exec (fun _ _ _ _ => trivial) he, h⟩

/-- What a session has returned. -/
def returned (s : Sys ι D W R ε α) (i : ι) : Option α :=
  match (s.sess i).prog with
  | .ret a => some a
  | _ => none

omit [DecidableEq ι] [Dbms D W R] [Fintype ι] [DecidableEq R] in
theorem prog_of_returned {s : Sys ι D W R ε α} {i : ι} {a : α} (h : s.returned i = some a) :
    (s.sess i).prog = .ret a := by
  unfold returned at h
  split at h
  · cases h
    assumption
  · cases h

/-- No other commit has been made since the session's transaction began. -/
def quiet (s : Sys ι D W R ε α) (i : ι) : Bool := (s.shared.wal.drop (s.sess i).tx.began).isEmpty

/-- A schedule without interference that runs to a state with a property. -/
theorem Reachable.of_quiet_exec {allow : Allow ι D W R}
    (hallow : ∀ i tx g, g.wal.drop tx.began = [] → allow i tx g) {s : Sys ι D W R ε α}
    (ms : List (Move ι)) (p : Sys ι D W R ε α → Bool)
    (h : (s.exec (fun s i => !s.committing i || s.quiet i) ms).map p = some true) :
    ∃ s', Reachable allow s s' ∧ p s' = true := by
  cases he : s.exec (fun s i => !s.committing i || s.quiet i) ms with
  | none => simp [he] at h
  | some s' =>
    simp only [he, Option.map_some, Option.some.injEq] at h
    refine ⟨s', Reachable.init.exec (fun s i hm hc => hallow _ _ _ ?_) he, h⟩
    simpa [hc, quiet] using hm

end Sys

end ReadCommitted
