import Ledger.Framework.Deadlock
import Mathlib.Data.DFinsupp.WellFounded
import Mathlib.SetTheory.Ordinal.Basic

/-! # Runs that End

    Finitely many sessions that nobody kills: each move takes one of them
    further down its program, so they cannot move forever, and where none of
    them can move any more they have ended or wait for one another in a circle.

    * **Moves**: `Sys.Moves`, a session that has not ended and does not have to
      wait takes its next step; `Sys.Rests`, nobody can.
    * **Rest**: `Sys.Rests.ended_or_deadlock`, then all sessions have ended or
      some wait in a circle.
    * **Descent**: `Session.After`, what a move does to a session; a run of
      moves ends (`Sys.moves_wellFounded`).
-/

namespace ReadCommitted

variable {ι D W R ε α : Type}

/-! ## Programs -/

/-- `Next p' p`: the program `p` can go on as `p'`. -/
inductive Prog.Next : Prog D W R ε α → Prog D W R ε α → Prop where
  | now (k : Time → Prog D W R ε α) (t : Time) : Next (k t) (.now k)
  | draw (k : Nat → Prog D W R ε α) (u : Nat) : Next (k u) (.draw k)
  | lock (r : R) (k : Prog D W R ε α) : Next k (.lock r k)
  | stmt {β : Type} (q : D → Time → Except ε (β × List W)) (k : β → Prog D W R ε α) (b : β) :
      Next (k b) (.stmt q k)
  /-- The database rejects the statement. -/
  | reject {β : Type} (q : D → Time → Except ε (β × List W)) (k : β → Prog D W R ε α) (e : ε) :
      Next (.fail e) (.stmt q k)
  | commit (k : Prog D W R ε α) : Next k (.commit k)

/-- A program cannot go on forever. -/
theorem Prog.next_wellFounded : WellFounded (@Prog.Next D W R ε α) := by
  have hfail : ∀ e : ε, Acc (@Prog.Next D W R ε α) (.fail e) := by
    intro e
    exact ⟨_, fun p' h => by cases h⟩
  constructor
  intro p
  induction p with
  | ret a => exact ⟨_, fun p' h => by cases h⟩
  | fail e => exact hfail e
  | now k ih => exact ⟨_, fun p' h => by cases h with | now _ t => exact ih t⟩
  | draw k ih => exact ⟨_, fun p' h => by cases h with | draw _ u => exact ih u⟩
  | lock r k ih => exact ⟨_, fun p' h => by cases h; exact ih⟩
  | stmt q k ih =>
    refine ⟨_, fun p' h => ?_⟩
    cases h with
    | stmt _ _ b => exact ih b
    | reject _ _ e => exact hfail e
  | commit k ih => exact ⟨_, fun p' h => by cases h; exact ih⟩

/-! ## Sessions -/

/-- `After x' x`: the session went on with its program, or closed its
    transaction at the end. -/
def Session.After (x' x : Session D W R ε α) : Prop :=
  Prog.Next x'.prog x.prog ∨ x'.prog = x.prog ∧ x'.tx = {} ∧ x.tx ≠ {}

theorem Session.after_wellFounded : WellFounded (@Session.After D W R ε α) := by
  constructor
  rintro ⟨p, tx⟩
  induction p using Prog.next_wellFounded.induction generalizing tx with
  | _ p ih =>
    have hclosed : Acc (@Session.After D W R ε α) ⟨p, {}⟩ := by
      constructor
      rintro ⟨p', tx'⟩ (hnext | ⟨-, -, hopen⟩)
      · exact ih p' hnext tx'
      · exact absurd rfl hopen
    constructor
    rintro ⟨p', tx'⟩ (hnext | ⟨rfl, rfl, -⟩)
    · exact ih p' hnext tx'
    · exact hclosed

/-! ## Circles -/

/-- In a finite set where everyone waits for another of them there is a circle. -/
theorem circle_of_forall_waits [Finite ι] {S : ι → Prop} {r : ι → ι → Prop} {i : ι} (hi : S i)
    (h : ∀ i, S i → ∃ j, S j ∧ r i j) : ∃ i, Relation.TransGen r i i := by
  by_contra hcircle
  have : IsTrans ι (Function.swap (Relation.TransGen r)) :=
    ⟨fun a b c hba hcb => hcb.trans hba⟩
  have : Std.Irrefl (Function.swap (Relation.TransGen r)) :=
    ⟨fun a ha => hcircle ⟨a, ha⟩⟩
  have hwf := Finite.wellFounded_of_trans_of_irrefl (Function.swap (Relation.TransGen r))
  induction i using hwf.induction with
  | _ i ih =>
    obtain ⟨j, hj, hij⟩ := h i hi
    exact ih j (.single hij) hj

/-! ## Waiting -/

namespace Sys

/-- The session has returned or raised, and its transaction is closed. -/
def Ended (s : Sys ι D W R ε α) (i : ι) : Prop := s.Finished i ∧ (s.sess i).tx = {}

variable [Dbms D W R]

/-- A session that has to wait waits for one that has not ended. -/
theorem waits_of_not_free {s : Sys ι D W R ε α} {i : ι} (h : ¬ s.free i) :
    ∃ j, ¬ s.Ended j ∧ s.WaitsFor (fun _ => True) i j := by
  unfold free at h
  push Not at h
  obtain ⟨j, hji, r, hr, hheld⟩ := h
  refine ⟨j, ?_, hji.symm, r, hr, trivial, hheld⟩
  rintro ⟨-, htx⟩
  rw [htx] at hheld
  cases hheld

/-- Where nobody waits for a lock out of question, there is a circle only if
    there is one for the locks in question. -/
theorem Deadlock.narrow {s : Sys ι D W R ε α} {blocking : R → Prop}
    (h : s.Deadlock fun _ => True) :
    s.Deadlock blocking ∨ ∃ i j, s.WaitsFor (fun r => ¬ blocking r) i j := by
  by_cases hother : ∃ i j, s.WaitsFor (fun r => ¬ blocking r) i j
  · exact .inr hother
  · obtain ⟨i, hcircle⟩ := h
    have hwaits : s.WaitsFor (fun _ => True) ≤ s.WaitsFor blocking := by
      rintro a b ⟨hab, r, hr, -, hheld⟩
      by_cases hb : blocking r
      · exact ⟨hab, r, hr, hb, hheld⟩
      · exact absurd ⟨a, b, hab, r, hr, hb, hheld⟩ hother
    exact .inl ⟨i, Relation.TransGen.mono hwaits i i hcircle⟩

/-! ## Moves -/

variable [DecidableEq ι]

/-- A session that has not ended and does not have to wait takes its next step. -/
def Moves (s s' : Sys ι D W R ε α) : Prop :=
  ∃ i u, ¬ s.Ended i ∧ s.free i ∧ s' = s.advance i u

/-- Nobody can move. -/
def Rests (s : Sys ι D W R ε α) : Prop := ∀ s', ¬ s.Moves s'

/-- **At rest** all sessions have ended, or some wait in a circle. -/
theorem Rests.ended_or_deadlock [Finite ι] {s : Sys ι D W R ε α} (h : s.Rests) :
    (∀ i, s.Ended i) ∨ s.Deadlock fun _ => True := by
  by_cases hall : ∀ i, s.Ended i
  · exact .inl hall
  · push Not at hall
    obtain ⟨i, hi⟩ := hall
    refine .inr (circle_of_forall_waits (S := fun i => ¬ s.Ended i) hi fun i hi => ?_)
    exact waits_of_not_free fun hfree => h _ ⟨i, 0, hi, hfree, rfl⟩

theorem Reachable.moves {s₀ s s' : Sys ι D W R ε α} (h : Reachable all s₀ s)
    (hmoves : Relation.ReflTransGen Moves s s') : Reachable all s₀ s' := by
  induction hmoves with
  | refl => exact h
  | tail _ hmove ih =>
    obtain ⟨i, u, -, hfree, rfl⟩ := hmove
    exact ih.step (.run _ i u hfree fun _ => trivial)

/-- **Descent**: a move takes the session further. -/
theorem advance_after {s : Sys ι D W R ε α} {i : ι} (h : ¬ s.Ended i) (u : Nat) :
    Session.After ((s.advance i u).sess i) (s.sess i) := by
  have hopen : s.Finished i → (s.sess i).tx ≠ {} := fun hf htx => h ⟨hf, htx⟩
  unfold advance
  split
  · rename_i a heq
    rw [setSess_self]
    exact .inr ⟨heq.symm, rfl, hopen (.inl ⟨a, heq⟩)⟩
  · rename_i e heq
    rw [setSess_self]
    exact .inr ⟨heq.symm, rfl, hopen (.inr ⟨e, heq⟩)⟩
  · rename_i k heq
    rw [setSess_self]
    exact .inl (heq ▸ .now k _)
  · rename_i k heq
    rw [setSess_self]
    exact .inl (heq ▸ .draw k u)
  · rename_i r k heq
    rw [setSess_self]
    exact .inl (heq ▸ .lock r k)
  · rename_i q k heq
    split
    · rw [setSess_self]
      exact .inl (heq ▸ .stmt q k _)
    · rw [setSess_self]
      exact .inl (heq ▸ .reject q k _)
  · rename_i k heq
    show Session.After ((s.setSess i _).sess i) _
    rw [setSess_self]
    exact .inl (heq ▸ .commit k)

/-- **A run ends**: finitely many sessions cannot move forever. -/
theorem moves_wellFounded [Finite ι] :
    WellFounded fun s' s : Sys ι D W R ε α => s.Moves s' := by
  -- any order of the sessions serves, as a move changes one of them only
  have hlex := Pi.Lex.wellFounded (WellOrderingRel (α := ι)) fun _ =>
    Session.after_wellFounded (D := D) (W := W) (R := R) (ε := ε) (α := α)
  refine Subrelation.wf ?_ (InvImage.wf Sys.sess hlex)
  rintro s' s ⟨i, u, hended, -, rfl⟩
  refine ⟨i, fun j hj => s.advance_ne ?_ u, advance_after hended u⟩
  rintro rfl
  exact irrefl j hj

end Sys

end ReadCommitted
