import Ledger.Services.Matcher

/-! # The Matcher Never Guesses

    * **Agreement**: `Line.Agrees`, what a candidate shares with a line.
    * **Verdict**: the result depends on the agreeing entries only, up to
      their order: on the only one, if there is one, else on how many.
    * **Result**: `matcher_never_guesses`.
-/

namespace Ledger

/-- What the matcher knows of a statement line. -/
structure Line where
  amount : Int
  valueDate : Int
  externalRef : String

/-- The candidate agrees with the line: on the amount, on the date up to two
    days, and on the reference, if both have one. -/
structure Line.Agrees (l : Line) (c : PostingCandidate) : Prop where
  amount : c.amount = l.amount
  date : l.valueDate - 2 ≤ c.effectiveDate ∧ c.effectiveDate ≤ l.valueDate + 2
  reference : l.externalRef = "" ∨ c.externalRef = "" ∨ c.externalRef = l.externalRef

/-- The result for the line. -/
def Line.matched (l : Line) (cs : List PostingCandidate) : MatchResult :=
  matchLine l.amount l.valueDate l.externalRef cs

namespace MatchResult

def unmatched : MatchResult := ⟨none, some .UNMATCHED⟩

def ambiguous : MatchResult := ⟨none, some .AMBIGUOUS⟩

def found (id : UUID) : MatchResult := ⟨some id, none⟩

end MatchResult

open MatchResult

namespace Line

variable {l : Line} {c c' : PostingCandidate} {cs ds : List PostingCandidate} {id : UUID}

theorem agrees_iff : l.Agrees c ↔ isHit l.amount l.valueDate l.externalRef c = true := by
  unfold isHit MATCH_WINDOW
  simp only [Bool.and_eq_true, Bool.or_eq_true, decide_eq_true_eq, abs_le, or_assoc]
  constructor
  · rintro ⟨hamount, hdate, hreference⟩
    exact ⟨⟨hamount, by omega⟩, hreference⟩
  · rintro ⟨⟨hamount, hdate⟩, hreference⟩
    exact ⟨hamount, by omega, hreference⟩

instance : DecidablePred l.Agrees := fun _ => decidable_of_iff _ agrees_iff.symm

/-- The agreeing entries of a list. -/
def hits (l : Line) (cs : List PostingCandidate) : List PostingCandidate :=
  cs.filter fun c => l.Agrees c

theorem hits_eq : l.hits cs = cs.filter (isHit l.amount l.valueDate l.externalRef) := by
  unfold hits
  apply List.filter_congr
  intro c _
  rw [Bool.eq_iff_iff, decide_eq_true_eq]
  exact agrees_iff

/-! ## Verdicts -/

/-- The line's result by its agreeing entries. -/
inductive Verdict (l : Line) (cs : List PostingCandidate) : MatchResult → Prop where
  | unmatched (h : l.hits cs = []) : Verdict l cs .unmatched
  | found (hit : PostingCandidate) (h : l.hits cs = [hit]) : Verdict l cs (.found hit.postingId)
  | ambiguous (h : 2 ≤ (l.hits cs).length) : Verdict l cs .ambiguous

/-- **Refinement**: the code's result is the verdict. -/
theorem verdict (l : Line) (cs : List PostingCandidate) : Verdict l cs (l.matched cs) := by
  unfold matched matchLine
  rw [← hits_eq]
  cases h : l.hits cs with
  | nil => exact .unmatched h
  | cons hit rest =>
    cases rest with
    | nil => exact .found hit h
    | cons second rest =>
      refine .ambiguous ?_
      rw [h]
      simp

/-- There is one verdict, and it is the same for the agreeing entries in any order. -/
theorem Verdict.unique {r r' : MatchResult} (h : Verdict l cs r) (h' : Verdict l ds r')
    (hperm : (l.hits cs).Perm (l.hits ds)) : r = r' := by
  cases h with
  | unmatched h =>
    rw [h] at hperm
    have hnone := hperm.symm.eq_nil
    cases h' with
    | unmatched => rfl
    | found hit' h' => rw [h'] at hnone; cases hnone
    | ambiguous h' => rw [hnone] at h'; simp at h'
  | found hit h =>
    rw [h] at hperm
    have hone := List.perm_singleton.mp hperm.symm
    cases h' with
    | unmatched h' => rw [h'] at hone; cases hone
    | found hit' h' =>
      rw [h', List.cons.injEq] at hone
      rw [hone.1]
    | ambiguous h' => rw [hone] at h'; simp at h'
  | ambiguous h =>
    rw [hperm.length_eq] at h
    cases h' with
    | unmatched h' => rw [h'] at h; simp at h
    | found hit' h' => rw [h'] at h; simp at h
    | ambiguous => rfl

theorem matched_congr (h : (l.hits cs).Perm (l.hits ds)) : l.matched cs = l.matched ds :=
  (verdict l cs).unique (verdict l ds) h

theorem matched_eq {r : MatchResult} (h : Verdict l cs r) : l.matched cs = r :=
  (verdict l cs).unique h (.refl _)

/-! ## One More Candidate -/

/-- The agreeing entries with one more candidate somewhere. -/
theorem hits_insert (l : Line) (cs : List PostingCandidate) (c : PostingCandidate)
    (ds : List PostingCandidate) :
    l.hits (cs ++ c :: ds) = l.hits cs ++ (if l.Agrees c then c :: l.hits ds else l.hits ds) := by
  unfold hits
  rw [List.filter_append, List.filter_cons]
  simp only [decide_eq_true_eq]

theorem hits_append (l : Line) (cs ds : List PostingCandidate) :
    l.hits (cs ++ ds) = l.hits cs ++ l.hits ds :=
  List.filter_append cs ds

/-- A candidate that does not agree does not matter. -/
theorem matched_of_disagrees (h : ¬ l.Agrees c) :
    l.matched (cs ++ c :: ds) = l.matched (cs ++ ds) := by
  apply matched_congr
  rw [hits_insert, if_neg h, ← hits_append]

/-- One that agrees is one more agreeing entry. -/
theorem hits_of_agrees (h : l.Agrees c) :
    (l.hits (cs ++ c :: ds)).Perm (c :: l.hits (cs ++ ds)) := by
  rw [hits_insert, if_pos h, hits_append]
  exact List.perm_middle

/-- It is the match of a line without one, and makes any other line ambiguous. -/
theorem matched_of_agrees (h : l.Agrees c) :
    (l.matched (cs ++ ds) = .unmatched → l.matched (cs ++ c :: ds) = .found c.postingId) ∧
      (l.matched (cs ++ ds) ≠ .unmatched → l.matched (cs ++ c :: ds) = .ambiguous) := by
  have hmore : (l.hits (cs ++ c :: ds)).Perm (c :: l.hits (cs ++ ds)) := hits_of_agrees h
  have hv := verdict l (cs ++ ds)
  generalize l.matched (cs ++ ds) = r at hv
  have hmany : 1 ≤ (l.hits (cs ++ ds)).length → l.matched (cs ++ c :: ds) = .ambiguous := by
    intro hone
    refine matched_eq (.ambiguous ?_)
    rw [hmore.length_eq, List.length_cons]
    omega
  cases hv with
  | unmatched hnone =>
    rw [hnone] at hmore
    have hone : l.hits (cs ++ c :: ds) = [c] := List.perm_singleton.mp hmore
    exact ⟨fun _ => matched_eq (.found c hone), fun hno => absurd rfl hno⟩
  | found hit hone =>
    refine ⟨?_, fun _ => hmany ?_⟩
    · intro heq
      cases heq
    · rw [hone]
      simp
  | ambiguous htwo =>
    refine ⟨?_, fun _ => hmany ?_⟩
    · intro heq
      cases heq
    · omega

/-- **Naming a posting** takes exactly one agreeing entry. -/
theorem found_iff : (l.matched cs).postingId = some id ↔
    ∃ before c after, cs = before ++ c :: after ∧ l.Agrees c ∧ c.postingId = id ∧
      ∀ x ∈ before ++ after, ¬ l.Agrees x := by
  constructor
  · intro h
    have hv := verdict l cs
    generalize l.matched cs = r at h hv
    cases hv with
    | unmatched => cases h
    | ambiguous => cases h
    | found c hhits =>
      obtain ⟨before, after, rfl, hbefore, hagrees, hafter⟩ := List.filter_eq_cons_iff.mp hhits
      simp only [decide_eq_true_eq] at hbefore hagrees
      refine ⟨before, c, after, rfl, hagrees, Option.some.inj h, ?_⟩
      intro x hx
      rcases List.mem_append.mp hx with hx | hx
      · exact hbefore x hx
      · simpa using List.filter_eq_nil_iff.mp hafter x hx
  · rintro ⟨before, c, after, rfl, hagrees, rfl, hothers⟩
    have hnone : l.hits (before ++ after) = [] := by
      unfold hits
      rw [List.filter_eq_nil_iff]
      intro x hx
      rw [decide_eq_true_eq]
      exact hothers x hx
    have hone : l.hits (before ++ c :: after) = [c] := by
      have hperm : (l.hits (before ++ c :: after)).Perm (c :: l.hits (before ++ after)) :=
        hits_of_agrees hagrees
      rw [hnone] at hperm
      exact List.perm_singleton.mp hperm
    rw [matched_eq (.found c hone)]
    rfl

/-- More agreeing entries find nothing else. -/
theorem found_or_ambiguous (hsub : (l.hits cs).Sublist (l.hits ds)) (h : l.matched cs = .found id) :
    l.matched ds = .found id ∨ l.matched ds = .ambiguous := by
  have hcs := verdict l cs
  rw [h] at hcs
  have hds := verdict l ds
  generalize l.matched ds = r at hds
  -- the entry that was found is among the entries of the longer list
  cases hcs with
  | found hit hhits =>
    rw [hhits] at hsub
    cases hds with
    | unmatched hnone => rw [hnone] at hsub; cases hsub
    | found hit' hone =>
      rw [hone] at hsub
      obtain rfl : hit = hit' := by simpa using hsub
      exact .inl rfl
    | ambiguous => exact .inr rfl

/-- **The matcher never guesses**, whatever the line:

    * the order of the candidates and those that do not agree do not matter;
    * a posting is named if its entry is the only one that agrees;
    * one more agreeing candidate is the match of a line without one, and
      makes any other line ambiguous, so that no line is redirected. -/
theorem matcher_never_guesses (l : Line) :
    (∀ cs ds : List PostingCandidate, cs.Perm ds → l.matched cs = l.matched ds) ∧
    (∀ cs c ds, ¬ l.Agrees c → l.matched (cs ++ c :: ds) = l.matched (cs ++ ds)) ∧
    (∀ cs id, (l.matched cs).postingId = some id ↔
      ∃ before c after, cs = before ++ c :: after ∧ l.Agrees c ∧ c.postingId = id ∧
        ∀ x ∈ before ++ after, ¬ l.Agrees x) ∧
    (∀ cs c ds, l.Agrees c →
      (l.matched (cs ++ ds) = .unmatched →
        l.matched (cs ++ c :: ds) = .found c.postingId) ∧
      ((∃ id, l.matched (cs ++ ds) = .found id) ∨ l.matched (cs ++ ds) = .ambiguous →
        l.matched (cs ++ c :: ds) = .ambiguous)) ∧
    (∀ cs, l.matched cs = .unmatched ∨ (∃ id, l.matched cs = .found id) ∨
      l.matched cs = .ambiguous) ∧
    ∀ cs ds id, cs.Sublist ds → l.matched cs = .found id →
      l.matched ds = .found id ∨ l.matched ds = .ambiguous := by
  refine ⟨fun cs ds h => ?_, fun cs c ds h => matched_of_disagrees h, fun cs id => found_iff,
    fun cs c ds h => ?_, fun cs => ?_, fun cs ds id hsub h => ?_⟩
  · exact matched_congr (h.filter _)
  · obtain ⟨hfirst, hlater⟩ : (l.matched (cs ++ ds) = .unmatched → _) ∧ (_ → _) :=
      matched_of_agrees h
    refine ⟨hfirst, fun hbefore => hlater ?_⟩
    rcases hbefore with ⟨id, hbefore⟩ | hbefore
    · rw [hbefore]
      simp [MatchResult.found, MatchResult.unmatched]
    · rw [hbefore]
      simp [MatchResult.ambiguous, MatchResult.unmatched]
  · have hv := verdict l cs
    generalize l.matched cs = r at hv
    cases hv with
    | unmatched => exact .inl rfl
    | found hit => exact .inr (.inl ⟨hit.postingId, rfl⟩)
    | ambiguous => exact .inr (.inr rfl)
  · exact found_or_ambiguous (hsub.filter _) h

end Line

end Ledger
