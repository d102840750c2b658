import Ledger.Framework.Paging
import Ledger.Framework.Sorting
import Ledger.Properties.Representation
import Ledger.Services.Reads

/-! # Paging through the Journal

    A client starts without a cursor and follows `next_cursor` until it is
    `None`.  The rows are ordered by `(effective_at, id)`, the cursor carries
    `effective_at` alone.

    * **Process**: `followJournal`, in terms of the endpoint's answers.
    * **Reference**: `history`, the account's postings in journal order.
    * **Result**: `journal_pages_iff`.  The process ends; it has shown the
      whole history iff no page ends between two postings with one instant.
-/

namespace Ledger

open ReadCommitted

/-- `ORDER BY effective_at, id`, on postings. -/
def postingOrder (a b : Posting) : Prop :=
  a.effectiveAt < b.effectiveAt ∨ (a.effectiveAt = b.effectiveAt ∧ a.id.toNat ≤ b.id.toNat)

instance : DecidableRel postingOrder := fun a b => by unfold postingOrder; infer_instance

instance : Std.Total postingOrder :=
  inferInstanceAs (Std.Total (Sorting.Lex Posting.effectiveAt fun p => p.id.toNat))

instance : IsTrans Posting postingOrder :=
  inferInstanceAs (IsTrans Posting (Sorting.Lex Posting.effectiveAt fun p => p.id.toNat))

/-- The instant of a joined row, as the cursor carries it. -/
def rowInstant (row : Posting × Transaction) : Time := row.1.effectiveAt

instance : Std.Total journalOrder :=
  inferInstanceAs (Std.Total (Sorting.Lex rowInstant fun row => row.1.id.toNat))

instance : IsTrans (Posting × Transaction) journalOrder :=
  inferInstanceAs (IsTrans _ (Sorting.Lex rowInstant fun row => row.1.id.toNat))

namespace Database

/-- The postings of an account in journal order. -/
def history (d : Database) (accountId : UUID) : List Posting :=
  (d.postings.rows.filter fun p => p.accountId = accountId).insertionSort postingOrder

/-- Follow `next_cursor` from `after`: the entries of the pages, if the
    process ends within `fuel` requests. -/
def followJournal [Runtime] (d : Database) (tenantId : String) (accountId : UUID) (limit : Nat) :
    Nat → Option Time → Option (List (List JournalEntry))
  | 0, _ => none
  | fuel + 1, after =>
    match d.getAccountJournalEndpoint tenantId accountId after limit with
    | .journal r =>
      match r.nextCursor with
      | none => some [r.entries]
      | some c => (d.followJournal tenantId accountId limit fuel (some c)).map (r.entries :: ·)
    | _ => none

end Database

section journal

variable {d : Database} {tenantId : String} {accountId : UUID} {limit : Nat}

/-- The joined rows of the account in journal order. -/
def Database.joinedHistory (d : Database) (accountId : UUID) : List (Posting × Transaction) :=
  (d.joined (d.postings.rows.filter fun p => p.accountId = accountId)).insertionSort journalOrder

theorem joinedHistory_sorted (d : Database) (accountId : UUID) :
    (d.joinedHistory accountId).Pairwise fun a b => rowInstant a ≤ rowInstant b := by
  have hsorted : (d.joinedHistory accountId).Pairwise journalOrder :=
    List.pairwise_insertionSort _ _
  apply hsorted.imp
  intro a b hab
  exact Sorting.Lex.fst_le (f := rowInstant) (g := fun row => row.1.id.toNat) hab

/-- The join loses no posting: it only adds the transaction. -/
theorem map_fst_joined {ps : List Posting}
    (hjoin : ∀ p ∈ ps, (d.transactions.find? p.transactionId).isSome) :
    (d.joined ps).map Prod.fst = ps := by
  unfold Database.joined
  induction ps with
  | nil => rfl
  | cons p ps ih =>
    obtain ⟨t, ht⟩ := Option.isSome_iff_exists.mp (hjoin p List.mem_cons_self)
    have hrest := ih fun q hq => hjoin q (List.mem_cons_of_mem p hq)
    simp [ht, hrest]

/-- The joined rows are those of the history. -/
theorem map_fst_joinedHistory
    (hjoin : ∀ p ∈ d.postings.rows, p.accountId = accountId →
      (d.transactions.find? p.transactionId).isSome) :
    (d.joinedHistory accountId).map Prod.fst = d.history accountId := by
  unfold Database.joinedHistory Database.history
  rw [List.map_insertionSort (r := journalOrder) (s := postingOrder), map_fst_joined]
  · intro p hp
    have hmem := List.mem_filter.mp hp
    exact hjoin p hmem.1 (by simpa using hmem.2)
  · intro a _ b _
    exact Iff.rfl

/-- Joining commutes with a condition on the posting. -/
theorem joined_filter (q : Posting → Bool) (ps : List Posting) :
    d.joined (ps.filter q) = (d.joined ps).filter fun row => q row.1 := by
  unfold Database.joined
  induction ps with
  | nil => rfl
  | cons p ps ih =>
    cases ht : d.transactions.find? p.transactionId with
    | none => cases hq : q p <;> simp [ht, hq, ih]
    | some t => cases hq : q p <;> simp [ht, hq, ih]

/-- **A page of the endpoint** is a page of the joined history, with its cursor. -/
theorem journal_page [Runtime] (howned : d.Owns tenantId accountId) (after : Option Time) :
    d.getAccountJournalEndpoint tenantId accountId after limit = .journal
      { accountId,
        entries := (Paging.page rowInstant limit after
          (d.joinedHistory accountId)).map journalEntry,
        nextCursor := Paging.cursor rowInstant limit
          (Paging.page rowInstant limit after (d.joinedHistory accountId)) } := by
  obtain ⟨account, hfound, htenant⟩ := howned
  -- the query filters before it joins and sorts, the page is cut from the sorted join
  have hrows : (d.joined (d.postings.rows.filter fun p =>
      p.accountId = accountId && after.all (· < p.effectiveAt))).insertionSort journalOrder =
        Paging.rest rowInstant after (d.joinedHistory accountId) := by
    have hsplit : (d.postings.rows.filter fun p =>
        p.accountId = accountId && after.all (· < p.effectiveAt)) =
        (d.postings.rows.filter fun p => p.accountId = accountId).filter
          fun p => after.all (· < p.effectiveAt) := by
      rw [List.filter_filter]
      apply List.filter_congr
      intro p _
      exact Bool.and_comm _ _
    rw [hsplit, joined_filter, ← Sorting.filter_insertionSort]
    rfl
  unfold Database.getAccountJournalEndpoint Database.accountJournal
  simp only [hfound, htenant, ne_eq, not_true_eq_false, if_false, hrows]
  unfold Paging.cursor Paging.page
  simp only [List.length_map, List.getLast?_map, Option.map_map]
  rfl

/-- Following the endpoint's cursors is walking the joined history. -/
theorem followJournal_eq [Runtime] (howned : d.Owns tenantId accountId) (fuel : Nat)
    (after : Option Time) :
    d.followJournal tenantId accountId limit fuel after =
      (Paging.walk rowInstant limit (d.joinedHistory accountId) fuel after).map
        (List.map (List.map journalEntry)) := by
  induction fuel generalizing after with
  | zero => rfl
  | succ fuel ih =>
    unfold Database.followJournal Paging.walk
    rw [journal_page howned]
    cases hcursor : Paging.cursor rowInstant limit
        (Paging.page rowInstant limit after (d.joinedHistory accountId)) with
    | none => simp
    | some c =>
      simp only [ih, Option.map_map]
      rfl

/-- **Paging through the journal** ends, and has shown the postings of the
    account in order, each once, iff no page ends between two postings with
    the same instant. -/
theorem journal_pages_iff [Runtime] (d : Database) {tenantId : String} {accountId : UUID}
    (howned : d.Owns tenantId accountId)
    (hjoin : ∀ p ∈ d.postings.rows, p.accountId = accountId →
      (d.transactions.find? p.transactionId).isSome)
    {limit : Nat} (hlimit : 1 ≤ limit ∧ limit ≤ 200) :
    ∃ pages, (∀ fuel, (d.history accountId).length < fuel →
        d.followJournal tenantId accountId limit fuel none = some pages) ∧
      (pages.flatten.map JournalEntry.postingId = (d.history accountId).map Posting.id ↔
        Paging.Splits Posting.effectiveAt limit (d.history accountId)) := by
  have hfst := map_fst_joinedHistory hjoin
  have hlength : (d.joinedHistory accountId).length = (d.history accountId).length := by
    rw [← hfst, List.length_map]
  obtain ⟨pages, hwalk, hsub, hiff⟩ := Paging.walk_spec (n := limit) (by omega)
    (joinedHistory_sorted d accountId)
  refine ⟨pages.map (List.map journalEntry), fun fuel hfuel => ?_, ?_⟩
  · rw [followJournal_eq howned, hwalk fuel (by omega)]
    rfl
  have hsplits : Paging.Splits rowInstant limit (d.joinedHistory accountId) ↔
      Paging.Splits Posting.effectiveAt limit (d.history accountId) := by
    rw [← hfst]
    unfold Paging.Splits
    constructor
    · intro h k a b hk ha hb
      rw [List.getElem?_map, Option.map_eq_some_iff] at ha hb
      obtain ⟨x, hx, rfl⟩ := ha
      obtain ⟨y, hy, rfl⟩ := hb
      exact h k x y hk hx hy
    · intro h k x y hk hx hy
      exact h k x.1 y.1 hk (by simp [hx]) (by simp [hy])
  have hids : (pages.map (List.map journalEntry)).flatten.map JournalEntry.postingId =
      pages.flatten.map fun row => row.1.id := by
    rw [← List.map_flatten, List.map_map]
    rfl
  rw [hids, ← hsplits, ← hiff]
  constructor
  · -- the pages skip rows but add none
    intro h
    apply hsub.eq_of_length
    have hlen := congrArg List.length h
    rw [List.length_map, List.length_map] at hlen
    rw [hlen, hlength]
  · intro h
    rw [h, ← hfst, List.map_map]
    rfl

end journal

open Sample

/-- Alice is credited twice, the second time at the given instant. -/
def creditedAt (time : Time) : Database :=
  script (setup ++ [(.post "acme" [⟨usd, -50, time⟩, ⟨alice, 50, time⟩] "", envAt 0 1100)]) .empty

/-- At different instants, pages of one entry show both postings. -/
theorem journal_pages_distinct : ∃ pages,
    (∀ fuel, ((creditedAt 1).history alice).length < fuel →
      (creditedAt 1).followJournal "acme" alice 1 fuel none = some pages) ∧
    pages.flatten.map JournalEntry.postingId = ((creditedAt 1).history alice).map Posting.id := by
  have howned : (creditedAt 1).Owns "acme" alice := by decide +kernel
  have hlimit : 1 ≤ 1 ∧ 1 ≤ 200 := by decide
  obtain ⟨pages, hends, hiff⟩ := journal_pages_iff (creditedAt 1) howned (by decide +kernel) hlimit
  refine ⟨pages, hends, hiff.mpr (Paging.Splits.of_pairwise_lt Nat.one_pos ?_)⟩
  decide +kernel

/-- At one instant, the second posting is never shown. -/
theorem journal_loses_tied :
    ((creditedAt 0).followJournal "acme" alice 1 3 none).map (fun pages =>
      pages.flatten.map JournalEntry.postingId) = some [1007] ∧
    ((creditedAt 0).history alice).map Posting.id = [1007, 1107] := by
  decide +kernel

end Ledger
