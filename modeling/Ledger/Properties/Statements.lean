import Ledger.Properties.Journal

/-! # Statements

    The export of an account over a window `[start, end)` folds the amounts of
    the window from an opening balance, which the route leaves at zero.

    * **Reference**: `balanceRows`, the balance after each posting of the
      account, counted from its first posting.
    * **Composition**: `statement_composes`, an export from an opening balance
      over two adjoining windows.
    * **Text**: `csv_inj`, the CSV tells the opening balances apart.
    * **Running balance**: `statement_running_iff`, when what the route answers
      is the CSV of the reference, and when two of its answers make one.
-/

namespace Ledger

open ReadCommitted

instance : Std.Total statementOrder :=
  inferInstanceAs (Std.Total (Sorting.Lex Posting.effectiveAt Posting.createdAt))

instance : IsTrans Posting statementOrder :=
  inferInstanceAs (IsTrans Posting (Sorting.Lex Posting.effectiveAt Posting.createdAt))

/-! ## Rows with a Running Balance -/

/-- The sum of a list of postings. -/
def amounts (ps : List Posting) : Int := (ps.map Posting.amount).sum

theorem statementRows_append (running : Int) (ps qs : List Posting) :
    statementRows running (ps ++ qs) =
      statementRows running ps ++ statementRows (running + amounts ps) qs := by
  induction ps generalizing running with
  | nil => simp [statementRows, amounts]
  | cons p ps ih =>
    have hsum : running + amounts (p :: ps) = running + p.amount + amounts ps := by
      unfold amounts
      simp only [List.map_cons, List.sum_cons]
      omega
    rw [List.cons_append, statementRows, statementRows, ih, hsum, List.cons_append]

/-- The rows of postings that satisfy a condition on the instant. -/
theorem filter_statementRows (p : Time → Bool) (running : Int) {ps : List Posting}
    (b : Bool) (h : ∀ x ∈ ps, p x.effectiveAt = b) :
    (statementRows running ps).filter (fun row => p row.effectiveAt) =
      if b then statementRows running ps else [] := by
  induction ps generalizing running with
  | nil => simp [statementRows]
  | cons x ps ih =>
    have hx : p x.effectiveAt = b := h x List.mem_cons_self
    have hrest := ih (running + x.amount) fun y hy => h y (List.mem_cons_of_mem x hy)
    rw [statementRows, List.filter_cons, hrest, hx]
    cases b <;> rfl

/-- The running balance of a row is the opening balance and all amounts up to it. -/
theorem statementRows_running {running : Int} {ps : List Posting} {i : Nat} {row : StatementRow}
    (h : (statementRows running ps)[i]? = some row) :
    row.runningBalance = running + amounts (ps.take (i + 1)) := by
  induction ps generalizing running i with
  | nil => simp [statementRows] at h
  | cons p ps ih =>
    rw [statementRows] at h
    cases i with
    | zero =>
      simp only [List.getElem?_cons_zero, Option.some.injEq] at h
      subst h
      simp [amounts]
    | succ i =>
      rw [List.getElem?_cons_succ] at h
      rw [ih h]
      unfold amounts
      simp only [List.take_succ_cons, List.map_cons, List.sum_cons]
      omega

/-- The posting a row shows. -/
def StatementRow.shown (row : StatementRow) : UUID × Time × Int :=
  (row.postingId, row.effectiveAt, row.amount)

/-- What a statement shows of a posting. -/
def Posting.shown (p : Posting) : UUID × Time × Int := (p.id, p.effectiveAt, p.amount)

/-- One row for each posting, in the order of the postings. -/
theorem shown_statementRows (running : Int) (ps : List Posting) :
    (statementRows running ps).map StatementRow.shown = ps.map Posting.shown := by
  induction ps generalizing running with
  | nil => rfl
  | cons p ps ih =>
    rw [statementRows, List.map_cons, List.map_cons, ih]
    rfl

/-! ## Windows -/

/-- The instant lies in the window. -/
def inWindow (start stop : Time) (t : Time) : Bool := start ≤ t && t < stop

namespace Database

/-- The postings of an account in statement order. -/
def statementList (d : Database) (accountId : UUID) : List Posting :=
  (d.postings.rows.filter fun p => p.accountId = accountId).insertionSort statementOrder

/-- The balance after each posting of the account. -/
def balanceRows (d : Database) (accountId : UUID) : List StatementRow :=
  statementRows 0 (d.statementList accountId)

/-- The balance the window opens with: what was posted before it. -/
def openingBalance (d : Database) (accountId : UUID) (start : Time) : Int :=
  amounts ((d.statementList accountId).filter fun p => p.effectiveAt < start)

end Database

section windows

variable {d : Database} {accountId : UUID} {start stop : Time}

theorem statementList_sorted (d : Database) (accountId : UUID) :
    (d.statementList accountId).Pairwise statementOrder :=
  List.pairwise_insertionSort _ _

/-- Being before an instant ends somewhere in the statement order. -/
theorem before_of_before {t : Time} {a b : Posting} (hab : statementOrder a b)
    (hb : decide (b.effectiveAt < t) = true) : decide (a.effectiveAt < t) = true := by
  have hle : a.effectiveAt ≤ b.effectiveAt :=
    Sorting.Lex.fst_le (f := Posting.effectiveAt) (g := Posting.createdAt) hab
  have hlt : b.effectiveAt < t := of_decide_eq_true hb
  exact decide_eq_true (lt_of_le_of_lt hle hlt)

/-- The window, sorted, is a part of the statement list. -/
theorem sorted_windowOf (d : Database) (accountId : UUID) (start stop : Time) :
    (d.windowOf accountId start stop).insertionSort statementOrder =
      (d.statementList accountId).filter fun p => inWindow start stop p.effectiveAt := by
  unfold Database.statementList Database.windowOf inWindow
  rw [Sorting.filter_insertionSort, List.filter_filter]
  congr 1
  apply List.filter_congr
  intro p _
  ac_rfl

/-- The statement list is what was posted before the window, the window, and the rest. -/
theorem statementList_split (h : start ≤ stop) :
    d.statementList accountId =
      (d.statementList accountId).filter (fun p => p.effectiveAt < start) ++
        ((d.statementList accountId).filter (fun p => inWindow start stop p.effectiveAt) ++
          (d.statementList accountId).filter (fun p => stop ≤ p.effectiveAt)) := by
  have hsorted := statementList_sorted d accountId
  have hstart := Sorting.filter_append hsorted
    (p := fun x => decide (x.effectiveAt < start)) fun a b => before_of_before
  have hstop := Sorting.filter_append
    (hsorted.sublist (List.filter_sublist (p := fun x => !decide (x.effectiveAt < start))))
    (p := fun x => decide (x.effectiveAt < stop)) fun a b => before_of_before
  conv_lhs => rw [← hstart, ← hstop]
  rw [List.filter_filter, List.filter_filter]
  congr 2
  · apply List.filter_congr
    intro p _
    unfold inWindow
    by_cases h1 : p.effectiveAt < start
    · simp [h1]
    · simp [h1, not_lt.mp h1]
  · apply List.filter_congr
    intro p _
    by_cases h2 : p.effectiveAt < stop
    · simp [h2]
    · simp [not_lt.mp h2, le_trans h (not_lt.mp h2)]

/-- The reference over a window is the window's rows from the balance it opens with. -/
theorem balanceRows_window (d : Database) (accountId : UUID) (start stop : Time) :
    (d.balanceRows accountId).filter (fun row => inWindow start stop row.effectiveAt) =
      statementRows (d.openingBalance accountId start)
        ((d.windowOf accountId start stop).insertionSort statementOrder) := by
  rw [sorted_windowOf]
  unfold Database.balanceRows
  rcases lt_or_ge stop start with hempty | h
  · -- an inverted window is empty
    have hnone : ∀ t, inWindow start stop t = false := by
      intro t
      unfold inWindow
      by_cases h1 : start ≤ t
      · simp [not_lt.mpr (le_trans (le_of_lt hempty) h1)]
      · simp [h1]
    simp [hnone, statementRows]
  · have hparts := @statementList_split d accountId start stop h
    generalize hB : (d.statementList accountId).filter (fun p => p.effectiveAt < start) = before
      at hparts
    generalize hW : (d.statementList accountId).filter
      (fun p => inWindow start stop p.effectiveAt) = window at hparts ⊢
    generalize hA : (d.statementList accountId).filter (fun p => stop ≤ p.effectiveAt) = rest
      at hparts
    have hopening : d.openingBalance accountId start = amounts before := by
      rw [← hB]
      rfl
    have hbefore : ∀ x ∈ before, inWindow start stop x.effectiveAt = false := by
      intro x hx
      rw [← hB] at hx
      have hlt := of_decide_eq_true (List.mem_filter.mp hx).2
      simp [inWindow, not_le.mpr hlt]
    have hwindow : ∀ x ∈ window, inWindow start stop x.effectiveAt = true := by
      intro x hx
      rw [← hW] at hx
      exact (List.mem_filter.mp hx).2
    have hrest : ∀ x ∈ rest, inWindow start stop x.effectiveAt = false := by
      intro x hx
      rw [← hA] at hx
      have hle := of_decide_eq_true (List.mem_filter.mp hx).2
      simp [inWindow, not_lt.mpr hle]
    rw [hparts, statementRows_append, statementRows_append, List.filter_append,
      List.filter_append, filter_statementRows _ _ false hbefore,
      filter_statementRows _ _ true hwindow, filter_statementRows _ _ false hrest, hopening]
    simp

/-- Two adjoining windows, sorted, make one. -/
theorem sorted_windowOf_append {a b c : Time} (hab : a ≤ b) (hbc : b ≤ c) :
    (d.windowOf accountId a b).insertionSort statementOrder ++
        (d.windowOf accountId b c).insertionSort statementOrder =
      (d.windowOf accountId a c).insertionSort statementOrder := by
  rw [sorted_windowOf, sorted_windowOf, sorted_windowOf]
  have hsorted := (statementList_sorted d accountId).sublist
    (List.filter_sublist (p := fun p => inWindow a c p.effectiveAt))
  rw [← Sorting.filter_append hsorted (p := fun x => decide (x.effectiveAt < b))
    fun a b => before_of_before, List.filter_filter, List.filter_filter]
  congr 1
  · apply List.filter_congr
    intro p _
    unfold inWindow
    by_cases hb : p.effectiveAt < b
    · simp [hb, lt_of_lt_of_le hb hbc]
    · simp [hb]
  · apply List.filter_congr
    intro p _
    unfold inWindow
    by_cases hb : p.effectiveAt < b
    · simp [hb, not_le.mpr hb]
    · simp [hb, not_lt.mp hb, le_trans hab (not_lt.mp hb)]

end windows

/-! ## Composition -/

theorem amounts_sorted (ps : List Posting) :
    amounts (ps.insertionSort statementOrder) = amounts ps := by
  unfold amounts
  exact ((List.perm_insertionSort statementOrder ps).map Posting.amount).sum_eq

/-- The rows of an export and the postings they show. -/
theorem shown_streamStatement (d : Database) (accountId : UUID) (start stop : Time)
    (openingBalance : Int) :
    (d.streamStatement accountId start stop openingBalance).map StatementRow.shown =
      ((d.windowOf accountId start stop).insertionSort statementOrder).map Posting.shown :=
  shown_statementRows openingBalance _

/-- A window has no posting twice. -/
theorem nodup_windowOf (d : Database) (accountId : UUID) (start stop : Time) :
    ((d.windowOf accountId start stop).map Posting.id).Nodup :=
  d.postings.nodup.sublist (List.filter_sublist.map Posting.id)

/-- **Statements compose**: an export over two adjoining windows is the export
    of the first one, then that of the second one from the balance the first
    one ends with.  It shows every posting of the window once, in order, with
    the balance so far.  Postings that tie come in the order of the rows,
    whatever it is. -/
theorem statement_composes (d : Database) (accountId : UUID) (openingBalance : Int) {a b c : Time}
    (hab : a ≤ b) (hbc : b ≤ c) :
    d.streamStatement accountId a c openingBalance =
        d.streamStatement accountId a b openingBalance ++
          d.streamStatement accountId b c
            (openingBalance + amounts (d.windowOf accountId a b)) ∧
      ((d.streamStatement accountId a c openingBalance).map StatementRow.shown).Perm
        ((d.postings.rows.filter fun p =>
          p.accountId = accountId && a ≤ p.effectiveAt && p.effectiveAt < c).map Posting.shown) ∧
      ((d.streamStatement accountId a c openingBalance).map StatementRow.postingId).Nodup ∧
      (d.streamStatement accountId a c openingBalance).Pairwise
        (fun r s => r.effectiveAt ≤ s.effectiveAt) ∧
      ∀ i row, (d.streamStatement accountId a c openingBalance)[i]? = some row →
        row.runningBalance = openingBalance +
          (((d.streamStatement accountId a c openingBalance).take (i + 1)).map
            StatementRow.amount).sum := by
  have hshown := shown_streamStatement d accountId a c openingBalance
  have hperm := List.perm_insertionSort statementOrder (d.windowOf accountId a c)
  refine ⟨?_, ?_, ?_, ?_, ?_⟩
  · -- the later window carries on from the sum of the earlier one
    unfold Database.streamStatement
    rw [← sorted_windowOf_append hab hbc, statementRows_append, amounts_sorted]
  · rw [hshown]
    exact hperm.map Posting.shown
  · -- what a row shows of its posting tells the rest
    have hids := congrArg (List.map Prod.fst) hshown
    simp only [List.map_map] at hids
    show ((d.streamStatement accountId a c openingBalance).map
      (Prod.fst ∘ StatementRow.shown)).Nodup
    rw [hids]
    exact (hperm.map Posting.id).nodup_iff.mpr (nodup_windowOf d accountId a c)
  · have htimes := congrArg (List.map fun x => x.2.1) hshown
    simp only [List.map_map] at htimes
    have hsorted : (((d.windowOf accountId a c).insertionSort statementOrder).map
        Posting.effectiveAt).Pairwise (· ≤ ·) := by
      rw [List.pairwise_map]
      exact (List.pairwise_insertionSort statementOrder _).imp
        (Sorting.Lex.fst_le (f := Posting.effectiveAt) (g := Posting.createdAt))
    have hrows : ((d.streamStatement accountId a c openingBalance).map
        StatementRow.effectiveAt).Pairwise (· ≤ ·) := by
      show ((d.streamStatement accountId a c openingBalance).map
        ((fun x : UUID × Time × Int => x.2.1) ∘ StatementRow.shown)).Pairwise (· ≤ ·)
      rw [htimes]
      exact hsorted
    exact List.pairwise_map.mp hrows
  · intro i row hrow
    rw [statementRows_running hrow]
    congr 1
    have hamounts := congrArg (fun l => (l.map fun x => x.2.2).take (i + 1)) hshown
    simp only [List.map_map, ← List.map_take] at hamounts
    exact congrArg List.sum hamounts.symm

section

open Sample

/-- Alice's two credits, each in a window of its own. -/
theorem statement_composes_credited :
    (creditedAt 1).streamStatement alice 0 2 0 =
        (creditedAt 1).streamStatement alice 0 1 0 ++ (creditedAt 1).streamStatement alice 1 2
          (0 + amounts ((creditedAt 1).windowOf alice 0 1)) ∧
      ((creditedAt 1).streamStatement alice 0 1 0).map StatementRow.runningBalance = [200] ∧
      ((creditedAt 1).streamStatement alice 0 2 0).map StatementRow.runningBalance = [200, 250] :=
  ⟨(statement_composes (creditedAt 1) alice 0 (by decide) (by decide)).1, by decide +kernel,
    by decide +kernel⟩

end

/-! ## The CSV -/

/-- The rows of an exported statement, header aside. -/
def ReadResponse.lines : ReadResponse → List String
  | .statement chunks => chunks.tail
  | _ => []

section text

variable [Runtime]

theorem csv_tail_append (rows rows' : List StatementRow) :
    (csv (rows ++ rows')).tail = (csv rows).tail ++ (csv rows').tail := by
  simp [csv]

/-- The same postings with another opening balance are another CSV. -/
theorem csv_inj {x y : Int} {ps : List Posting} :
    (csv (statementRows x ps)).tail = (csv (statementRows y ps)).tail ↔ ps = [] ∨ x = y := by
  constructor
  · intro h
    cases ps with
    | nil => exact .inl rfl
    | cons p ps =>
      simp only [csv, statementRows, List.tail_cons, List.map_cons, List.cons.injEq] at h
      -- the first lines agree up to the running balance
      have hrunning : (x + p.amount).repr = (y + p.amount).repr := by simpa using h.1
      have hsum := Json.int_repr_inj.mp hrunning
      right
      omega
  · rintro (rfl | rfl)
    · rfl
    · rfl

end text

/-! ## Running Balance -/

/-- **The running balance** of the exported CSV is the account's balance iff the
    window is empty or opens with a balance of zero; two adjoining exports
    make one iff the second window is empty or the first one sums to zero. -/
theorem statement_running_iff [Runtime] (d : Database) (tenantId : String) (now : Time)
    (accountId : UUID) :
    (∀ start stop,
      d.read tenantId now (.statement accountId start stop) =
          .statement (csv ((d.balanceRows accountId).filter
            fun row => inWindow start stop row.effectiveAt)) ↔
        d.windowOf accountId start stop = [] ∨ d.openingBalance accountId start = 0) ∧
    ∀ a b c, a ≤ b → b ≤ c →
      ((d.read tenantId now (.statement accountId a b)).lines ++
          (d.read tenantId now (.statement accountId b c)).lines =
          (d.read tenantId now (.statement accountId a c)).lines ↔
        d.windowOf accountId b c = [] ∨ amounts (d.windowOf accountId a b) = 0) := by
  have hnil : ∀ ps : List Posting, ps.insertionSort statementOrder = [] ↔ ps = [] := by
    intro ps
    rw [← List.length_eq_zero_iff, List.length_insertionSort, List.length_eq_zero_iff]
  constructor
  · intro start stop
    rw [balanceRows_window, ← hnil, eq_comm (b := (0 : Int)), ← csv_inj]
    simp [Database.read, Database.streamStatement, csv]
  · intro a b c hab hbc
    simp only [Database.read, ReadResponse.lines, Database.streamStatement]
    rw [← sorted_windowOf_append hab hbc, statementRows_append, csv_tail_append, amounts_sorted,
      List.append_cancel_left_eq, csv_inj, hnil, zero_add, eq_comm (a := (0 : Int))]

open Sample

/-- Alice has 250 after the second credit, her export of that instant shows 50. -/
theorem statement_shows_turnover :
    ((creditedAt 1).read "acme" 0 (.statement alice 1 2)).lines =
        [s!"{Runtime.isoformat 1},50,50\n"] ∧
      (csv (((creditedAt 1).balanceRows alice).filter
        fun row => inWindow 1 2 row.effectiveAt)).tail =
        [s!"{Runtime.isoformat 1},50,250\n"] := by
  decide +kernel

end Ledger
