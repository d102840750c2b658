import Ledger.Runs.Inserts
import Ledger.Runs.Outcomes

/-! # Importing a Statement Once

    Imports of one file, in any number and interleaved in any way.  Each
    looks for an earlier import with a plain `SELECT`, and the schema only
    indexes the file's hash.

    * **State**: `Imported`, the file has one import at most, with all its
      lines.
    * **Condition**: `UnracedImport`, no other import of the file commits
      between the first statement of an import and its commit.
    * **Result**: `SingleImport`, the one import is what every call answers
      with, and one of them has created it.
-/

namespace Ledger

open ReadCommitted

/-- The lines of an import. -/
def Database.linesOf (d : Database) (importId : UUID) : List StatementLine :=
  d.lines.rows.filter fun l => l.importId = importId

/-- Every line belongs to an import. -/
def Database.Filed (d : Database) : Prop :=
  ∀ l ∈ d.lines.rows, ∃ i ∈ d.imports.rows, i.id = l.importId

/-- The tenant has imported the file at most once, and then in full. -/
structure Imported (tenantId fileHash : String) (lines : List ParsedLine) (d : Database) :
    Prop where
  filed : d.Filed
  once : (d.importsOf tenantId fileHash).length ≤ 1
  full : ∀ i ∈ d.importsOf tenantId fileHash, (d.linesOf i.id).map StatementLine.parsed = lines

/-- A file that was never imported. -/
theorem Imported.of_none {tenantId fileHash : String} {d : Database} (hfiled : d.Filed)
    (hnone : d.importsOf tenantId fileHash = []) (lines : List ParsedLine) :
    Imported tenantId fileHash lines d where
  filed := hfiled
  once := by simp [hnone]
  full := by simp [hnone]

/-! ## Foreign Keys -/

section filed

variable {d : Database} {w : Write} {ws : List Write}

/-- A line that was let through belongs to an import. -/
theorem filed_apply (h : d.Filed) (hadm : d.constrain w = .ok ()) : (d.apply w).Filed := by
  intro l hl
  cases w with
  | insImport r =>
    obtain ⟨i, hi, hid⟩ := h l hl
    exact ⟨i, Table.subset_insert d.imports r hi, hid⟩
  | insLine r =>
    simp only [Database.constrain, Database.bind_eq_ok, Database.require_eq_ok] at hadm
    rcases Table.mem_insert.mp hl with hl | ⟨rfl, -⟩
    · exact h l hl
    · obtain ⟨i, hi⟩ := Option.isSome_iff_exists.mp hadm.2.1
      exact ⟨i, Table.mem_of_find? hi, Table.key_of_find? hi⟩
  | _ => exact h l hl

theorem filed_replay (h : d.Filed) (hadm : Admitted d ws) : (replay d ws).Filed := by
  induction ws generalizing d with
  | nil => exact h
  | cons w ws ih => exact ih (filed_apply h hadm.head) hadm.tail

/-- In every reachable state the lines belong to imports. -/
theorem filed_of_reached [Runtime] {ok : Database → Request → Prop} (h : Reached ok d) :
    d.Filed := by
  induction h with
  | empty => simp [Database.Filed, Database.empty]
  | @step d r env _ _ ih =>
    obtain ⟨ws, -, hadm, hafter⟩ := executed_outcome r env d
    rw [hafter]
    exact filed_replay ih hadm

end filed

/-! ## Condition -/

/-- Since the first statement of the session, no other commit imported the
    file it is about to import. -/
def UnracedImport {ι : Type} : Sys.Allow ι Database Write Resource := fun _ tx g =>
  ∀ row, .insImport row ∈ tx.log → ∀ e ∈ g.wal.drop tx.began, ∀ row', .insImport row' ∈ e.writes →
    ¬ (row'.tenantId = row.tenantId ∧ row'.fileHash = row.fileHash)

theorem unracedImport_of_quiet {ι : Type} (i : ι) (tx : Tx Write Resource)
    (g : Shared ι Database Write) (h : g.wal.drop tx.began = []) : UnracedImport i tx g := by
  intro row _ e he
  rw [h] at he
  cases he

/-! ## Commits -/

/-- The commit adds the first import of the file, with all its lines. -/
structure Imports (tenantId fileHash : String) (lines : List ParsedLine)
    (tx : Tx Write Resource) (d : Database) (row : StatementImport) (rows : List StatementLine) :
    Prop where
  log : tx.log = .insImport row :: rows.map .insLine
  tenant : row.tenantId = tenantId
  hash : row.fileHash = fileHash
  rows_import : ∀ r ∈ rows, r.importId = row.id
  rows_lines : rows.map StatementLine.parsed = lines
  fresh : Fresh d tx.log
  first : d.importsOf tenantId fileHash = []

section commits

variable {tenantId fileHash : String} {lines : List ParsedLine} {tx : Tx Write Resource}
  {d : Database} {row : StatementImport} {rows : List StatementLine}

theorem replay_lines (d : Database) (rows : List StatementLine) :
    replay d (rows.map .insLine) = { d with lines := rows.foldl Table.insert d.lines } := by
  induction rows generalizing d with
  | nil => rfl
  | cons r rows ih => rw [List.map_cons, replay_cons, ih]; rfl

/-- The new import has a new id. -/
theorem Imports.new (h : Imports tenantId fileHash lines tx d row rows) :
    d.imports.find? row.id = none := by
  have hnew := h.fresh.new (.insImport row) (by simp [h.log]) .imports row.id rfl
  simpa [Database.has] using hnew

/-- The imports and the lines after the commit. -/
theorem Imports.tables (h : Imports tenantId fileHash lines tx d row rows) :
    (replay d tx.log).imports.rows = d.imports.rows ++ [row] ∧
      (replay d tx.log).lines.rows = d.lines.rows ++ rows := by
  obtain ⟨hnew, honce⟩ := h.fresh.rows (t := .lines)
    (f := fun | .insLine l => some l | _ => none) fun w l hl => by cases w <;> cases hl; rfl
  have hrows : (tx.log.filterMap fun | .insLine l => some l | _ => none) = rows := by
    rw [h.log]
    simp [List.filterMap_map]
  rw [hrows] at hnew honce
  have hfree : ∀ l ∈ rows, d.lines.find? (Keyed.key l) = none := by
    intro l hl
    simpa [Database.has] using hnew l hl
  rw [h.log, replay_cons, replay_lines]
  constructor
  · show (d.imports.insert row).rows = _
    rw [Table.insert_of_fresh h.new]
  · exact Table.rows_foldl_insert _ _ hfree honce

/-- **After the commit** its import is the only one, and has the file's lines. -/
theorem Imports.imported (h : Imports tenantId fileHash lines tx d row rows) (hfiled : d.Filed) :
    (replay d tx.log).importsOf tenantId fileHash = [row] ∧
      Imported tenantId fileHash lines (replay d tx.log) := by
  obtain ⟨himports, hlines⟩ := h.tables
  have honly : (replay d tx.log).importsOf tenantId fileHash = [row] := by
    have hfirst := h.first
    unfold Database.importsOf at hfirst ⊢
    rw [himports, List.filter_append, hfirst]
    simp [h.tenant, h.hash]
  -- a line that was there before belongs to an import that was there before
  have hnone : d.linesOf row.id = [] := by
    unfold Database.linesOf
    rw [List.filter_eq_nil_iff]
    intro l hl heq
    obtain ⟨i, hi, hid⟩ := hfiled l hl
    exact Table.find?_eq_none_iff.mp h.new i hi (hid.trans (of_decide_eq_true heq))
  have hunder : (replay d tx.log).linesOf row.id = rows := by
    unfold Database.linesOf at hnone ⊢
    rw [hlines, List.filter_append, hnone, List.nil_append, List.filter_eq_self]
    intro l hl
    exact decide_eq_true (h.rows_import l hl)
  refine ⟨honly, fun l hl => ?_, by simp [honly], fun i hi => ?_⟩
  · rw [himports]
    rw [hlines] at hl
    rcases List.mem_append.mp hl with hl | hl
    · obtain ⟨i, hi, hid⟩ := hfiled l hl
      exact ⟨i, List.mem_append_left _ hi, hid⟩
    · exact ⟨row, by simp, (h.rows_import l hl).symm⟩
  · rw [honly, List.mem_singleton] at hi
    rw [hi, hunder, h.rows_lines]

end commits

/-! ## Runs -/

section runs

variable {ι : Type} {tenantId fileHash : String} {lines : List ParsedLine}

/-- Every commit is the first import of the file. -/
abbrev importing (ι : Type) (tenantId fileHash : String) (lines : List ParsedLine) :
    RG ι Database Write Resource :=
  .logging UnracedImport fun _ tx g => ∃ row rows, Imports tenantId fileHash lines tx g.db row rows

variable {g g' : Shared ι Database Write} {cs : List (Commit ι Write Resource)}

/-- **Run lemma**: nothing is committed, or one import of a file that had none. -/
theorem imported_of_logged (h : Logged (fun _ tx g => ∃ row rows,
      Imports tenantId fileHash lines tx g.db row rows) g cs g')
    (hstart : Imported tenantId fileHash lines g.db) :
    Imported tenantId fileHash lines g'.db ∧ ((cs = [] ∧ g'.db = g.db) ∨
      g.db.importsOf tenantId fileHash = [] ∧ ∃ c row, cs = [c] ∧
        .insImport row ∈ c.tx.log ∧ g'.db.importsOf tenantId fileHash = [row]) := by
  cases cs with
  | nil =>
    have hsame : g'.db = g.db := h.db
    exact ⟨hsame ▸ hstart, .inl ⟨rfl, hsame⟩⟩
  | cons c cs =>
    have hfirst : ∃ row rows, Imports tenantId fileHash lines c.tx g.db row rows :=
      h.each [] c cs rfl
    obtain ⟨row, rows, himports⟩ := hfirst
    obtain ⟨honly, himported⟩ := himports.imported hstart.filed
    have hafter : afterCommits g.db [c.entry] = replay g.db c.tx.log := by
      simp [afterCommits, Commit.entry]
    have hlast : cs = [] := by
      cases cs with
      | nil => rfl
      | cons c' cs =>
        -- a second commit would have had to find no import
        have hsecond : ∃ row rows, Imports tenantId fileHash lines c'.tx
            (afterCommits g.db [c.entry]) row rows := h.each [c] c' cs rfl
        obtain ⟨row', rows', himports'⟩ := hsecond
        have hnone := himports'.first
        rw [hafter, honly] at hnone
        cases hnone
    subst hlast
    have hdb : g'.db = replay g.db c.tx.log := h.db.trans hafter
    rw [hdb]
    exact ⟨himported, .inr ⟨himports.first, c, row, rfl, by simp [himports.log], honly⟩⟩

variable [Runtime] {raw : String} {account : UUID} {me : ι}

/-- The reply is the id of the tenant's one import of the file. -/
def Answers (tenantId fileHash : String) (g : Shared ι Database Write) (reply : Reply) : Prop :=
  ∃ r row, reply = .imported r ∧ g.db.importsOf tenantId fileHash = [row] ∧ r.importId = row.id

omit [Runtime] in
/-- An answer stays right: nothing is committed once the file is imported. -/
theorem Answers.stays {reply : Reply} {rs : List Resource} (h : Answers tenantId fileHash g reply)
    (hr : (importing ι tenantId fileHash lines).rely rs g g') :
    Answers tenantId fileHash g' reply := by
  obtain ⟨r, row, hreply, honly, hid⟩ := h
  obtain ⟨cs, hlogged, -⟩ := hr
  cases cs with
  | nil =>
    have hsame : g'.db = g.db := hlogged.db
    exact ⟨r, row, hreply, by rw [hsame, honly], hid⟩
  | cons c cs =>
    have hfirst : ∃ row rows, Imports tenantId fileHash lines c.tx g.db row rows :=
      hlogged.each [] c cs rfl
    obtain ⟨row', rows', himports⟩ := hfirst
    have hnone := himports.first
    rw [honly] at hnone
    cases hnone

/-- An import that nobody raced is the first, with all its lines. -/
theorem imports_of_run (me : ι) {run : ImportRun (importing ι tenantId (Runtime.sha256 raw) lines)
    tenantId raw lines g} (hallow : UnracedImport me run.tx run.g) :
    Imports tenantId (Runtime.sha256 raw) lines run.tx run.g.db run.row run.rows where
  log := run.log
  tenant := run.tenant
  hash := run.hash
  rows_import := run.rows_import
  rows_lines := run.rows_lines
  fresh := by
    rw [run.log]
    exact fresh_of_progress run.whole
  first := by
    obtain ⟨cs, hlogged, -⟩ := run.finish.rely
    obtain ⟨-, hbegan⟩ := start_of_began run.began run.finish
    cases cs with
    | nil =>
      have hsame : run.g.db = run.gS.db := hlogged.db
      rw [hsame]
      exact run.unseen
    | cons c cs =>
      -- a commit since the search would have been another import of the file
      obtain ⟨row, rows, himports⟩ := hlogged.each [] c cs rfl
      have hsince : c.entry ∈ run.g.wal.drop run.tx.began := by
        rw [hlogged.wal, hbegan, List.drop_left]
        simp
      have hrival : Write.insImport row ∈ c.entry.writes := by
        show _ ∈ c.tx.log
        simp [himports.log]
      exact absurd ⟨himports.tenant.trans run.tenant.symm, himports.hash.trans run.hash.symm⟩
        (hallow run.row (by simp [run.log]) c.entry hsince row hrival)

/-- **An import** commits the first one or nothing, and answers with the one there is. -/
theorem wp_import (hstart : Imported tenantId (Runtime.sha256 raw) lines g.db) :
    wp (importing ι tenantId (Runtime.sha256 raw) lines) me
      (Request.importStatement tenantId account raw lines).program
      (fun r g _ => ∀ a, r = .ok a → Answers tenantId (Runtime.sha256 raw) g a) g {} := by
  apply wp_program (P := fun r g _ => ∀ a, r = .ok a → Answers tenantId (Runtime.sha256 raw) g a)
  rw [Request.service, swp_map]
  refine swp_importStatement (fun _ _ _ _ _ _ hraised => by cases hraised)
    (fun found rest o' g' tx' search hfound reply hreply => ?_)
    fun run hallow => ⟨⟨⟨run.row, run.rows, imports_of_run me hallow⟩, run.whole.locked⟩,
      fun o' reply hreply => ?_⟩
  · -- it found an import: there is no other
    cases hreply
    obtain ⟨cs, hlogged, -⟩ := search.rely
    have honce := (imported_of_logged hlogged hstart).1.once
    rw [hfound, List.length_cons] at honce
    have hrest : rest = [] := List.eq_nil_of_length_eq_zero (by omega)
    exact ⟨_, found, rfl, by rw [hfound, hrest], rfl⟩
  · -- it created the import
    cases hreply
    obtain ⟨cs, hlogged, -⟩ := run.whole.rely
    have hfiled := (imported_of_logged hlogged hstart).1.filed
    exact ⟨_, run.row, rfl, ((imports_of_run me hallow).imported hfiled).1, rfl⟩

/-- The reply says that the call created the import. -/
def Reply.created : Reply → Bool
  | .imported r => r.created
  | _ => false

/-- A call says that it created the import exactly if its session has committed. -/
def Created : Result ι Write Reply := fun i wal reply =>
  reply.created = true ↔ ∃ e ∈ wal, e.who = i

omit [Runtime] in
theorem created_own : (Created : Result ι Write Reply).Own := by
  intro i wal es reply h hes
  unfold Created at h ⊢
  rw [h]
  constructor
  · rintro ⟨e, he, hi⟩
    exact ⟨e, List.mem_append_left es he, hi⟩
  · rintro ⟨e, he, hi⟩
    rcases List.mem_append.mp he with he | he
    · exact ⟨e, he, hi⟩
    · exact absurd hi (hes e he)

/-- Alone against any others, a call says whether it has committed. -/
theorem wp_created (i : ι) (d : Database) (clock : Time) :
    wp (.others i) i (Request.importStatement tenantId account raw lines).program
      (Result.post Created i) ⟨d, clock, []⟩ {} := by
  apply wp_program
  rw [Request.service, swp_map]
  refine swp_importStatement (fun _ _ _ _ _ => trivial)
    (fun found rest o' g' tx' search hfound => ?_) fun run _ => ⟨trivial, fun o' => ?_⟩
  · show false = true ↔ ∃ e ∈ g'.wal, e.who = i
    obtain ⟨es, hwal, hes⟩ := search.rely
    rw [hwal]
    simpa using hes
  · have hmine : (⟨i, run.g.clock, run.tx.log⟩ : Entry ι Write) ∈ (run.g.commit i run.tx).wal := by
      simp [Shared.commit]
    exact iff_of_true rfl ⟨_, hmine, rfl⟩

/-- The tenant's one import of the file, in the run of `requests` up to `s`. -/
structure SingleImport (tenantId fileHash : String) (lines : List ParsedLine) (d : Database)
    (s : Sys ι Database Write Resource Err Reply) : Prop where
  /-- One import at most is committed, with each of the file's lines once. -/
  imported : Imported tenantId fileHash lines s.shared.db
  /-- Every call that returned has returned its id. -/
  answers : ∀ i reply, (s.sess i).prog = .ret reply → Answers tenantId fileHash s.shared reply
  /-- It has created the import exactly if it has committed. -/
  created : ∀ i reply, (s.sess i).prog = .ret reply → Created i s.shared.wal reply
  /-- There is no second commit. -/
  committed : s.shared.wal.length ≤ 1
  /-- When all calls have returned, one of them has created the import of a
      file that was new. -/
  one : d.importsOf tenantId fileHash = [] → Nonempty ι →
    (∀ i, ∃ reply, (s.sess i).prog = .ret reply) →
    ∃! i, ∃ reply, (s.sess i).prog = .ret reply ∧ reply.created = true

/-- **One import of a file** in every run whose commits are all unraced. -/
theorem imported_once [DecidableEq ι] (requests : ι → Request)
    (hreq : ∀ i, ∃ account, requests i = .importStatement tenantId account raw lines)
    (d : Database) (clock : Time) (hstart : Imported tenantId (Runtime.sha256 raw) lines d)
    {s : Sys ι Database Write Resource Err Reply}
    (hr : Sys.Reachable UnracedImport (serve requests d clock) s) :
    SingleImport tenantId (Runtime.sha256 raw) lines d s := by
  have hprog : ∀ i, wp (importing ι tenantId (Runtime.sha256 raw) lines) i (requests i).program
      (fun r g _ => ∀ a, r = .ok a → Answers tenantId (Runtime.sha256 raw) g a)
      ⟨d, clock, []⟩ {} := by
    intro i
    obtain ⟨account, hri⟩ := hreq i
    rw [hri]
    exact wp_import hstart
  have hsound : (importing ι tenantId (Runtime.sha256 raw) lines).Sound := RG.logging_sound _ _
  have hinit : (serve requests d clock).Initial := ⟨rfl, fun _ => rfl⟩
  have hv : Verified (importing ι tenantId (Runtime.sha256 raw) lines) (serve requests d clock) :=
    .initial hinit fun i => wp_mono (fun _ _ _ _ => trivial) (hprog i)
  -- what was committed, and what each request was answered
  obtain ⟨-, cs, hlogged, -⟩ := hv.reachable hsound hr
  obtain ⟨himported, hcases⟩ := imported_of_logged hlogged hstart
  have hwal : s.shared.wal = cs.map Commit.entry := hlogged.wal
  have hanswers : ∀ i reply, (s.sess i).prog = .ret reply →
      Answers tenantId (Runtime.sha256 raw) s.shared reply := by
    intro i reply hret
    exact hv.returned hsound (fun _ _ _ hrely h => h.stays hrely) (hprog i) hr hret
  have hcreated : ∀ i reply, (s.sess i).prog = .ret reply → Created i s.shared.wal reply := by
    intro i reply hret
    have hown : ∀ j, wp (.others j) j (requests j).program (Result.post Created j)
        ⟨d, clock, []⟩ {} := by
      intro j
      obtain ⟨account, hrj⟩ := hreq j
      rw [hrj]
      exact wp_created j d clock
    exact created_own.returned hown hr hret
  refine ⟨himported, hanswers, hcreated, ?_, fun hnew _ hall => ?_⟩
  · rw [hwal, List.length_map]
    rcases hcases with ⟨rfl, -⟩ | ⟨-, c, row, rfl, -⟩ <;> simp
  · obtain ⟨i⟩ := ‹Nonempty ι›
    obtain ⟨reply, hret⟩ := hall i
    obtain ⟨r, row, rfl, honly, -⟩ := hanswers i reply hret
    rcases hcases with ⟨-, hsame : s.shared.db = d⟩ | ⟨-, c, row, rfl, -⟩
    · -- without a commit there would be no import to answer with
      rw [hsame, hnew] at honly
      cases honly
    · -- the one commit belongs to the one request that is told so
      have hmine : ∀ j, (∃ e ∈ s.shared.wal, e.who = j) ↔ j = c.who := by
        intro j
        simp [hwal, Commit.entry, eq_comm]
      obtain ⟨reply', hret'⟩ := hall c.who
      refine ⟨c.who, ⟨reply', hret', (hcreated c.who reply' hret').mpr ((hmine _).mpr rfl)⟩, ?_⟩
      rintro j ⟨replyj, hretj, hcreatedj⟩
      exact (hmine j).mp ((hcreated j replyj hretj).mp hcreatedj)

end runs

open Sample

/-- Two uploads of one file. -/
def uploadTwice : Fin 2 → Request :=
  fun _ => .importStatement "acme" alice "statement" [⟨5, 0, "a"⟩, ⟨7, 0, "b"⟩]

/-- One after the other, the second answers with the import of the first. -/
theorem imported_once_in_turn : ∃ s, Sys.Reachable UnracedImport (serve uploadTwice funded 0) s ∧
    (∀ i, ∃ reply, (s.sess i).prog = .ret reply) ∧
    SingleImport "acme" (Runtime.sha256 "statement") [⟨5, 0, "a"⟩, ⟨7, 0, "b"⟩] funded s := by
  obtain ⟨s, hr, hp⟩ := Sys.Reachable.of_quiet_exec (s := serve uploadTwice funded 0)
    unracedImport_of_quiet (Sys.turns 0 2000 20 ++ Sys.turns 1 3000 20)
    (fun s => (List.finRange 2).all fun i => !(s.returning i).isEmpty) (by decide +kernel)
  have hreached : Reached (fun _ _ => True) funded := Reached.empty.script (by decide +kernel)
  have hstart : Imported "acme" (Runtime.sha256 "statement") [⟨5, 0, "a"⟩, ⟨7, 0, "b"⟩] funded :=
    .of_none (filed_of_reached hreached) (by decide +kernel) _
  have hsingle := imported_once uploadTwice (fun _ => ⟨alice, rfl⟩) funded 0 hstart hr
  refine ⟨s, hr, fun i => ?_, hsingle⟩
  have hi := List.all_eq_true.mp hp i (List.mem_finRange i)
  obtain ⟨p, hret⟩ := List.exists_mem_of_ne_nil (s.returning i) (by simpa using hi)
  exact ⟨p.2, (Sys.mem_returning.mp hret).2⟩

/-- Both look for an earlier import before either commits: the file is
    imported twice, and both calls have created it. -/
theorem imported_twice : ∃ s, Sys.Reachable Sys.all (serve uploadTwice funded 0) s ∧
    (s.shared.db.importsOf "acme" (Runtime.sha256 "statement")).length = 2 ∧
    ∀ i, ∃ reply, (s.sess i).prog = .ret reply ∧ reply.created = true := by
  obtain ⟨s, hr, hp⟩ := Sys.Reachable.of_exec (s := serve uploadTwice funded 0)
    (Sys.turns 0 2000 1 ++ Sys.turns 1 3000 20 ++ Sys.turns 0 2100 20)
    (fun s => (s.shared.db.importsOf "acme" (Runtime.sha256 "statement")).length == 2 &&
      (List.finRange 2).all fun i => (s.returning i).any fun p => p.2.created)
    (by decide +kernel)
  rw [Bool.and_eq_true] at hp
  refine ⟨s, hr, by simpa using hp.1, fun i => ?_⟩
  have hi := List.all_eq_true.mp hp.2 i (List.mem_finRange i)
  obtain ⟨p, hret, hcreated⟩ := List.any_eq_true.mp hi
  exact ⟨p.2, (Sys.mem_returning.mp hret).2, hcreated⟩

end Ledger
