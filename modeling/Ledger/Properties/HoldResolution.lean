import Ledger.Runs.Sessions

/-! # Resolving a Hold

    Captures and releases of holds, in any number and interleaved in any way.
    Each reads the state of its hold in its first statement and never again;
    its update of the hold is not conditional on the old state.

    * **Lifecycle**: `Evolves`, what a stretch of commits may do to one hold,
      and how many transactions it posted for it.
    * **Condition**: `Undisturbed`, no capture or release of the hold commits
      between the first statement of another one and its commit, two releases
      apart.
    * **Result**: then a hold is resolved at most once.
-/

namespace Ledger

open ReadCommitted

/-! ## Lifecycle -/

/-- The write captures the hold. -/
def Write.captures (id : UUID) : Write → Bool
  | .captureHold i _ _ _ => i = id
  | _ => false

/-- The write releases the hold. -/
def Write.releases (id : UUID) : Write → Bool
  | .releaseHold i _ => i = id
  | _ => false

section lifecycle

variable {ι : Type}

/-- The transactions that a stretch of commits posted for a hold. -/
def postedFor (es : List (Entry ι Write)) (id : UUID) : List UUID :=
  es.flatMap fun e => e.writes.filterMap fun
    | .captureHold i t _ _ => if i = id then some t else none
    | _ => none

@[simp] theorem postedFor_nil (id : UUID) : postedFor ([] : List (Entry ι Write)) id = [] := rfl

@[simp] theorem postedFor_append (es fs : List (Entry ι Write)) (id : UUID) :
    postedFor (es ++ fs) id = postedFor es id ++ postedFor fs id := by
  simp [postedFor]

/-- A commit of the stretch captured or released the hold. -/
def Touched (es : List (Entry ι Write)) (id : UUID) : Prop :=
  ∃ e ∈ es, ∃ w ∈ e.writes, w.captures id = true ∨ w.releases id = true

theorem Touched.of_postedFor {es : List (Entry ι Write)} {id : UUID} (h : postedFor es id ≠ []) :
    ∃ e ∈ es, ∃ w ∈ e.writes, w.captures id = true := by
  obtain ⟨t, ht⟩ := List.exists_mem_of_ne_nil _ h
  simp only [postedFor, List.mem_flatMap, List.mem_filterMap] at ht
  obtain ⟨e, he, w, hw, hwt⟩ := ht
  refine ⟨e, he, w, hw, ?_⟩
  cases w <;> simp_all [Write.captures]

/-- The hold is in the same state, with the same outcome. -/
structure Hold.Same (h h' : Hold) : Prop where
  state : h'.state = h.state
  transaction : h'.capturedTransactionId = h.capturedTransactionId
  amount : h'.capturedAmount = h.capturedAmount

/-- What a stretch of commits did to a hold. -/
inductive Evolves (es : List (Entry ι Write)) (id : UUID) (h h' : Hold) : Prop where
  | unchanged (heq : h' = h) (hposted : postedFor es id = [])
  /-- A resolved hold keeps its outcome. -/
  | settled (hstate : h.state ≠ .ACTIVE) (hsame : h.Same h') (hposted : postedFor es id = [])
  | captured (hstate : h.state = .ACTIVE) (hstate' : h'.state = .CAPTURED)
      (hposted : (postedFor es id).length = 1)
  | released (hstate : h.state = .ACTIVE) (hstate' : h'.state = .RELEASED)
      (htransaction : h'.capturedTransactionId = h.capturedTransactionId)
      (hposted : postedFor es id = []) (htouched : Touched es id)

/-- One stretch after another. -/
theorem Evolves.trans {es fs : List (Entry ι Write)} {id : UUID} {h h' h'' : Hold}
    (h₁ : Evolves es id h h') (h₂ : Evolves fs id h' h'') : Evolves (es ++ fs) id h h'' := by
  have htouch : Touched fs id → Touched (es ++ fs) id := by
    rintro ⟨e, he, hw⟩
    exact ⟨e, by simp [he], hw⟩
  have htouch' : Touched es id → Touched (es ++ fs) id := by
    rintro ⟨e, he, hw⟩
    exact ⟨e, by simp [he], hw⟩
  cases h₁ with
  | unchanged heq hposted =>
    subst heq
    cases h₂ with
    | unchanged heq' hposted' => exact .unchanged heq' (by simp [hposted, hposted'])
    | settled hs hsame hposted' => exact .settled hs hsame (by simp [hposted, hposted'])
    | captured hs hs' hposted' => exact .captured hs hs' (by simp [hposted, hposted'])
    | released hs hs' ht hposted' ht' =>
      exact .released hs hs' ht (by simp [hposted, hposted']) (htouch ht')
  | settled hs hsame hposted =>
    have hs' : h'.state ≠ .ACTIVE := hsame.state ▸ hs
    cases h₂ with
    | unchanged heq' hposted' => exact .settled hs (heq' ▸ hsame) (by simp [hposted, hposted'])
    | settled _ hsame' hposted' =>
      exact .settled hs ⟨hsame'.state.trans hsame.state,
        hsame'.transaction.trans hsame.transaction, hsame'.amount.trans hsame.amount⟩
        (by simp [hposted, hposted'])
    | captured hs₂ => exact absurd hs₂ hs'
    | released hs₂ => exact absurd hs₂ hs'
  | captured hs hs' hposted =>
    cases h₂ with
    | unchanged heq' hposted' => exact .captured hs (heq' ▸ hs') (by simp [hposted, hposted'])
    | settled _ hsame' hposted' =>
      exact .captured hs (hsame'.state.trans hs') (by simp [hposted, hposted'])
    | captured hs₂ => rw [hs'] at hs₂; cases hs₂
    | released hs₂ => rw [hs'] at hs₂; cases hs₂
  | released hs hs' ht hposted ht' =>
    cases h₂ with
    | unchanged heq' hposted' =>
      exact .released hs (heq' ▸ hs') (heq' ▸ ht) (by simp [hposted, hposted']) (htouch' ht')
    | settled _ hsame' hposted' =>
      exact .released hs (hsame'.state.trans hs') (hsame'.transaction.trans ht)
        (by simp [hposted, hposted']) (htouch' ht')
    | captured hs₂ => rw [hs'] at hs₂; cases hs₂
    | released hs₂ => rw [hs'] at hs₂; cases hs₂

/-- A hold the stretch did not touch is the same row. -/
theorem Evolves.eq_of_untouched {es : List (Entry ι Write)} {id : UUID} {h h' : Hold}
    (h₁ : Evolves es id h h') (hactive : h.state = .ACTIVE) (hun : ¬ Touched es id) : h' = h := by
  cases h₁ with
  | unchanged heq => exact heq
  | settled hs => exact absurd hactive hs
  | captured _ _ hposted =>
    have hne : postedFor es id ≠ [] := by
      intro h0
      simp [h0] at hposted
    obtain ⟨e, he, w, hw, hc⟩ := Touched.of_postedFor hne
    exact absurd ⟨e, he, w, hw, .inl hc⟩ hun
  | released _ _ _ _ ht => exact absurd ht hun

end lifecycle

/-! ## Condition -/

/-- Since the first statement of the session, no other commit captured the
    hold it is about to resolve, nor released the hold it is about to capture. -/
def Undisturbed {ι : Type} : Sys.Allow ι Database Write Resource := fun _ tx g =>
  ∀ id, ∀ w ∈ tx.log, ∀ e ∈ g.wal.drop tx.began, ∀ v ∈ e.writes,
    (w.captures id = true → v.captures id = false ∧ v.releases id = false) ∧
    (w.releases id = true → v.captures id = false)

theorem undisturbed_of_quiet {ι : Type} (i : ι) (tx : Tx Write Resource)
    (g : Shared ι Database Write) (h : g.wal.drop tx.began = []) : Undisturbed i tx g := by
  intro id w _ e he
  rw [h] at he
  cases he

namespace HoldResolution

variable {ι : Type}

/-- What any stretch of commits does, whoever keeps which locks. -/
structure Rely (g g' : Shared ι Database Write) : Prop where
  evolves : ∃ es, g'.wal = g.wal ++ es ∧
    (∀ id h, g.db.holds.find? id = some h →
      ∃ h', g'.db.holds.find? id = some h' ∧ Evolves es id h h') ∧
    -- a transaction is posted by the capture of a hold only
    ∀ e ∈ es, ∀ txn, .insTransaction txn ∈ e.writes → ∃ id, txn.id ∈ postedFor [e] id

def rg (ι : Type) : RG ι Database Write Resource where
  rely _ := Rely
  allow := Undisturbed
  guar _ _ := Rely
  rely_refl _ g := ⟨[], by simp, fun _ h hfind => ⟨h, hfind, .unchanged rfl rfl⟩, by simp⟩
  rely_trans := by
    rintro _ g₁ g₂ g₃ ⟨es, hwal, hholds, hposts⟩ ⟨fs, hwal', hholds', hposts'⟩
    refine ⟨es ++ fs, by rw [hwal', hwal, List.append_assoc], fun id h hfind => ?_, ?_⟩
    · obtain ⟨h', hfind', hev⟩ := hholds id h hfind
      obtain ⟨h'', hfind'', hev'⟩ := hholds' id h' hfind'
      exact ⟨h'', hfind'', hev.trans hev'⟩
    · intro e he
      rcases List.mem_append.mp he with he | he
      · exact hposts e he
      · exact hposts' e he
  rely_mono _ h := h

theorem sound : (rg ι).Sound where
  tick _ _ _ _ := ⟨[], by simp, fun _ h hfind => ⟨h, hfind, .unchanged rfl rfl⟩, by simp⟩
  commit _ _ _ hg _ _ := hg

/-- What other commits did to a hold since the transaction began. -/
theorem since_began {ws : List Write} {gH g : Shared ι Database Write}
    {txH tx : Tx Write Resource} (hp : Progress (rg ι) ws gH txH g tx)
    (hbegan : txH = ({} : Tx Write Resource).openAt gH.clock gH.wal.length) {id : UUID} {h : Hold}
    (hfind : gH.db.holds.find? id = some h) :
    ∃ h', g.db.holds.find? id = some h' ∧ Evolves (g.wal.drop tx.began) id h h' := by
  obtain ⟨es, hwal, hholds, -⟩ := hp.rely
  obtain ⟨-, hb⟩ := start_of_began hbegan hp
  obtain ⟨h', hfind', hev⟩ := hholds id h hfind
  refine ⟨h', hfind', ?_⟩
  rw [hb, hwal, List.drop_left]
  exact hev

section requests

variable [Runtime] {me : ι} {g : Shared ι Database Write}

omit [Runtime] in
theorem holds_commit (tx : Tx Write Resource) :
    (g.commit me tx).db.holds = (replay g.db tx.log).holds := rfl

/-- A capture whose hold nobody resolved meanwhile. -/
theorem keeps_captureHold {tenantId : String} {id : UUID} {req : CaptureHoldRequest} :
    Keeps (rg ι) me (.captureHold tenantId id req) g := by
  rw [Keeps, Request.service, swp_map]
  refine swp_captureHold (mayRaise_trivial _ _) (fun _ _ _ _ _ _ _ _ _ _ _ _ => trivial)
    fun run hallow => ⟨?_, trivial⟩
  have hlog := run.log
  have hid := run.hold_id
  -- the row at the commit is the one that was read
  have hprogress : Progress (rg ι) run.ws run.gH run.txH run.g run.tx := by
    simpa using run.prelude.trans run.tail
  obtain ⟨h', hfind', hev⟩ := since_began hprogress run.began run.found
  have hcap : Write.captureHold run.hold.id run.txn.id run.amount run.gM.clock ∈ run.tx.log := by
    rw [hlog, CaptureRun.ws]; simp
  -- in an undisturbed run nobody has touched the hold since it was read
  have hun : ¬ Touched (run.g.wal.drop run.tx.began) id := by
    rintro ⟨e, he, v, hv, hvid⟩
    have := (hallow id _ hcap e he v hv).1 (by simp [Write.captures, hid])
    rw [this.1, this.2] at hvid
    simp at hvid
  have hrow := hev.eq_of_untouched run.active hun
  subst hrow
  -- what the commit writes to the holds
  have hholds : (replay run.g.db run.tx.log).holds =
      (run.g.db.apply (.captureHold run.hold.id run.txn.id run.amount run.gM.clock)).holds := by
    rw [hlog]
    exact holds_after_capture
  -- and what it posts is for this hold
  have hposted : ∀ i, postedFor [(⟨me, run.g.clock, run.tx.log⟩ : Entry ι Write)] i =
      if run.hold.id = i then [run.txn.id] else [] := by
    intro i
    have hlegs : (legWrites run.legs).filterMap (fun
        | .captureHold i' t _ _ => if i' = i then some t else none
        | _ => none) = [] := by
      rw [List.filterMap_eq_nil_iff]
      intro w hw
      rcases table_legWrites hw with h | h <;> cases w <;> simp_all [Write.table]
    simp only [postedFor, hlog, CaptureRun.ws, List.flatMap_cons, List.flatMap_nil, List.append_nil,
      List.filterMap_cons, List.filterMap_append, hlegs, List.nil_append, List.filterMap_nil,
      List.cons_append]
    split_ifs <;> rfl
  refine ⟨_, rfl, fun i h hfind => ?_, fun e he txn htxn => ?_⟩
  · rw [holds_commit, hholds]
    simp only [Database.apply]
    by_cases hi : i = run.hold.id
    · subst hi
      rw [hid, hfind'] at hfind
      cases hfind
      rw [Table.find?_modify_self, hid, hfind']
      refine ⟨_, rfl, .captured run.active rfl ?_⟩
      rw [hposted, if_pos hid]
      rfl
    · rw [Table.find?_modify_of_ne _ _ _ hi, hfind]
      refine ⟨h, rfl, .unchanged rfl ?_⟩
      rw [hposted, if_neg (Ne.symm hi)]
  · rw [List.mem_singleton] at he
    subst he
    refine ⟨run.hold.id, ?_⟩
    rw [hposted, if_pos rfl]
    have : txn = run.txn := by
      simp only [hlog, CaptureRun.ws, List.cons_append, List.mem_cons, List.mem_append,
        List.not_mem_nil, or_false, reduceCtorEq, Write.insTransaction.injEq] at htxn
      rcases htxn with h | h
      · exact h
      · rcases table_legWrites h with h | h <;> cases h
    simp [this]

/-- A release whose hold nobody captured meanwhile. -/
theorem keeps_releaseHold {tenantId : String} {id : UUID} :
    Keeps (rg ι) me (.releaseHold tenantId id) g := by
  rw [Keeps, Request.service, swp_map]
  refine swp_releaseHold (mayRaise_trivial _ _) (fun _ _ _ _ _ _ _ _ _ _ _ _ => trivial)
    fun run hallow => ⟨?_, fun _ _ _ _ _ => trivial⟩
  have hlog := run.log
  have hid := run.hold_id
  obtain ⟨h', hfind', hev⟩ := since_began run.tail run.began run.found
  have hrel : Write.releaseHold run.hold.id run.gM.clock ∈ run.tx.log := by rw [hlog]; simp
  have huncaptured : postedFor (run.g.wal.drop run.tx.began) id = [] := by
    by_contra hne
    obtain ⟨e, he, v, hv, hc⟩ := Touched.of_postedFor hne
    have := (hallow id _ hrel e he v hv).2 (by simp [Write.releases, hid])
    rw [this] at hc
    cases hc
  refine ⟨[⟨me, run.g.clock, run.tx.log⟩], rfl, fun i h hfind => ?_, fun e he txn htxn => ?_⟩
  · have hposted : postedFor [(⟨me, run.g.clock, run.tx.log⟩ : Entry ι Write)] i = [] := by
      simp [postedFor, hlog]
    have hholds : (replay run.g.db run.tx.log).holds =
        (run.g.db.apply (.releaseHold run.hold.id run.gM.clock)).holds := by
      rw [hlog]
      rfl
    rw [holds_commit, hholds]
    simp only [Database.apply]
    by_cases hi : i = run.hold.id
    · subst hi
      rw [hid, hfind'] at hfind
      cases hfind
      rw [Table.find?_modify_self, hid, hfind']
      refine ⟨_, rfl, ?_⟩
      have htouched : Touched [(⟨me, run.g.clock, run.tx.log⟩ : Entry ι Write)] run.hold.id :=
        ⟨_, List.mem_singleton.mpr rfl, _, hrel, .inr (by simp [Write.releases])⟩
      rw [hid] at hposted htouched
      -- other releases may have committed in between
      cases hev with
      | unchanged heq _ =>
        exact .released (heq ▸ run.active) rfl rfl hposted htouched
      | settled hs => exact absurd run.active hs
      | captured _ _ hone => rw [huncaptured] at hone; cases hone
      | released _ hs' _ _ _ =>
        exact .settled (by simp [hs']) ⟨hs'.symm, rfl, rfl⟩ hposted
    · rw [Table.find?_modify_of_ne _ _ _ hi, hfind]
      exact ⟨h, rfl, .unchanged rfl hposted⟩
  · rw [List.mem_singleton] at he
    subst he
    simp [hlog] at htxn

end requests

end HoldResolution

/-- The requests that resolve holds. -/
def Request.Resolves : Request → Prop
  | .captureHold .. | .releaseHold .. => True
  | _ => False

/-- The hold was resolved at most once in the run up to `s`, and stays as it was resolved. -/
structure ResolvedOnce [Runtime] {ι : Type} [DecidableEq ι]
    (s : Sys ι Database Write Resource Err Reply) (id : UUID) : Prop where
  once : (postedFor s.shared.wal id).length ≤ 1
  /-- No transaction was posted but by the capture of a hold. -/
  accounted : ∀ e ∈ s.shared.wal, ∀ txn, .insTransaction txn ∈ e.writes →
    ∃ i, txn.id ∈ postedFor [e] i
  released : ∀ h, s.shared.db.holds.find? id = some h → h.state = .RELEASED →
    h.capturedTransactionId = none ∧ postedFor s.shared.wal id = []
  settled : ∀ s', Sys.Reachable Undisturbed s s' → ∀ h, s.shared.db.holds.find? id = some h →
    h.state ≠ .ACTIVE → ∃ h', s'.shared.db.holds.find? id = some h' ∧ h.Same h'

/-- **A hold is resolved at most once** in every run whose commits are all
    undisturbed. -/
theorem resolved_once [Runtime] {ι : Type} [DecidableEq ι] (requests : ι → Request)
    (hreq : ∀ i, (requests i).Resolves) (d : Database) (clock : Time) (id : UUID) (h₀ : Hold)
    (hfound : d.holds.find? id = some h₀)
    (hfresh : h₀.state ≠ .CAPTURED → h₀.capturedTransactionId = none)
    {s : Sys ι Database Write Resource Err Reply}
    (hr : Sys.Reachable Undisturbed (serve requests d clock) s) : ResolvedOnce s id := by
  have hk : ∀ i, Keeps (HoldResolution.rg ι) i (requests i) ⟨d, clock, []⟩ := by
    intro i
    have := hreq i
    cases hri : requests i with
    | captureHold tenantId hold req => exact HoldResolution.keeps_captureHold
    | releaseHold tenantId hold => exact HoldResolution.keeps_releaseHold
    | _ => rw [hri] at this; exact this.elim
  obtain ⟨hv, es, hwal, hholds, hposts⟩ := serve_reachable HoldResolution.sound hk hr
  obtain ⟨h, hfind, hev⟩ := hholds id h₀ hfound
  rw [List.nil_append] at hwal
  subst hwal
  refine ⟨?_, hposts, fun h' hfind' hreleased => ?_, fun s' hr' h' hfind' hresolved => ?_⟩
  · cases hev <;> simp_all
  · rw [hfind] at hfind'
    cases hfind'
    cases hev with
    | unchanged heq hposted =>
      subst heq
      exact ⟨hfresh (by simp [hreleased]), hposted⟩
    | settled hs hsame hposted =>
      refine ⟨?_, hposted⟩
      rw [hsame.transaction]
      exact hfresh (by simp [← hsame.state, hreleased])
    | captured _ hs' => rw [hreleased] at hs'; cases hs'
    | released hs _ ht hposted _ => exact ⟨ht.trans (hfresh (by simp [hs])), hposted⟩
  · obtain ⟨-, fs, -, hholds', -⟩ := hv.reachable HoldResolution.sound hr'
    obtain ⟨h'', hfind'', hev'⟩ := hholds' id h' hfind'
    refine ⟨h'', hfind'', ?_⟩
    cases hev' with
    | unchanged heq _ => subst heq; exact ⟨rfl, rfl, rfl⟩
    | settled _ hsame _ => exact hsame
    | captured hs => exact absurd hs hresolved
    | released hs => exact absurd hs hresolved

open Sample

/-- The sample ledger with a hold on Alice's account. -/
def reserved : Database :=
  script (setup ++ [(reserve 100 60000000 "h1" hundred_pos, envAt 0 3000)]) .empty

/-- A capture, and a release that comes too late. -/
def captureThenRelease : Fin 2 → Request
  | 0 => capture 3005
  | 1 => .releaseHold "acme" 3005

theorem resolved_once_late : ∃ s,
    Sys.Reachable Undisturbed (serve captureThenRelease reserved 0) s ∧
      postedFor s.shared.wal 3005 ≠ [] ∧ ResolvedOnce s 3005 := by
  obtain ⟨s, hr, hp⟩ := Sys.Reachable.of_quiet_exec (s := serve captureThenRelease reserved 0)
    undisturbed_of_quiet (Sys.turns 0 4000 40 ++ Sys.turns 1 5000 10)
    (fun s => decide (postedFor s.shared.wal 3005 ≠ [])) (by decide +kernel)
  have hfresh : (reserved.holds.find? 3005).any (·.capturedTransactionId = none) = true := by
    decide +kernel
  obtain ⟨h₀, hfound, hnone⟩ := (Option.any_eq_true _ _).mp hfresh
  exact ⟨s, hr, by simpa using hp, resolved_once captureThenRelease
    (fun | 0 => trivial | 1 => trivial) reserved 0 3005 h₀ hfound
    (fun _ => by simpa using hnone) hr⟩

/-- Two captures of one hold. -/
def captureTwice : Fin 2 → Request := fun _ => capture 3005

/-- The first reads the hold, then the second runs to its commit, then the
    first goes on: both post a transaction. -/
theorem captured_twice : ∃ s, Sys.Reachable Sys.all (serve captureTwice reserved 0) s ∧
    (postedFor s.shared.wal 3005).length = 2 := by
  obtain ⟨s, hr, hp⟩ := Sys.Reachable.of_exec (s := serve captureTwice reserved 0)
    (Sys.turns 0 4000 3 ++ Sys.turns 1 5000 40 ++ Sys.turns 0 4100 40)
    (fun s => (postedFor s.shared.wal 3005).length == 2) (by decide +kernel)
  exact ⟨s, hr, by simpa using hp⟩

end Ledger
