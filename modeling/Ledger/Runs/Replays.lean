import Ledger.Runs.Sessions

/-! # Replays of Keyed Requests

    * **Keyed requests**: `Request.keyed`, the key of a request and the body
      its fingerprint is taken of.
    * **Records**: `Request.Stores`, the record an executed request leaves.
    * **Replay**: `replay_lookup`, what a request does whose lookup finds such
      a record.
-/

namespace Ledger

open ReadCommitted

variable [Runtime]

/-- The record key of a request, and the body that is fingerprinted. -/
def Request.keyed : Request → Option (RecordKey × Json)
  | .transfer t req key => some (⟨t, ENDPOINT, key⟩, req.modelDump)
  | .placeHold t req key => some (⟨t, PLACE_ENDPOINT, key⟩, req.modelDump)
  | .reverse t txn req key => some (⟨t, REVERSE_ENDPOINT, key⟩, req.modelDump txn)
  | _ => none

/-- The record of a request that was executed with the given reply. -/
inductive Request.Stores : Request → Reply → IdempotencyRecord → Prop where
  | transfer (t : String) (req : TransferRequest) (key : String) (response : TransferResponse)
      (time : Time) :
      Stores (.transfer t req key) (.transfer 200 response)
        { id := ⟨t, ENDPOINT, key⟩, requestFingerprint := fingerprint req.modelDump,
          responseJson := response.modelDump.dumps .spaced, statusCode := 200, createdAt := time }
  | placeHold (t : String) (req : PlaceHoldRequest) (key : String) (response : HoldResponse)
      (time : Time) :
      Stores (.placeHold t req key) (.placed 200 response)
        { id := ⟨t, PLACE_ENDPOINT, key⟩, requestFingerprint := fingerprint req.modelDump,
          responseJson := response.modelDump.dumps .spaced, statusCode := 200, createdAt := time }
  | reverse (t : String) (txn : UUID) (req : ReverseTransactionRequest) (key : String)
      (response : ReversalResponse) (time : Time) :
      Stores (.reverse t txn req key) (.reversal 200 response)
        { id := ⟨t, REVERSE_ENDPOINT, key⟩, requestFingerprint := fingerprint (req.modelDump txn),
          responseJson := response.modelDump.dumps .spaced, statusCode := 200, createdAt := time }

namespace Request

variable {r r' : Request} {reply : Reply} {stored : IdempotencyRecord} {k : RecordKey}
  {body body' : Json}

theorem Stores.keyed (h : r.Stores reply stored) : ∃ body, r.keyed = some (stored.id, body) ∧
    stored.requestFingerprint = fingerprint body := by
  cases h <;> exact ⟨_, rfl, rfl⟩

/-! ## Bodies -/

/-- The body of a keyed request is a flat object. -/
theorem keyed_flat (h : r.keyed = some (k, body)) :
    ∃ fs, body = .obj fs ∧ (∀ f ∈ fs, f.2.Flat) ∧ (fs.map Prod.fst).Nodup := by
  cases r with
  | transfer t req key =>
    cases h
    refine ⟨_, rfl, ?_, by simp⟩
    cases req.effectiveAt <;> simp [Json.Flat, Json.uuid, Json.opt, Json.time]
  | placeHold t req key =>
    cases h
    refine ⟨_, rfl, ?_, by simp⟩
    cases req.expiresAt <;> simp [Json.Flat, Json.uuid, Json.opt, Json.time]
  | reverse t txn req key =>
    cases h
    exact ⟨_, rfl, by simp [Json.Flat, Json.uuid], by simp⟩
  | _ => cases h

/-- Requests with one key have bodies with the same fields. -/
theorem keyed_fields {fs gs : List (String × Json)} (h : r.keyed = some (k, .obj fs))
    (h' : r'.keyed = some (k, .obj gs)) : fs.map Prod.fst = gs.map Prod.fst := by
  have hkey : ∀ {t t' key key' e e' : String}, (⟨t, e, key⟩ : RecordKey) = ⟨t', e', key'⟩ →
      e = e' := fun heq => (RecordKey.mk.inj heq).2.1
  cases r <;> cases r' <;> cases h <;>
    simp only [Request.keyed, Option.some.injEq, Prod.mk.injEq] at h' <;>
    first
      | exact absurd (hkey h'.1) (by decide)
      | (obtain ⟨-, h'⟩ := h'; cases h'; simp)
      | cases h'

/-- **Fingerprints tell bodies apart**: two requests with one key and one
    fingerprint have the same body. -/
theorem keyed_fingerprint (hsha : Function.Injective Runtime.sha256)
    (h : r.keyed = some (k, body)) (h' : r'.keyed = some (k, body')) :
    fingerprint body' = fingerprint body ↔ body' = body := by
  refine ⟨fun heq => ?_, fun heq => heq ▸ rfl⟩
  obtain ⟨fs, rfl, hflat, hnd⟩ := keyed_flat h
  obtain ⟨gs, rfl, hflat', -⟩ := keyed_flat h'
  have hsorted := Json.dumps_injective .compact (hsha heq)
  have hperm := Json.perm_of_sortKeys_eq hflat' hflat hsorted
  have hfields := keyed_fields h' h
  rw [Json.eq_of_perm hfields (hfields ▸ hnd) hperm]

/-! ## Lookup -/

/-- What the service answers from a replay. -/
def answer (replay : Replay) : Request → Option Reply
  | .transfer .. => (TransferResponse.modelValidate replay.body).map (.transfer replay.statusCode)
  | .placeHold .. => (HoldResponse.modelValidate replay.body).map (.placed replay.statusCode)
  | .reverse .. => (ReversalResponse.modelValidate replay.body).map (.reversal replay.statusCode)
  | _ => none

/-- The end of a session: it returns the reply, or fails as validation does. -/
def ending : Option Reply → Prog Database Write Resource Err Reply
  | some reply => .ret reply
  | none => .fail .validationError

/-- The end of a session whose lookup found a record. -/
def replayed (r : Request) (key : String) (body : Json) (stored : IdempotencyRecord) :
    Prog Database Write Resource Err Reply :=
  match replayOf key body stored with
  | .error e => .fail e
  | .ok p => ending (r.answer p)

omit [Runtime] in
theorem replayed_service {α : Type} (validate : Json → Option α) (f : Nat × α → Reply)
    (p : Replay) :
    ((f <$> Ledger.replayed validate p) {} >>= fun q => pure q.1) =
      ending ((validate p.body).map fun a => f (p.statusCode, a)) := by
  unfold Ledger.replayed
  cases validate p.body <;> rfl

/-- The first statement of a keyed request is its lookup, and a record it
    finds decides the rest. -/
theorem program_lookup (h : r.keyed = some (k, body)) :
    ∃ cont : Option IdempotencyRecord → Prog Database Write Resource Err Reply,
      r.program = .stmt (fun d _ => .ok (d.records.find? k, [])) cont ∧
      ∀ stored, cont (some stored) = r.replayed k.key body stored := by
  cases r with
  | transfer t req key =>
    cases h
    refine ⟨_, rfl, fun stored => ?_⟩
    dsimp only [Prog.bind]
    cases hr : replayOf key req.modelDump stored with
    | error e => simp only [Request.replayed, hr]; rfl
    | ok p =>
      simp only [Request.replayed, hr]
      exact replayed_service TransferResponse.modelValidate (fun r => .transfer r.1 r.2) p
  | placeHold t req key =>
    cases h
    refine ⟨_, rfl, fun stored => ?_⟩
    dsimp only [Prog.bind]
    cases hr : replayOf key req.modelDump stored with
    | error e => simp only [Request.replayed, hr]; rfl
    | ok p =>
      simp only [Request.replayed, hr]
      exact replayed_service HoldResponse.modelValidate (fun r => .placed r.1 r.2) p
  | reverse t txn req key =>
    cases h
    refine ⟨_, rfl, fun stored => ?_⟩
    dsimp only [Prog.bind]
    cases hr : replayOf key (req.modelDump txn) stored with
    | error e => simp only [Request.replayed, hr]; rfl
    | ok p =>
      simp only [Request.replayed, hr]
      exact replayed_service ReversalResponse.modelValidate (fun r => .reversal r.1 r.2) p
  | _ => cases h

/-! ## Replay -/

/-- The conflict a key raises that comes with another body. -/
def conflict (key : String) : Err :=
  .idempotencyConflict s!"key {Runtime.repr key} reused with a different body"

/-- The stored response is validated to the reply it was dumped from. -/
theorem Stores.answer (htimes : Runtime.TimesRoundTrip) (hs : r.Stores reply stored)
    (h' : r'.keyed = some (stored.id, body')) : ∃ response,
    Json.loads stored.responseJson = some response ∧
      r'.answer ⟨stored.statusCode, response⟩ = some reply := by
  cases hs <;> refine ⟨_, Json.loads_dumps _ _, ?_⟩ <;> cases r' <;>
    -- the endpoint of the key tells which kind of request this is
    simp only [Request.keyed, Option.some.injEq, Prod.mk.injEq, RecordKey.mk.injEq,
      reduceCtorEq] at h' <;>
    first
      | exact absurd h'.1.2.1 (by decide)
      | simp [Request.answer, TransferResponse.modelValidate_modelDump,
          HoldResponse.modelValidate_modelDump htimes,
          ReversalResponse.modelValidate_modelDump htimes]

/-- **A record answers for its request**: a request with the same key gets the
    stored reply if it has the same body, and a conflict otherwise. -/
theorem replayed_of_stores (hsha : Function.Injective Runtime.sha256)
    (htimes : Runtime.TimesRoundTrip) (hs : r.Stores reply stored)
    (h : r.keyed = some (stored.id, body)) (h' : r'.keyed = some (stored.id, body')) :
    (body' = body → r'.replayed stored.id.key body' stored = .ret reply) ∧
      (body' ≠ body → r'.replayed stored.id.key body' stored = .fail (conflict stored.id.key)) := by
  obtain ⟨body₀, hbody₀, hprint⟩ := hs.keyed
  rw [h] at hbody₀
  obtain rfl : body = body₀ := by simpa using hbody₀
  have hiff := keyed_fingerprint hsha h h'
  refine ⟨fun heq => ?_, fun hne => ?_⟩
  · have hsame : ¬ stored.requestFingerprint ≠ fingerprint body' := by
      rw [hprint, hiff.mpr heq]
      exact not_not.mpr rfl
    obtain ⟨response, hloads, hanswer⟩ := hs.answer htimes h'
    simp only [replayed, replayOf, if_neg hsame, hloads, hanswer, ending]
  · have hother : stored.requestFingerprint ≠ fingerprint body' := by
      rw [hprint]
      exact fun heq => hne (hiff.mp heq.symm)
    simp only [replayed, replayOf, if_pos hother, conflict]

end Request

/-- **A request whose lookup finds a record** changes nothing and is answered
    by the record. -/
theorem replay_lookup {ι : Type} [DecidableEq ι] {s : Sys ι Database Write Resource Err Reply}
    {j : ι} {r : Request} {k : RecordKey} {body : Json} {stored : IdempotencyRecord}
    (hsess : s.sess j = ⟨r.program, {}⟩) (h : r.keyed = some (k, body))
    (hfind : s.shared.db.records.find? k = some stored) (u : Nat) :
    (s.advance j u).shared = s.shared ∧
      ((s.advance j u).sess j).prog = r.replayed k.key body stored := by
  obtain ⟨cont, hprog, hcont⟩ := Request.program_lookup h
  have hview : s.view j = s.shared.db := by simp [Sys.view, hsess]
  have hadv : s.advance j u = s.setSess j ⟨cont (some stored), s.txAt j⟩ := by
    rw [Sys.advance]
    simp only [hsess, hprog, hview, hfind, Tx.write_nil]
  rw [hadv]
  exact ⟨rfl, by simpa using hcont stored⟩

end Ledger
