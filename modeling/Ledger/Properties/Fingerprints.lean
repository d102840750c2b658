import Ledger.Runs.Replays

/-! # Fingerprints Identify Requests

    A retry is recognized by the digest of its body's text, which is written
    with the fields in the order of their names.

    * **Bodies**: `Body`, a dictionary of integers, nulls and strings, and
      `Json.SameFields`, equality of dictionaries.
    * **Text**: `fingerprint_iff`, equal digests are equal dictionaries.
    * **Result**: `fingerprint_identifies`, for the keyed endpoints.
-/

/-- Two objects have the same fields with the same values. -/
def Json.SameFields (a b : Json) : Prop := ∀ name, a.field? name = b.field? name

namespace Ledger

open ReadCommitted

/-- A request body: no two fields have one name. -/
structure Body where
  fields : List (String × Json)
  flat : ∀ f ∈ fields, f.2.Flat
  distinct : (fields.map Prod.fst).Nodup

/-- The document of a body. -/
def Body.json (b : Body) : Json := .obj b.fields

namespace Body

/-- A field is what its name looks up. -/
theorem mem_fields (b : Body) {name : String} {v : Json} :
    (name, v) ∈ b.fields ↔ b.json.field? name = some v := by
  unfold json Json.field?
  simp only [Option.map_eq_some_iff]
  constructor
  · intro h
    refine ⟨(name, v), ?_, rfl⟩
    cases hfind : b.fields.find? (fun f => f.1 = name) with
    | none => exact absurd (decide_eq_true rfl) (List.find?_eq_none.mp hfind _ h)
    | some f =>
      -- another field of the name would be this one
      have hname : f.1 = name := by simpa using List.find?_some hfind
      have hf : f ∈ b.fields := List.mem_of_find?_eq_some hfind
      rw [List.inj_on_of_nodup_map b.distinct hf h hname]
  · rintro ⟨f, hfind, rfl⟩
    have hname : f.1 = name := by simpa using List.find?_some hfind
    rw [← hname]
    exact List.mem_of_find?_eq_some hfind

/-- Dictionaries are equal when one lists the fields of the other. -/
theorem perm_iff {b b' : Body} : b.fields.Perm b'.fields ↔ b.json.SameFields b'.json := by
  have hnd : ∀ b : Body, b.fields.Nodup := fun b => b.distinct.of_map
  rw [List.perm_ext_iff_of_nodup (hnd b) (hnd b')]
  constructor
  · intro h name
    apply Option.ext
    intro v
    rw [← mem_fields, ← mem_fields]
    exact h (name, v)
  · intro h f
    obtain ⟨name, v⟩ := f
    rw [mem_fields, mem_fields, h name]

variable [Runtime]

/-- **Equal digests are equal dictionaries**, in whatever order they were built. -/
theorem fingerprint_iff (hsha : Function.Injective Runtime.sha256) (b b' : Body) :
    fingerprint b.json = fingerprint b'.json ↔ b.json.SameFields b'.json := by
  rw [← perm_iff]
  constructor
  · intro h
    exact Json.perm_of_sortKeys_eq b.flat b'.flat (Json.dumps_injective .compact (hsha h))
  · intro h
    have hsorted := Json.sortKeys_eq_of_perm b.flat b'.flat b.distinct h
    unfold fingerprint json
    rw [hsorted]

end Body

section requests

variable [Runtime] {r r' : Request} {reply : Reply} {stored : IdempotencyRecord} {k : RecordKey}
  {body body' : Json} {env : Env} {d : Database}

/-- The body of a keyed request is one. -/
theorem Request.exists_body (h : r.keyed = some (k, body)) : ∃ b : Body, b.json = body := by
  obtain ⟨fs, rfl, hflat, hnd⟩ := keyed_flat h
  exact ⟨⟨fs, hflat, hnd⟩, rfl⟩

/-- A request that runs alone and finds a record is answered by it. -/
theorem executed_lookup (h : r.keyed = some (k, body)) (hfind : d.records.find? k = some stored) :
    r.executed env d = ((r.replayed k.key body stored).solo env 1 d
      (({} : Tx Write Resource).openAt (env.clock 0) 0)) := by
  obtain ⟨cont, hprog, hcont⟩ := Request.program_lookup h
  rw [← hcont stored, Request.executed, hprog]
  simp only [Prog.solo, replay_nil, hfind, Tx.write_nil]

/-- A record tells the bodies apart that come with its key. -/
theorem replayOf_iff (hsha : Function.Injective Runtime.sha256) (hs : r.Stores reply stored)
    (h : r.keyed = some (stored.id, body)) (h' : r'.keyed = some (stored.id, body')) :
    (body'.SameFields body → ∃ response, Json.loads stored.responseJson = some response ∧
      replayOf stored.id.key body' stored = .ok ⟨stored.statusCode, response⟩) ∧
    (¬ body'.SameFields body →
      replayOf stored.id.key body' stored = .error (Request.conflict stored.id.key)) := by
  obtain ⟨body₀, hbody₀, hprint⟩ := hs.keyed
  rw [h] at hbody₀
  obtain rfl : body = body₀ := by simpa using hbody₀
  obtain ⟨b, rfl⟩ := Request.exists_body h
  obtain ⟨b', rfl⟩ := Request.exists_body h'
  have hiff := Body.fingerprint_iff hsha b' b
  constructor
  · intro hsame
    have hloads : ∃ response, Json.loads stored.responseJson = some response := by
      cases hs <;> exact ⟨_, Json.loads_dumps _ _⟩
    obtain ⟨response, hresponse⟩ := hloads
    refine ⟨response, hresponse, ?_⟩
    unfold replayOf
    rw [if_neg (by rw [hprint, hiff.mpr hsame]; exact not_not.mpr rfl), hresponse]
  · intro hother
    unfold replayOf
    rw [if_pos (by rw [hprint]; exact fun heq => hother (hiff.mp heq.symm))]
    rfl

/-- The record's request is answered by the record. -/
theorem executed_replays (h' : r'.keyed = some (stored.id, body'))
    (hfind : d.records.find? stored.id = some stored) {response : Json}
    (hreplay : replayOf stored.id.key body' stored = .ok ⟨stored.statusCode, response⟩) :
    r'.executed env d =
      ((r'.answer ⟨stored.statusCode, response⟩).elim (.error .validationError) .ok, d) := by
  rw [executed_lookup h' hfind, Request.replayed, hreplay]
  show Prog.solo env (Request.ending (r'.answer ⟨stored.statusCode, response⟩)) _ _ _ = _
  cases r'.answer ⟨stored.statusCode, response⟩ <;> rfl

/-- Any other request with its key is rejected. -/
theorem executed_conflicts (h' : r'.keyed = some (stored.id, body'))
    (hfind : d.records.find? stored.id = some stored)
    (hconflict : replayOf stored.id.key body' stored = .error (Request.conflict stored.id.key)) :
    r'.executed env d = (.error (Request.conflict stored.id.key), d) := by
  rw [executed_lookup h' hfind, Request.replayed, hconflict]
  rfl

omit [Runtime] in
theorem str_injective : Function.Injective UUID.str := by
  intro x y h
  have hparse := congrArg UUID.parse? h
  rw [UUID.parse?_str, UUID.parse?_str] at hparse
  exact Option.some.inj hparse

omit [Runtime] in
/-- The body of a reversal tells which transaction it reverses. -/
theorem reversal_sameFields {txn txn' : UUID} {req req' : ReverseTransactionRequest}
    (h : (req.modelDump txn).SameFields (req'.modelDump txn')) : txn = txn' ∧ req = req' := by
  have htxn := h "transaction_id"
  have hmemo := h "memo"
  unfold ReverseTransactionRequest.modelDump Json.field? Json.uuid at htxn hmemo
  simp only [List.find?_cons, decide_true, Option.map_some, Option.some.injEq, Json.str.injEq]
    at hmemo
  constructor
  · apply str_injective
    simpa using htxn
  · cases req
    cases req'
    exact congrArg _ hmemo

/-- **The fingerprint identifies the request**: equal digests are equal bodies,
    the key of an executed request replays its result to an equal body and
    conflicts with any other one, and so with the reversal of another
    transaction. -/
theorem fingerprint_identifies (hsha : Function.Injective Runtime.sha256) :
    (∀ b b' : Body, fingerprint b.json = fingerprint b'.json ↔ b.json.SameFields b'.json) ∧
    (∀ (r : Request) (k : RecordKey) (body : Json), r.keyed = some (k, body) →
      ∃ b : Body, b.json = body) ∧
    (∀ (r r' : Request) (reply : Reply) (stored : IdempotencyRecord) (body body' : Json),
      r.Stores reply stored → r.keyed = some (stored.id, body) →
      r'.keyed = some (stored.id, body') →
      ∀ (env : Env) (d : Database), d.records.find? stored.id = some stored →
        (body'.SameFields body → ∃ response, Json.loads stored.responseJson = some response ∧
          r'.executed env d =
            ((r'.answer ⟨stored.statusCode, response⟩).elim (.error .validationError) .ok, d)) ∧
        (¬ body'.SameFields body →
          r'.executed env d = (.error (Request.conflict stored.id.key), d))) ∧
    ∀ (t key : String) (txn txn' : UUID) (req req' : ReverseTransactionRequest) (reply : Reply)
      (stored : IdempotencyRecord), (Request.reverse t txn req key).Stores reply stored →
      txn' ≠ txn → ∀ (env : Env) (d : Database), d.records.find? stored.id = some stored →
        (Request.reverse t txn' req' key).executed env d = (.error (Request.conflict key), d) := by
  refine ⟨Body.fingerprint_iff hsha, fun r k body h => Request.exists_body h, ?_, ?_⟩
  · intro r r' reply stored body body' hs h h' env d hfind
    obtain ⟨hequal, hother⟩ := replayOf_iff hsha hs h h'
    constructor
    · intro hsame
      obtain ⟨response, hresponse, hreplay⟩ := hequal hsame
      exact ⟨response, hresponse, executed_replays h' hfind hreplay⟩
    · exact fun hdiffer => executed_conflicts h' hfind (hother hdiffer)
  · intro t key txn txn' req req' reply stored hs hne env d hfind
    cases hs with
    | reverse _ _ _ _ response time =>
      have hs := Request.Stores.reverse t txn req key response time
      have h' : (Request.reverse t txn' req' key).keyed =
          some (⟨t, REVERSE_ENDPOINT, key⟩, req'.modelDump txn') := rfl
      obtain ⟨-, hother⟩ := replayOf_iff hsha hs rfl h'
      refine executed_conflicts rfl hfind (hother fun hsame => hne ?_)
      exact (reversal_sameFields hsame).1

end requests

section

open Sample

/-- The record of the reversal of the sample funding. -/
def reversedFunding : IdempotencyRecord :=
  { id := ⟨"acme", REVERSE_ENDPOINT, "key"⟩,
    requestFingerprint := fingerprint ((⟨""⟩ : ReverseTransactionRequest).modelDump funding),
    responseJson := (ReversalResponse.modelDump ⟨2000, funding, "", 0⟩).dumps .spaced,
    statusCode := 200, createdAt := 0 }

/-- The key of one reversal does not reverse another transaction. -/
theorem fingerprint_identifies_reversals :
    (reverse 2007 "key").executed (envAt 0 3000)
        { Database.empty with records := .single reversedFunding } =
      (.error (Request.conflict "key"),
        { Database.empty with records := .single reversedFunding }) :=
  (fingerprint_identifies sha256_injective).2.2.2 "acme" "key" funding 2007 ⟨""⟩ ⟨""⟩ _
    reversedFunding (.reverse "acme" funding ⟨""⟩ "key" ⟨2000, funding, "", 0⟩ 0)
    (by decide) _ _ rfl

end

end Ledger
