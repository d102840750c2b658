import Ledger.Runs.Effects

/-! # Sessions and Sequential Runs

    * **Concurrent**: `serve`, one session for each of any number of requests,
      and `serve_reachable`: if every request keeps a guarantee that the others
      rely on, then the rely relates any two states of any interleaving.
    * **Sequential**: `Request.executed`, one request alone on the database,
      and `executed_of_swp`, what a rule for every interference says about it;
      `Request.starts`, when its transactions have started.
-/

namespace Ledger

open ReadCommitted

variable {ι : Type} {rg : RG ι Database Write Resource} {me : ι}

theorem swp_map {α β : Type} {Q : Ret ι β} {E : Raised ι} {o : OrmSession}
    {g : Shared ι Database Write} {tx : Tx Write Resource} (f : α → β) (x : Svc α) :
    swp rg me (f <$> x) Q E o g tx ↔ swp rg me x (fun a o g tx => Q (f a) o g tx) E o g tx := by
  have hmap : f <$> x = x >>= fun a => pure (f a) := rfl
  rw [hmap, swp_bind]
  rfl

/-- The program of a request satisfies what its service does. -/
theorem wp_program [Runtime] {r : Request} {P : Post ι Database Write Resource Err Reply}
    {g : Shared ι Database Write}
    (h : swp rg me r.service (fun a _ g tx => P (.ok a) g tx) (fun e g tx => P (.error e) g tx) {} g
      {}) :
    wp rg me r.program P g {} := by
  rw [Request.program, wp_bind]
  refine wp_mono (fun r g tx hr => ?_) h
  cases r with
  | ok p => exact hr
  | error e => exact hr

theorem mayRaise_trivial (g : Shared ι Database Write) (tx : Tx Write Resource) :
    MayRaise rg (fun _ _ _ => True) g tx :=
  fun _ _ _ _ _ => trivial

/-! ## Concurrent Requests -/

/-- A transaction that was opened by the lookup carries the lookup's clock. -/
theorem start_of_began {ι : Type} {gL gS : Shared ι Database Write} {txL txS : Tx Write Resource}
    {rg : RG ι Database Write Resource} {ws : List Write}
    (hbegan : txL = ({} : Tx Write Resource).openAt gL.clock gL.wal.length)
    (h : Progress rg ws gL txL gS txS) : txS.start = some gL.clock ∧ txS.began = gL.wal.length := by
  have : txL.start = some gL.clock ∧ txL.began = gL.wal.length := by
    rw [hbegan]; exact ⟨rfl, rfl⟩
  obtain ⟨hs, hb⟩ := h.start _ this.1
  exact ⟨hs, hb.trans this.2⟩

/-- One session for each request, none of them started. -/
def serve [Runtime] (requests : ι → Request) (d : Database) (clock : Time) :
    Sys ι Database Write Resource Err Reply :=
  { shared := ⟨d, clock, []⟩, sess := fun i => ⟨(requests i).program, {}⟩ }

/-- The service of a request, whatever it returns or raises, keeps its guarantee. -/
def Keeps [Runtime] (rg : RG ι Database Write Resource) (me : ι) (r : Request)
    (g : Shared ι Database Write) : Prop :=
  swp rg me r.service (fun _ _ _ _ => True) (fun _ _ _ => True) {} g {}

/-- **Every interleaving** of requests that keep their guarantees moves by the rely. -/
theorem serve_reachable [Runtime] [DecidableEq ι] (hs : rg.Sound) {requests : ι → Request}
    {d : Database} {clock : Time} (hk : ∀ i, Keeps rg i (requests i) ⟨d, clock, []⟩)
    {s : Sys ι Database Write Resource Err Reply}
    (hr : Sys.Reachable rg.allow (serve requests d clock) s) :
    Verified rg s ∧ rg.rely [] ⟨d, clock, []⟩ s.shared := by
  have hinit : (serve requests d clock).Initial := ⟨rfl, fun _ => rfl⟩
  refine (Verified.initial hinit fun i => ?_).reachable hs hr
  exact wp_program (P := fun _ _ _ => True) (hk i)

/-! ## Sequential Requests -/

/-- A request alone on the database: what it returned or raised, and the
    committed database it leaves. -/
def Request.executed [Runtime] (r : Request) (env : Env) (d : Database) :
    Except Err Reply × Database :=
  r.program.solo env 0 d {}

theorem executed_eq [Runtime] {r : Request} {env : Env} {d : Database} {result : Except Err Reply}
    (h : (r.executed env d).1 = result) :
    r.executed env d = (result, (r.executed env d).2) := by
  rw [← h]

/-- A request that does not raise returns a reply. -/
theorem executed_ok [Runtime] {r : Request} {env : Env} {d : Database}
    (h : (r.executed env d).1.isOk = true) :
    ∃ reply, r.executed env d = (.ok reply, (r.executed env d).2) := by
  generalize r.executed env d = x at h
  obtain ⟨result, d'⟩ := x
  cases result with
  | ok reply => exact ⟨reply, rfl⟩
  | error e => cases h

/-- The states reached from the empty database by requests run one after
    another, each admitted by `ok` in the state it finds.  A request that
    raises leaves the state as it was. -/
inductive Reached [Runtime] (ok : Database → Request → Prop) : Database → Prop where
  | empty : Reached ok .empty
  | step {d : Database} (r : Request) (env : Env) :
      Reached ok d → ok d r → Reached ok (r.executed env d).2

theorem Reached.mono [Runtime] {ok ok' : Database → Request → Prop} {d : Database}
    (himp : ∀ d r, ok d r → ok' d r) (h : Reached ok d) : Reached ok' d := by
  induction h with
  | empty => exact .empty
  | step r env _ hok ih => exact ih.step r env (himp _ _ hok)

/-- The rely of a request alone on the database, whose transactions start at
    the times `S`. -/
abbrev aloneAt (env : Env) (S : Time → Prop) : RG Unit Database Write Resource :=
  RG.solo Database Write Resource env S

/-- The rely of a request alone on the database. -/
abbrev alone (env : Env) : RG Unit Database Write Resource := aloneAt env fun _ => True

/-- What a rule says about a request run alone. -/
theorem executed_of_swp [Runtime] (r : Request) (env : Env) (d : Database)
    {P : Except Err Reply → Database → Prop}
    (h : ∀ g : Shared Unit Database Write, g.db = d → env.Reads g.clock →
      swp (alone env) () r.service (fun a _ g _ => P (.ok a) g.db) (fun e g _ => P (.error e) g.db)
        {} g {}) :
    P (r.executed env d).1 (r.executed env d).2 := by
  obtain ⟨g', tx', hg, -, hP⟩ :=
    wp_solo env (fun _ => True) r.program (fun r g _ => P r g.db) 0 d {} ⟨d, env.clock 0, []⟩ rfl
      (fun _ _ => trivial) (fun _ _ => trivial)
      (wp_program (P := fun r g _ => P r g.db) (h ⟨d, env.clock 0, []⟩ rfl ⟨0, rfl⟩))
  rw [Request.executed, ← hg]
  exact hP

/-- What `now()` is in the transactions of a request alone on the database. -/
def Request.starts [Runtime] (r : Request) (env : Env) (d : Database) : List Time :=
  r.program.starts env 0 d {}

/-- The same, when what it says is about the transaction in which it ends. -/
theorem executed_of_swp_starts [Runtime] (r : Request) (env : Env) (d : Database)
    {P : Except Err Reply → Database → Prop}
    (h : ∀ g : Shared Unit Database Write, g.db = d → env.Reads g.clock →
      swp (aloneAt env (· ∈ r.starts env d)) () r.service
        (fun a _ g tx => (∀ t, tx.start = some t → t ∈ r.starts env d) → P (.ok a) g.db)
        (fun e g tx => (∀ t, tx.start = some t → t ∈ r.starts env d) → P (.error e) g.db)
        {} g {}) :
    P (r.executed env d).1 (r.executed env d).2 := by
  let Q : Post Unit Database Write Resource Err Reply := fun a g tx =>
    (∀ t, tx.start = some t → t ∈ r.starts env d) → P a g.db
  obtain ⟨g', tx', hg, hstart, hP⟩ :=
    wp_solo env (· ∈ r.starts env d) r.program Q 0 d {} ⟨d, env.clock 0, []⟩ rfl
      (fun _ ht => by cases ht) (fun _ ht => ht)
      (wp_program (P := Q) (h ⟨d, env.clock 0, []⟩ rfl ⟨0, rfl⟩))
  rw [Request.executed, ← hg]
  exact hP hstart

/-- The database after requests run one after another. -/
def script [Runtime] (rs : List (Request × Env)) (d : Database) : Database :=
  rs.foldl (fun d r => (r.1.executed r.2 d).2) d

/-- Each request is admitted in the state it finds. -/
def Admissible [Runtime] (ok : Database → Request → Prop) : Database → List (Request × Env) → Prop
  | _, [] => True
  | d, (r, env) :: rs => ok d r ∧ Admissible ok (r.executed env d).2 rs

instance admissibleDecidable [Runtime] {ok : Database → Request → Prop}
    [∀ d r, Decidable (ok d r)] : ∀ d rs, Decidable (Admissible ok d rs)
  | _, [] => inferInstanceAs (Decidable True)
  | d, (r, env) :: rs =>
    have : Decidable (Admissible ok (r.executed env d).2 rs) := admissibleDecidable _ rs
    inferInstanceAs (Decidable (ok d r ∧ Admissible ok (r.executed env d).2 rs))

theorem Reached.script [Runtime] {ok : Database → Request → Prop} {d : Database}
    {rs : List (Request × Env)} (h : Reached ok d) (hrs : Admissible ok d rs) :
    Reached ok (script rs d) := by
  induction rs generalizing d with
  | nil => exact h
  | cons r rs ih => exact ih (h.step r.1 r.2 hrs.1) hrs.2

/-! ## A Sample Ledger

    A tenant with two accounts, funded from a conversion account.  The
    concrete runs beside the theorems start from it. -/

namespace Sample

def usd : UUID := 100
def alice : UUID := 200
def bob : UUID := 300
def carol : UUID := 500
def funding : UUID := 1000

/-- Instants and their text. -/
def instants : List (Time × String) :=
  [(0, "1970-01-01T00:00:00"),
   (60000000, "1970-01-01T00:01:00"),
   (120000000, "1970-01-01T00:02:00"),
   (180000000, "1970-01-01T00:03:00"),
   (90000000000, "1970-01-02T01:00:00")]

/-- The text of an instant. -/
def text (t : Time) : String :=
  match instants.find? fun p => p.1 = t with
  | some p => p.2
  | none => (Json.int t).dumps .compact

/-- The canonical body of a payment by Alice. -/
def payBody (destination : UUID) (amount : Int) : Json := .obj
  [("amount", .int amount), ("destination_account_id", .uuid destination),
   ("effective_at", .null), ("memo", .str ""), ("source_account_id", .uuid alice)]

/-- The canonical body of a hold on Alice's account. -/
def reserveBody (amount : Int) (expiresAt : Time) : Json := .obj
  [("account_id", .uuid alice), ("amount", .int amount), ("expires_at", .str (text expiresAt)),
   ("memo", .str "")]

/-- The canonical body of a reversal. -/
def reverseBody (transaction : UUID) : Json := .obj
  [("memo", .str ""), ("transaction_id", .uuid transaction)]

/-- Request bodies and their digests. -/
def digests : List (String × String) :=
  [((payBody bob 60).dumps .compact,
      "a12fb409ef439d1c7dd3e828294ac34accba8cdb151301b88b7c5cca8cd622bf"),
   ((payBody bob 200).dumps .compact,
      "27b32c60e54b6e792e6d6b77a800f227c8aaf7e668daba7cd42dcf590b23a6c1"),
   ((payBody carol 100).dumps .compact,
      "96bbd6c16bddd96824aab30efdfe33ac8429a9b43e7ef85358c5c635252b7df9"),
   ((reserveBody 100 60000000).dumps .compact,
      "113e8a38ae1cf1f2757508658d8136f3e2d44bee651f1322c17e7bd5acf3c819"),
   ((reserveBody 200 60000000).dumps .compact,
      "df899e16afa8cd902fcbf16d4ff38e4b18a28e526b4bf8059eba9bac009a8077"),
   ((reserveBody 200 180000000).dumps .compact,
      "48c0951d4706adecf81988cb2fe337c08bdd6c0bf7aaf89a3701a6b0b844e061"),
   ((reverseBody 1000).dumps .compact,
      "2fe29c0652380714801c6d2c5e6e21a6170902cf187d0dd932d4afb05907f465"),
   ((reverseBody 2007).dumps .compact,
      "7be2cff3c28bd1743d7e964f258c7e6a29d9f64689566c9cb7a274c35a64870c"),
   ((reverseBody 2010).dumps .compact,
      "78c9b8a330fce372b88ea13d39d0518d731a715fc607cc62485017831151c60c")]

/-- The library functions, exact on the sample's bodies and instants. -/
scoped instance : Runtime where
  sha256 s :=
    match digests.find? fun p => p.1 = s with
    | some p => p.2
    | none => "?" ++ s
  isoformat := text
  dumpTime := text
  loadTime s :=
    match instants.find? fun p => p.2 = s with
    | some p => some p.1
    | none => (Json.loads s).bind Json.toInt?
  repr s := "'" ++ s ++ "'"
  holdDefaultTtlMinutes := 7 * 24 * 60
  unordered := id
  unordered_perm := List.Perm.refl

theorem sha256_injective : Function.Injective Runtime.sha256 := by
  -- the digests are told apart from the other values by the first character
  have hmark : ∀ p ∈ digests, ∀ s : String, p.2 ≠ "?" ++ s := by
    have hfront : ∀ p ∈ digests, p.2.front? ≠ some '?' := by decide +kernel
    intro p hp s heq
    exact hfront p hp (by simp [heq, String.front?_eq])
  have hnodup : (digests.map Prod.snd).Nodup := by decide +kernel
  intro s t h
  simp only [Runtime.sha256] at h
  cases hs : digests.find? (fun p => p.1 = s) with
  | none =>
    cases ht : digests.find? (fun p => p.1 = t) with
    | none => simpa [hs, ht] using h
    | some q =>
      simp only [hs, ht] at h
      exact absurd h.symm (hmark q (List.mem_of_find?_eq_some ht) s)
  | some p =>
    have hps : p.1 = s := by simpa using List.find?_some hs
    cases ht : digests.find? (fun p => p.1 = t) with
    | none =>
      simp only [hs, ht] at h
      exact absurd h (hmark p (List.mem_of_find?_eq_some hs) t)
    | some q =>
      have hqt : q.1 = t := by simpa using List.find?_some ht
      simp only [hs, ht] at h
      rw [← hps, ← hqt, List.inj_on_of_nodup_map hnodup (List.mem_of_find?_eq_some hs)
        (List.mem_of_find?_eq_some ht) h]

theorem timesRoundTrip : Runtime.TimesRoundTrip := by
  have htable : ∀ p ∈ instants, Runtime.loadTime p.2 = some p.1 := by decide +kernel
  have hother : ∀ p ∈ instants, (Json.loads p.2).isNone := by decide +kernel
  intro t
  simp only [Runtime.dumpTime, text]
  cases ht : instants.find? (fun p => p.1 = t) with
  | some p =>
    have hpt : p.1 = t := by simpa using List.find?_some ht
    simp only
    rw [htable p (List.mem_of_find?_eq_some ht), hpt]
  | none =>
    -- a number is not the text of a listed instant
    have hnone : instants.find? (fun p => p.2 = (Json.int t).dumps .compact) = none := by
      rw [List.find?_eq_none]
      intro p hp heq
      have := hother p hp
      rw [decide_eq_true_eq.mp heq, Json.loads_dumps] at this
      cases this
    simp [Runtime.loadTime, hnone, Json.loads_dumps, Json.toInt?]

/-- A clock that stands still, and consecutive identifiers. -/
def envAt (time : Time) (first : Nat) : Env := ⟨fun _ => time, fun n => first + n⟩

def opening (path name : String) (currency : Currency) : Request :=
  .openAccount "acme" ⟨path, name, .CREDIT, currency⟩

def fund (amount : Int) : Request :=
  .post "acme" [⟨usd, -amount, 0⟩, ⟨alice, amount, 0⟩] "funding"

-- The amounts and the rate of the sample requests.
theorem fifty_pos : (0 : Int) < 50 := by decide
theorem sixty_pos : (0 : Int) < 60 := by decide
theorem hundred_pos : (0 : Int) < 100 := by decide
theorem twoHundred_pos : (0 : Int) < 200 := by decide
theorem half_pos : (⟨false, 5, -1⟩ : Decimal).neg = false ∧
    0 < (⟨false, 5, -1⟩ : Decimal).coeff := by
  decide

def pay (destination : UUID) (amount : Int) (key : String) (h : 0 < amount) : Request :=
  .transfer "acme" ⟨alice, destination, amount, "", none, h⟩ key

def reserve (amount : Int) (expiresAt : Time) (key : String) (h : 0 < amount) : Request :=
  .placeHold "acme" ⟨alice, amount, "", some expiresAt, h⟩ key

def capture (hold : UUID) : Request := .captureHold "acme" hold ⟨bob, none, "", by simp⟩

def reverse (transaction : UUID) (key : String) : Request :=
  .reverse "acme" transaction ⟨""⟩ key

/-- Alice has 200, and Bob nothing. -/
def setup : List (Request × Env) :=
  [(opening "platform.fx.conversion.usd" "conversion usd" .USD, envAt 0 100),
   (opening "users.alice" "alice" .USD, envAt 0 200),
   (opening "users.bob" "bob" .USD, envAt 0 300),
   (fund 200, envAt 0 1000)]

/-- The sample ledger. -/
def funded : Database := script setup .empty

end Sample

end Ledger
