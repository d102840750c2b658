import Ledger.Api.Routes
import Ledger.Properties.Provenance
import Ledger.Properties.Tokens

/-! # The Application in Every Interleaving

    Any number of requests of anybody, and passes of the background sweep, run
    beside each other on one database.

    * **Readers**: `Svc.Reads`, the services that neither write nor commit.
    * **Rules**: `wp_client`, what a client promises of its answer follows from
      what its service does; `Client.reads`, the others only read.
    * **Sessions**: `asks_signed`, a client that writes has shown a token;
      `clients_bookkeeping`, the clients keep the books.
    * **Answers**: `answers_of_reachable`, what an answer tells of the database.
    * **Authorization**: `authorized_of_reachable`, who has committed what.
-/

namespace Ledger

open ReadCommitted

/-! ## Readers -/

/-- The service neither writes nor commits. -/
def Svc.Reads {α : Type} (m : Svc α) : Prop := ∀ o, (m o).Reads

section readers

variable {α β : Type} {tenantId : String} {account : UUID}

theorem reads_pure (a : α) : Svc.Reads (pure a) := fun _ => trivial

theorem Svc.Reads.bind {m : Svc α} {f : α → Svc β} (hm : m.Reads) (hf : ∀ a, (f a).Reads) :
    (m >>= f).Reads :=
  fun o => (hm o).bind fun p => hf p.1 p.2

theorem reads_raise (e : Err) : (Svc.raise e : Svc α).Reads := fun _ => trivial

theorem reads_now : Svc.now.Reads := fun _ _ => trivial

theorem reads_select (q : Database → Time → β) : (Svc.select q).Reads := by
  refine fun o => ⟨fun d t b ws h => ?_, fun b => trivial⟩
  cases h
  rfl

theorem reads_getBalance : (Svc.getBalance account).Reads := by
  intro o
  unfold Svc.getBalance
  split
  · trivial
  · refine ⟨fun d t b ws h => ?_, fun b => trivial⟩
    cases h
    rfl

theorem reads_currentBalance : (currentBalance tenantId account).Reads := by
  refine reads_getBalance.bind fun b => ?_
  cases b <;> exact reads_pure _

theorem reads_availableBalance : (availableBalance tenantId account).Reads := by
  refine reads_currentBalance.bind fun posted => ?_
  cases posted with
  | none => exact reads_pure _
  | some posted => exact (reads_select _).bind fun held => reads_pure _

theorem reads_orNow (t : Option Time) : (orNow t).Reads := by
  cases t with
  | none => exact reads_now
  | some t => exact reads_pure t

theorem reads_resolveRate [Runtime] (base quote : Currency) (asOf : Time) :
    (resolveRate base quote asOf).Reads := by
  unfold resolveRate
  split
  · exact reads_pure _
  · refine (reads_select _).bind fun direct => ?_
    split
    · exact reads_pure _
    · refine (reads_select _).bind fun inverse => ?_
      split
      · exact reads_pure _
      · exact reads_raise _

theorem reads_listEvents (status : Option OutboxStatus) (limit : Int) :
    (listEvents tenantId status limit).Reads := by
  unfold listEvents
  split
  · exact reads_raise _
  · exact reads_select _

theorem reads_endpoint {service : Svc α} (h : service.Reads) (caught : Err → Option Nat)
    (returned : α → Response) : (endpoint service caught returned).Reads := by
  have hservice : ((service {}) >>= fun p => pure p.1 :
      Prog Database Write Resource Err α).Reads := (h {}).bind fun _ => trivial
  refine hservice.attempt.bind fun result => ?_
  cases result <;> trivial

theorem reads_getAccount : (getAccountEndpoint tenantId account).Reads := by
  refine reads_endpoint ((reads_select _).bind fun found => ?_) _ _
  split
  · exact reads_pure _
  · split
    · exact reads_pure _
    · exact reads_getBalance.bind fun b => reads_pure _

theorem reads_journal (after : Option Time) (limit : Nat) :
    (getAccountJournalEndpoint tenantId account after limit).Reads := by
  refine reads_endpoint ((reads_select _).bind fun found => ?_) _ _
  split
  · exact reads_pure _
  · split
    · exact reads_pure _
    · exact (reads_select _).bind fun entries => reads_pure _

variable [Runtime]

theorem reads_quote (req : QuoteRequest) : (quoteEndpoint req).Reads := by
  refine reads_endpoint ((reads_orNow _).bind fun asOf => ?_) _ _
  refine (reads_resolveRate _ _ _).bind fun rate => ?_
  split
  · exact reads_raise _
  · exact reads_pure _

theorem reads_read (req : ReadRequest) : (Route.endpoint tenantId (.read req)).Reads := by
  cases req with
  | account accountId => exact reads_getAccount
  | balance accountId =>
    refine reads_endpoint (reads_availableBalance.bind fun b => ?_) _ _
    cases b <;> exact reads_pure _
  | journal accountId after limit bounds => exact reads_journal after limit
  | events status limit => exact reads_endpoint (reads_listEvents status limit) _ _
  | idempotencyKey name key => exact reads_endpoint (reads_select _) _ _
  | statement accountId start stop => exact reads_endpoint (reads_select _) _ _
  | imports => exact reads_endpoint (reads_select _) _ _
  | exceptions resolved => exact reads_endpoint (reads_select _) _ _

end readers

/-! ## Rules -/

/-- What a service returned, as a response, for the services that have a route. -/
def Reply.response : Reply → Option Response
  | .account r => some ⟨201, .account r⟩
  | .transfer _ r => some ⟨200, .transfer r⟩
  | .placed _ r => some ⟨200, .hold r⟩
  | .hold r => some ⟨200, .hold r⟩
  | .reversal _ r => some ⟨200, .reversal r⟩
  | .rate id => some ⟨201, .rate id⟩
  | .dispatched es => some
    (match es.mapM OutboxEventResponse.fromRow with
    | none => serverError
    | some events => ⟨200, .dispatched events⟩)
  | .posted _ | .imported _ | .swept _ => none

/-- What a route asks of a service that may write. -/
def Route.asks (tenantId : String) : Route → Option Request
  | .openAccount req => some (.openAccount tenantId req)
  | .transfer req key => some (.transfer tenantId req key)
  | .placeHold req key => some (.placeHold tenantId req key)
  | .captureHold holdId req => some (.captureHold tenantId holdId req)
  | .releaseHold holdId => some (.releaseHold tenantId holdId)
  | .reverseTransaction id req key => some (.reverse tenantId id req key)
  | .upsertRate req => some (.upsertRate tenantId req)
  | .dispatch limit => some (.dispatch tenantId limit)
  | .quote _ | .read _ | .health => none

/-- What a client asks of a service that may write, if it gets that far. -/
def Client.asks (auth : Auth) : Client → Option Request
  | .sweeper minAge => some (.sweep minAge)
  | .request r =>
    match answered auth.hmac auth.authSecret r.route.isPublic r.authorization with
    | .handled tenantId => r.route.asks (tenantId.getD "")
    | _ => none

section rules

variable {ι : Type} {rg : RG ι Database Write Resource} {me : ι} {g : Shared ι Database Write}
  {auth : Auth} {tenantId : String} {route : Route} {r : Request} {c : Client}

/-- **Rule of endpoints**: an exception is answered for. -/
theorem wp_endpoint {α : Type} {service : Svc α} {caught : Err → Option Nat}
    {returned : α → Response} {P : Post ι Database Write Resource Err Response}
    (h : swp rg me service (fun a _ g tx => P (.ok (returned a)) g tx)
      (fun e g tx => P (.ok (raised caught e)) g tx) {} g {}) :
    wp rg me (endpoint service caught returned) P g {} := by
  rw [endpoint, wp_bind]
  refine wp_attempt ?_
  rw [wp_bind]
  refine wp_mono (fun r g tx hr => ?_) h
  cases r with
  | ok p => exact hr
  | error e => exact hr

/-- The answer for an exception is an error. -/
theorem raised_error {caught : Err → Option Nat} {e : Err}
    (hcaught : ∀ code, caught e = some code → 400 ≤ code) :
    400 ≤ (raised caught e).statusCode := by
  unfold raised
  split
  · exact hcaught _ (by assumption)
  · simp [serverError]

variable [Runtime]

/-- **Rule of routes** that write. -/
theorem wp_route {P : Post ι Database Write Resource Err Response}
    (hroute : route.asks tenantId = some r)
    (h : swp rg me r.service (fun reply _ g tx =>
        ∀ response, reply.response = some response → P (.ok response) g tx)
      (fun _ g tx => ∀ response : Response, 400 ≤ response.statusCode → P (.ok response) g tx)
      {} g {}) :
    wp rg me (route.endpoint tenantId) P g {} := by
  cases route <;> cases hroute <;> rw [Request.service, swp_map] at h <;>
    refine wp_endpoint (swp_mono (fun _ _ _ _ hreply => hreply _ rfl)
      (fun e _ _ he => he _ (raised_error fun code hcode => ?_)) h)
  all_goals cases e <;> cases hcode <;> decide

/-- What a client promises of its answer. -/
abbrev Promises (K : Option Response → Shared ι Database Write → Prop) :
    Post ι Database Write Resource Err (Option Response) :=
  fun r g _ => ∀ a, r = .ok a → K a g

/-- **Rule of clients** that write. -/
theorem wp_client {K : Option Response → Shared ι Database Write → Prop}
    (hc : c.asks auth = some r)
    (h : swp rg me r.service (fun reply _ g _ => K reply.response g)
      (fun _ g _ => ∀ response : Response, 400 ≤ response.statusCode → K (some response) g)
      {} g {}) :
    wp rg me (c.program auth) (Promises K) g {} := by
  cases c with
  | sweeper minAge =>
    cases hc
    rw [Request.service, swp_map] at h
    rw [Client.program, wp_bind]
    refine wp_program ?_
    rw [Request.service, swp_map]
    refine swp_mono (fun _ _ _ _ hnone a ha => ?_) (fun _ _ _ _ _ ha => by cases ha) h
    cases ha
    exact hnone
  | request req =>
    have hmap : (Client.request req).program auth =
        req.program auth >>= fun response => pure (some response) := rfl
    have hresponse : wp rg me (req.program auth) (fun r g _ => ∀ a, r = .ok a → K (some a) g) g
        {} := by
      unfold HttpRequest.program
      simp only [Client.asks] at hc
      split at hc
      · rename_i tenantId hanswered
        rw [hanswered]
        refine wp_route hc (swp_mono (fun _ _ _ _ hreply response hresponse a ha => ?_)
          (fun _ _ _ he _ hcode a ha => ?_) h)
        · cases ha
          rw [← hresponse]
          exact hreply
        · cases ha
          exact he _ hcode
      · cases hc
    rw [hmap, wp_bind]
    refine wp_mono (fun r g tx hr => ?_) hresponse
    cases r with
    | ok response =>
      intro a ha
      cases ha
      exact hr response rfl
    | error e =>
      intro a ha
      cases ha

/-- The other clients only read. -/
theorem Client.reads (hc : c.asks auth = none) : (c.program auth).Reads := by
  cases c with
  | sweeper minAge => cases hc
  | request req =>
    have hresponse : (req.program auth).Reads := by
      unfold HttpRequest.program
      cases hanswered : answered auth.hmac auth.authSecret req.route.isPublic
          req.authorization with
      | handled tenantId =>
        simp only [Client.asks, hanswered] at hc
        cases hroute : req.route with
        | quote q => exact reads_quote q
        | read q => exact reads_read q
        | health => trivial
        | _ => simp [hroute, Route.asks] at hc
      | httpException code detail => trivial
      | serverError e => trivial
    exact hresponse.bind fun _ => trivial

end rules

/-! ## Sessions -/

section sessions

variable {ι : Type} {auth : Auth} {clients : ι → Client} {d : Database} {clock : Time}
  {r : Request} {c : Client}

theorem asks_of_answered {req : HttpRequest} {tenantId : Option String}
    (h : answered auth.hmac auth.authSecret req.route.isPublic req.authorization =
      .handled tenantId) :
    (Client.request req).asks auth = req.route.asks (tenantId.getD "") := by
  simp only [Client.asks, h]

/-- What a client asks for is asked for its tenant, with the tenant's token. -/
theorem asks_signed {req : HttpRequest} (hc : (Client.request req).asks auth = some r) :
    ∃ tenantId, r.tenant = some tenantId ∧ req.route.asks tenantId = some r ∧
      Signed auth.hmac auth.authSecret tenantId req.authorization := by
  simp only [Client.asks] at hc
  split at hc
  · rename_i tenantId hanswered
    unfold answered at hanswered
    split at hanswered
    · cases hanswered
    · rename_i verified hverified
      cases hroute : req.route.isPublic with
      | true =>
        -- a public route asks for nothing
        cases hpath : req.route <;> simp [hpath, Route.isPublic] at hroute
        simp [hpath, Route.asks] at hc
      | false =>
        rw [hroute] at hanswered
        cases verified with
        | none => cases hanswered
        | some t =>
          have hsigned := (verified_iff.mp hverified).1
          simp only [currentTenant, hsigned.1, if_false, Bool.false_eq_true] at hanswered
          cases hanswered
          refine ⟨t, ?_, hc, hsigned⟩
          cases hpath : req.route <;> rw [hpath] at hc <;> cases hc <;> rfl
  · cases hc

/-- No route posts for its caller. -/
theorem asks_proper (hc : c.asks auth = some r) (d : Database) : r.Proper d := by
  cases c with
  | sweeper minAge =>
    cases hc
    trivial
  | request req =>
    simp only [Client.asks] at hc
    split at hc
    · cases hpath : req.route <;> rw [hpath] at hc <;> cases hc <;> trivial
    · cases hc

variable [Runtime]

/-- Clients are verified if the requests they make keep their guarantees. -/
theorem verified_deploy {rg : RG ι Database Write Resource}
    (hkeeps : ∀ i r, (clients i).asks auth = some r → Keeps rg i r ⟨d, clock, []⟩) :
    Verified rg (deploy auth clients d clock) := by
  refine .initial ⟨rfl, fun _ => rfl⟩ fun i => ?_
  cases hc : (clients i).asks auth with
  | none => exact wp_reads (Client.reads hc) fun _ _ _ _ => trivial
  | some r =>
    refine wp_mono (fun _ _ _ _ => trivial) (wp_client (K := fun _ _ => True) hc ?_)
    exact swp_mono (fun _ _ _ _ _ => trivial) (fun _ _ _ _ _ _ => trivial) (hkeeps i r hc)

/-- The tenant a client writes for. -/
def Client.tenant (auth : Auth) (c : Client) : Option String :=
  (c.asks auth).bind Request.tenant

/-- The clients keep the books. -/
theorem clients_bookkeeping (hbooks : Books d) :
    Verified (bookkeeping Sys.all fun i => (clients i).tenant auth)
      (deploy auth clients d clock) :=
  verified_deploy fun i r hc =>
    keeps_bookkeeping i r (by simp [Client.tenant, hc]) hbooks (asks_proper hc d)

end sessions

/-! ## What an Answer Tells -/

section answers

variable {ι : Type} {me : ι} {g : Shared ι Database Write} {d : Database}

/-- The events of a ledger that is told can be shown. -/
theorem Told.shows [Runtime] (h : Told d) {e : OutboxEvent} (he : e ∈ d.outbox.rows)
    (time : Time) : (OutboxEventResponse.fromRow (e.publish time)).isSome = true := by
  obtain ⟨t, -, htells⟩ := h.exists_transaction he
  have hdecode := (decode_publish e time).trans htells.payload
  unfold OutboxEvent.decode at hdecode
  cases hrow : OutboxEventResponse.fromRow (e.publish time) with
  | none => rw [hrow] at hdecode; cases hdecode
  | some row => rfl

/-- A service that returned is answered with success, if the events it hands
    over can be shown. -/
theorem accepted {reply : Reply} {response : Response}
    (hshow : ∀ e ∈ reply.events, (OutboxEventResponse.fromRow e).isSome = true)
    (hresponse : reply.response = some response) : response.statusCode < 400 := by
  cases reply with
  | dispatched es =>
    have hmap : (es.mapM OutboxEventResponse.fromRow).isSome = true := by
      clear hresponse
      replace hshow : ∀ e ∈ es, (OutboxEventResponse.fromRow e).isSome = true := hshow
      induction es with
      | nil => rfl
      | cons e es ih =>
        obtain ⟨x, hx⟩ := Option.isSome_iff_exists.mp (hshow e (by simp))
        obtain ⟨xs, hxs⟩ := Option.isSome_iff_exists.mp (ih fun e' he' => hshow e' (by simp [he']))
        simp [List.mapM_cons, hx, hxs]
    obtain ⟨events, hevents⟩ := Option.isSome_iff_exists.mp hmap
    simp only [Reply.response, hevents, Option.some.injEq] at hresponse
    simp [← hresponse]
  | _ => cases hresponse <;> simp

variable [Runtime] [DecidableEq ι]

/-- An error tells that nothing was committed. -/
abbrev Response.Tells (a : Option Response) (es : List (Entry ι Write)) : Prop :=
  ∀ response, a = some response → 400 ≤ response.statusCode → es = []

/-- **Every request** commits at most once, and an error before that. -/
theorem swp_once (r : Request) (htold : Told g.db) (hnone : commitsOf me g.wal = []) :
    swp (RG.once me Told) me r.service
      (fun reply _ g _ => Response.Tells reply.response (commitsOf me g.wal))
      (fun _ g _ => commitsOf me g.wal = []) {} g {} := by
  -- as long as the session has not committed
  have hstill : ∀ {ws g' tx'}, Progress (RG.once me Told) ws g {} g' tx' →
      commitsOf me g'.wal = [] := fun hp => (RG.once_rely hp.rely).trans hnone
  have hraise : MayRaise (RG.once me Told) (fun _ (g' : Shared ι Database Write) _ =>
      commitsOf me g'.wal = []) g {} := fun _ _ _ _ hp => hstill hp
  have htells : ∀ {reply : Reply} {es : List (Entry ι Write)},
      (∀ e ∈ reply.events, (OutboxEventResponse.fromRow e).isSome = true) →
        Response.Tells reply.response es := by
    intro reply es hshow response hresponse hcode
    have haccepted := accepted hshow hresponse
    omega
  by_cases hr : ∃ t l, r = .dispatch t l
  · obtain ⟨t, l, rfl⟩ := hr
    rw [Request.service, swp_map]
    refine swp_dispatchPending hraise (fun _ _ _ _ => htells fun e he => by cases he)
      fun g₁ tx₁ time g' tx' hselect _ hfinish _ =>
        ⟨hstill (hselect.trans hfinish), fun _ => htells fun e he => ?_⟩
    obtain ⟨e₀, he₀, rfl⟩ := List.mem_map.mp he
    exact (hselect.rely.1 htold).shows (mem_events he₀).1 time
  · exact swp_request (fun t l heq => hr ⟨t, l, heq⟩) hraise
      (fun _ _ _ _ hnone _ => htells fun e he => by rw [hnone] at he; cases he)
      fun _ _ _ hp _ _ _ => ⟨hstill hp, fun _ _ _ _ hnone _ =>
        htells fun e he => by rw [hnone] at he; cases he⟩

end answers

/-! ## A Sample Deployment -/

open Sample

/-- The settings of the sample deployment. -/
def sampleAuth : Auth := ⟨sampleHmac, "test-secret"⟩

/-- The sample tenant's token. -/
def sampleToken : String := "Bearer acme." ++ sampleDigest

/-- A payment, with the tenant's token. -/
def payment : HttpRequest :=
  ⟨some sampleToken, .transfer ⟨alice, bob, 60, "", none, sixty_pos⟩ "t1"⟩

/-- The payment, a payment of more than is left, a payment without a token, and
    a pass of the sweep. -/
def visitors : Fin 4 → Client
  | 0 => .request payment
  | 1 => .request ⟨some sampleToken, .transfer ⟨alice, bob, 200, "", none, twoHundred_pos⟩ "t2"⟩
  | 2 => .request ⟨none, .transfer ⟨alice, bob, 60, "", none, sixty_pos⟩ "t1"⟩
  | 3 => .sweeper 0

/-- The status code a client was answered with. -/
def statusOf {ι : Type} (s : Sys ι Database Write Resource Err (Option Response)) (i : ι) :
    Option Nat :=
  (s.returned i).join.map Response.statusCode

theorem response_of_status {ι : Type} {s : Sys ι Database Write Resource Err (Option Response)}
    {i : ι} {code : Nat} (h : statusOf s i = some code) :
    ∃ response, (s.sess i).prog = .ret (some response) ∧ response.statusCode = code := by
  obtain ⟨response, hreturned, hcode⟩ := Option.map_eq_some_iff.mp h
  exact ⟨response, Sys.prog_of_returned (Option.join_eq_some_iff.mp hreturned), hcode⟩

theorem payment_asks : (Client.request payment).asks sampleAuth =
    some (.transfer "acme" ⟨alice, bob, 60, "", none, sixty_pos⟩ "t1") := by
  have hanswered : answered sampleAuth.hmac sampleAuth.authSecret payment.route.isPublic
      payment.authorization = .handled (some "acme") := by
    decide +kernel
  rw [asks_of_answered hanswered]
  rfl

theorem visitors_run : ∃ s, Sys.Reachable Sys.all (deploy sampleAuth visitors funded 0) s ∧
    s.shared.wal.map Entry.who = [0, 3] ∧ statusOf s 0 = some 200 ∧ statusOf s 1 = some 422 ∧
      statusOf s 2 = some 401 := by
  obtain ⟨s, hr, hp⟩ := Sys.Reachable.of_exec (s := deploy sampleAuth visitors funded 0)
    (Sys.turns 1 2000 3 ++ Sys.turns 0 3000 60 ++ Sys.turns 1 4000 40 ++ Sys.turns 2 5000 4 ++
      Sys.turns 3 6000 8)
    (fun s => s.shared.wal.map Entry.who == [0, 3] && statusOf s 0 == some 200 &&
      statusOf s 1 == some 422 && statusOf s 2 == some 401) (by decide +kernel)
  simp only [Bool.and_eq_true, beq_iff_eq] at hp
  obtain ⟨⟨⟨hwho, hfirst⟩, hsecond⟩, hthird⟩ := hp
  exact ⟨s, hr, hwho, hfirst, hsecond, hthird⟩

/-! ## Results -/

section results

variable {ι : Type} [DecidableEq ι] {auth : Auth} {clients : ι → Client} {d : Database}
  {clock : Time} {s s' : Sys ι Database Write Resource Err (Option Response)}

/-- An answer to a client that writes for a tenant, unless it is an error,
    reports what is recorded. -/
def Client.Recorded (auth : Auth) (c : Client) (a : Option Response) (d : Database) : Prop :=
  ∀ response r tenantId, a = some response → c.asks auth = some r → r.tenant = some tenantId →
    response.statusCode < 400 →
      ∃ reply : Reply, reply.response = some response ∧ reply.Recorded tenantId d

/-- What a client was told is recorded, then and later. -/
theorem client_recorded [Runtime] (htimes : Runtime.TimesRoundTrip) (hbacked : Backed d)
    (hr : Sys.Reachable Sys.all (deploy auth clients d clock) s) {i : ι} {a : Option Response}
    (hret : (s.sess i).prog = .ret a) (hr' : Sys.Reachable Sys.all s s') :
    (clients i).Recorded auth a s'.shared.db := by
  have hsound := RG.logging_sound Sys.all (Backing (ι := ι))
  have hpromise : ∀ (j : ι) (r : Request), swp (recording Sys.all) j r.service
      (fun reply _ g _ => Acknowledged r.tenant reply g) (fun _ _ _ => True) {}
      ⟨d, clock, []⟩ {} := fun j r => swp_recorded htimes r hbacked
  have hv : Verified (recording Sys.all) (deploy auth clients d clock) :=
    verified_deploy fun j r _ =>
      swp_mono (fun _ _ _ _ _ => trivial) (fun _ _ _ _ => trivial) (hpromise j r)
  have hlater : ∀ (g g' : Shared ι Database Write) (a : Option Response),
      (recording Sys.all).rely [] g g' → (clients i).Recorded auth a g.db →
        (clients i).Recorded auth a g'.db := by
    intro g g' a hrely h response r tenantId ha hc ht hcode
    obtain ⟨reply, hreply, hrecorded⟩ := h response r tenantId ha hc ht hcode
    exact ⟨reply, hreply, rely_recorded hrely hrecorded⟩
  refine hlater _ _ a ((hv.reachable hsound hr).1.reachable hsound hr').2 ?_
  refine hv.returned hsound (K := fun g a => (clients i).Recorded auth a g.db) hlater ?_ hr hret
  cases hc : (clients i).asks auth with
  | none =>
    refine wp_reads (Client.reads hc) fun _ _ _ _ a _ response r tenantId _ hasks => ?_
    rw [hc] at hasks
    cases hasks
  | some r =>
    refine wp_client (K := fun a g => (clients i).Recorded auth a g.db) hc
      (swp_mono (fun reply _ g _ hreply => ?_) (fun _ g _ _ => ?_) (hpromise i r))
    · intro response r' tenantId hresponse hasks ht _
      rw [hc] at hasks
      cases hasks
      exact ⟨reply, hresponse, hreply tenantId ht⟩
    · intro response hcode response' r' tenantId heq _ _ hcode'
      cases heq
      omega

/-- An error tells that nothing was committed. -/
theorem client_once [Runtime] (hbooks : Books d) (htold : Told d)
    (hr : Sys.Reachable Sys.all (deploy auth clients d clock) s) (i : ι) :
    (commitsOf i s.shared.wal).length ≤ 1 ∧
      ∀ a, (s.sess i).prog = .ret a → Response.Tells a (commitsOf i s.shared.wal) := by
  refine once_of_reachable (I := Told) (fun s hr => ?_) ?_ rfl hr
  · exact invariant_of_reachable (clients_bookkeeping hbooks) htold
      (fun _ _ _ hkept ht => hkept.1.told ht) hr
  · cases hc : (clients i).asks auth with
    | none => exact wp_reads (Client.reads hc) fun _ _ _ hp _ _ _ _ _ => RG.once_rely hp.rely
    | some r =>
      refine wp_client (K := fun a g => Response.Tells a (commitsOf i g.wal)) hc ?_
      exact swp_mono (fun _ _ _ _ htells => htells) (fun _ _ _ hnone _ _ _ _ _ => hnone)
        (swp_once r htold rfl)

/-- **Answers**: a client commits once at most.  An error tells it that it has
    committed nothing, nor ever will; anything else that a service answers is
    recorded, then and in every later state. -/
theorem answers_of_reachable [Runtime] (htimes : Runtime.TimesRoundTrip) (hbooks : Books d)
    (htold : Told d) (hbacked : Backed d)
    (hr : Sys.Reachable Sys.all (deploy auth clients d clock) s) {i : ι} {response : Response}
    (hret : (s.sess i).prog = .ret (some response))
    (hr' : Sys.Reachable Sys.all s s') :
    (commitsOf i s'.shared.wal).length ≤ 1 ∧
      (400 ≤ response.statusCode → commitsOf i s'.shared.wal = []) ∧
      (clients i).Recorded auth (some response) s'.shared.db := by
  have hreads : (s.sess i).prog.Reads := by
    rw [hret]
    trivial
  obtain ⟨hone, htells⟩ := client_once hbooks htold hr i
  rw [(silent_of_reachable hreads hr').2]
  exact ⟨hone, fun hcode => htells _ hret response rfl hcode,
    client_recorded htimes hbacked hr hret hr'⟩

/-- The payment is recorded, and the refused one has committed nothing. -/
theorem answers_of_reachable_visitors : ∃ s first second,
    Sys.Reachable Sys.all (deploy sampleAuth visitors funded 0) s ∧
      s.shared.wal.map Entry.who = [0, 3] ∧ (s.sess 0).prog = .ret (some first) ∧
      (∃ reply : Reply, reply.response = some first ∧ reply.Recorded "acme" s.shared.db) ∧
      (s.sess 1).prog = .ret (some second) ∧ second.statusCode = 422 ∧
      commitsOf 1 s.shared.wal = [] := by
  obtain ⟨s, hr, hwho, hfirst, hsecond, -⟩ := visitors_run
  obtain ⟨first, hfirst, hok⟩ := response_of_status hfirst
  obtain ⟨second, hsecond, hcode⟩ := response_of_status hsecond
  have hreached : Reached (fun d r => r.Proper d) funded := Reached.empty.script (by decide +kernel)
  have htold := told_of_reached hreached
  have hrecorded := (answers_of_reachable timesRoundTrip books_funded htold backed_funded hr hfirst
    .init).2.2
  have hnothing := (answers_of_reachable timesRoundTrip books_funded htold backed_funded hr hsecond
    .init).2.1
  refine ⟨s, first, second, hr, hwho, hfirst, ?_, hsecond, hcode, hnothing (by omega)⟩
  exact hrecorded first _ "acme" rfl payment_asks rfl (by omega)

/-- What a client may commit. -/
def Client.Entitled (auth : Auth) (c : Client) (ws : List Write) : Prop :=
  (c.asks auth).isSome ∧ ∀ minAge, c = .sweeper minAge → ∃ ks, ws = [.deleteRecords ks]

omit [DecidableEq ι] in
/-- The clients move what their requests ask for. -/
theorem clients_asking [Runtime] :
    Verified (asking Sys.all (fun i => (clients i).tenant auth) fun i => (clients i).asks auth)
      (deploy auth clients d clock) :=
  verified_deploy fun i r hc => keeps_asked i r hc

/-- A client commits what it is entitled to. -/
theorem entitled_of_wal [Runtime] (hr : Sys.Reachable Sys.all (deploy auth clients d clock) s)
    {es es' : List (Entry ι Write)} {e : Entry ι Write} (hwal : s.shared.wal = es ++ e :: es') :
    (clients e.who).Entitled auth e.writes := by
  have hv : Verified (.logging Sys.all fun i tx _ => (clients i).Entitled auth tx.log)
      (deploy auth clients d clock) := by
    refine verified_deploy fun i r hc => ?_
    cases hclient : clients i with
    | request req =>
      refine keeps_logging r fun _ _ _ _ => ⟨by simp [hc], fun minAge heq => ?_⟩
      rw [hclient] at heq
      cases heq
    | sweeper minAge =>
      rw [hclient] at hc
      cases hc
      unfold Keeps
      rw [Request.service, swp_map]
      refine swp_sweepOnce (mayRaise_trivial _ _) fun run _ =>
        ⟨⟨⟨by simp [hclient, Client.asks], fun _ _ => ⟨run.keys, run.log⟩⟩, run.whole.locked⟩,
          fun _ _ => trivial⟩
  obtain ⟨-, tx, g, hlog, -, hentitled⟩ :=
    (commits_of_reachable (I := fun _ => True) hv rfl trivial (fun _ _ _ _ _ => trivial) hr).2
      es e es' hwal
  exact hlog ▸ hentitled

/-- **Authorization**: every commit is a pass of the sweep, which only forgets
    idempotency keys, or is made by a request that carries the token of a
    tenant; then it moves what the request asks for, and leaves the rows of
    every other tenant as they are. -/
theorem authorized_of_reachable [Runtime] (hbooks : Books d)
    (hr : Sys.Reachable Sys.all (deploy auth clients d clock) s) :
    s.shared.db = afterCommits d s.shared.wal ∧
      ∀ es e es', s.shared.wal = es ++ e :: es' →
        (∃ minAge ks, clients e.who = .sweeper minAge ∧ e.writes = [.deleteRecords ks]) ∨
          ∃ req tenantId r, clients e.who = .request req ∧
            Signed auth.hmac auth.authSecret tenantId req.authorization ∧
            req.route.asks tenantId = some r ∧
            (∃ entries, Asked (afterCommits d es) r entries ∧
              (afterCommits d (es ++ [e])).ledger.journal =
                (afterCommits d es).ledger.journal ++ entries) ∧
            ∀ other, tenantId ≠ other →
              (afterCommits d (es ++ [e])).ownedBy other = (afterCommits d es).ownedBy other ∧
              ∀ p ∈ (afterCommits d (es ++ [e])).postings.rows,
                p ∉ (afterCommits d es).postings.rows →
                  ¬ (afterCommits d (es ++ [e])).Owns other p.accountId := by
  obtain ⟨hdb, hkept⟩ := Verified.kept (clients_bookkeeping hbooks) rfl hbooks hr
  refine ⟨hdb, fun es e es' hwal => ?_⟩
  obtain ⟨hasks, hsweep⟩ := entitled_of_wal hr hwal
  cases hclient : clients e.who with
  | sweeper minAge =>
    obtain ⟨ks, hks⟩ := hsweep minAge hclient
    exact .inl ⟨minAge, ks, rfl, hks⟩
  | request req =>
    obtain ⟨r, hr'⟩ := Option.isSome_iff_exists.mp hasks
    have hmoved := Verified.asked (clients_bookkeeping hbooks) clients_asking rfl hbooks hr hwal hr'
    rw [hclient] at hr'
    obtain ⟨tenantId, htenant, hroute, hsigned⟩ := asks_signed hr'
    refine .inr ⟨req, tenantId, r, rfl, hsigned, hroute, hmoved, fun other hne => ?_⟩
    have hcommit := (hkept es e es' hwal).2
    rw [hclient, Client.tenant, hr', Option.bind_some, htenant] at hcommit
    exact hcommit.isolated hne

/-- Of the two commits, the first is the payment and the second the sweep. -/
theorem authorized_of_reachable_visitors : ∃ s e es',
    Sys.Reachable Sys.all (deploy sampleAuth visitors funded 0) s ∧ s.shared.wal = e :: es' ∧
      e.who = 0 ∧ (afterCommits funded [e]).ownedBy "globex" = funded.ownedBy "globex" := by
  obtain ⟨s, hr, hwho, -⟩ := visitors_run
  obtain ⟨e, es', hwal, he, -⟩ := List.map_eq_cons_iff.mp hwho
  rcases (authorized_of_reachable books_funded hr).2 [] e es' hwal with
    ⟨minAge, ks, hsweeper, -⟩ | ⟨req, tenantId, r, hreq, hsigned, -, -, hisolated⟩
  · rw [he] at hsweeper
    cases hsweeper
  · refine ⟨s, e, es', hr, hwal, he, (hisolated "globex" fun heq => ?_).1⟩
    -- the token is not the one of the other tenant
    have hclient : visitors 0 = .request req := he ▸ hreq
    injection hclient with hsame
    subst heq
    rw [← hsame] at hsigned
    exact absurd hsigned.2.2 (by decide +kernel)

end results

end Ledger
