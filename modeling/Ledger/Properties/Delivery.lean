import Ledger.Runs.Dispatches

/-! # Delivery of Events

    A dispatch commits its events as published before it hands them back, so
    a crash between the two loses them.

    * **Delivery**: `AtLeastOnce`, every published event has been handed back
      to a caller.
    * **Interruption**: `Unreturned`, a session that has committed a dispatch
      whose reply its caller has not got: it is on its way, or dead.
    * **Result**: `at_least_once_iff`, in every state of every run.
-/

namespace Ledger

open ReadCommitted

section delivery

variable {ι : Type} [DecidableEq ι]

/-- An event has been handed back by one of the replies. -/
def Delivered (rs : List (ι × Reply)) (x : UUID) : Prop :=
  ∃ p ∈ rs, x ∈ p.2.events.map OutboxEvent.id

instance (rs : List (ι × Reply)) (x : UUID) : Decidable (Delivered rs x) := by
  unfold Delivered; infer_instance

/-- Every event that is published, and was not before the run, has been
    handed back to a caller. -/
def AtLeastOnce (d : Database) (s : Sys ι Database Write Resource Err Reply)
    (rs : List (ι × Reply)) : Prop :=
  ∀ e ∈ s.shared.db.outbox.rows, e.status = .PUBLISHED →
    (∃ e₀ ∈ d.outbox.find? e.id, e₀.status = .PUBLISHED) ∨ Delivered rs e.id

instance (d : Database) (s : Sys ι Database Write Resource Err Reply) (rs : List (ι × Reply)) :
    Decidable (AtLeastOnce d s rs) := by
  unfold AtLeastOnce; infer_instance

/-- The session has marked events and has not returned. -/
def Unreturned (s : Sys ι Database Write Resource Err Reply) (rs : List (ι × Reply)) (i : ι) :
    Prop :=
  publishedBy i s.shared.wal ≠ [] ∧ i ∉ rs.map Prod.fst

theorem mem_publishedBy {i : ι} {wal : List (Entry ι Write)} {x : UUID} :
    x ∈ publishedBy i wal ↔ ∃ c ∈ wal, c.who = i ∧ x ∈ published c.writes := by
  show x ∈ marked (wal.filter fun e => e.who = i) ↔ _
  simp only [mem_marked, List.mem_filter, decide_eq_true_eq, and_assoc]

variable [Runtime] {allow : OfCommit ι Database Write Resource} {requests : ι → Request}
  {d : Database} {clock : Time} {s : Sys ι Database Write Resource Err Reply}
  {rs : List (ι × Reply)}

/-- An event is delivered when a session that has marked it has returned. -/
theorem delivered_iff (h : Traced allow Sys.returning (serve requests d clock) s rs) (x : UUID) :
    Delivered rs x ↔ ∃ i ∈ rs.map Prod.fst, x ∈ publishedBy i s.shared.wal := by
  have hhanded := h.results handed_own fun s hr i reply hret => handed_of_reachable hr hret
  constructor
  · rintro ⟨p, hp, hx⟩
    obtain ⟨-, hmarks⟩ := hhanded p hp
    rw [hmarks] at hx
    exact ⟨p.1, List.mem_map_of_mem hp, hx⟩
  · rintro ⟨i, hi, hx⟩
    obtain ⟨p, hp, rfl⟩ := List.mem_map.mp hi
    obtain ⟨-, hmarks⟩ := hhanded p hp
    exact ⟨p, hp, hmarks ▸ hx⟩

/-- **At-least-once delivery** holds in a state of a run exactly when what an
    unreturned dispatch has marked, a returned one has marked too. -/
theorem at_least_once_iff (h : Traced allow Sys.returning (serve requests d clock) s rs) :
    AtLeastOnce d s rs ↔ ∀ i, Unreturned s rs i → ∀ x ∈ publishedBy i s.shared.wal,
      ∃ j ∈ rs.map Prod.fst, x ∈ publishedBy j s.shared.wal := by
  obtain ⟨cs, htraced⟩ := h.reachable.traced Sys.publishing
  have hships := (ships_of_traced htraced).mono fun _ _ _ hc => hc.2
  constructor
  · intro hdelivered i _ x hx
    obtain ⟨c, hc, -, hxc⟩ := mem_publishedBy.mp hx
    obtain ⟨hbefore, e, hfind, hs⟩ := published_of_marked hships (mem_marked.mpr ⟨c, hc, hxc⟩)
    obtain ⟨hrow, rfl⟩ := Table.find?_eq_some_iff.mp hfind
    rcases hdelivered e hrow hs with ⟨e₀, he₀, hs₀⟩ | hd
    · exact absurd hs₀ (hbefore e₀ he₀)
    · exact (delivered_iff h e.id).mp hd
  · intro hreturned e he hs
    rcases marked_of_published hships he hs with hbefore | hx
    · exact .inl hbefore
    · obtain ⟨c, hc, hxc⟩ := mem_marked.mp hx
      have hby : e.id ∈ publishedBy c.who s.shared.wal := mem_publishedBy.mpr ⟨c, hc, rfl, hxc⟩
      refine .inr ((delivered_iff h e.id).mpr ?_)
      by_cases hi : c.who ∈ rs.map Prod.fst
      · exact ⟨c.who, hi, hby⟩
      · -- the session that marked it has not returned
        exact hreturned c.who ⟨List.ne_nil_of_mem hby, hi⟩ e.id hby

end delivery

open Sample

/-- Two dispatchers of the sample tenant, whose one event is pending. -/
def dispatchers : Fin 2 → Request := fun _ => .dispatch "acme" 100

/-- A dispatch that commits and returns has delivered. -/
theorem at_least_once_dispatched : ∃ s rs,
    Traced Sys.all Sys.returning (serve dispatchers funded 0) s rs ∧
      rs.map (fun p => p.2.events.map OutboxEvent.id) = [[1011]] ∧ AtLeastOnce funded s rs := by
  have hinit : Traced Sys.all Sys.returning (serve dispatchers funded 0) _ [] := .init
  obtain ⟨s, rs, h, hp⟩ := hinit.of_follow (fun _ _ => true) (fun _ _ _ _ => trivial)
    (List.replicate 5 (.run 0)) (fun s rs =>
      rs.map (fun p => (p.1, p.2.events.map OutboxEvent.id)) = [(0, [1011])] &&
      publishedBy 1 s.shared.wal = [])
    (by decide +kernel : ((serve dispatchers funded 0).follow Sys.returning (fun _ _ => true) []
      (List.replicate 5 (.run 0))).map _ = some true)
  simp only [Bool.and_eq_true, decide_eq_true_eq] at hp
  obtain ⟨hrs, hidle⟩ := hp
  have hsessions : rs.map Prod.fst = [0] := by
    simpa using congrArg (List.map Prod.fst) hrs
  refine ⟨s, rs, h, by simpa using congrArg (List.map Prod.snd) hrs, ?_⟩
  refine (at_least_once_iff h).mpr fun i hi => ?_
  match i with
  | 0 => exact absurd (by simp [hsessions]) hi.2
  | 1 => exact absurd hidle hi.1

/-- The first dispatcher dies after its commit; the second one finds nothing
    to deliver. -/
theorem published_undelivered : ¬ ∀ s rs,
    Traced Sys.all Sys.returning (serve dispatchers funded 0) s rs → AtLeastOnce funded s rs := by
  intro hall
  have hrun : (((serve dispatchers funded 0).follow Sys.returning (fun _ _ => true) []
      (List.replicate 4 (.run 0))).bind fun q =>
        (q.1.setSess 0 ⟨.fail .killed, {}⟩).follow Sys.returning (fun _ _ => true) q.2
          (List.replicate 3 (.run 1))).map (fun q => !decide (AtLeastOnce funded q.1 q.2)) =
      some true := by decide +kernel
  cases hcommit : (serve dispatchers funded 0).follow Sys.returning (fun _ _ => true) []
      (List.replicate 4 (.run 0)) with
  | none =>
    rw [hcommit] at hrun
    cases hrun
  | some q =>
    rw [hcommit, Option.bind_some] at hrun
    have hcommitted : Traced Sys.all Sys.returning (serve dispatchers funded 0) q.1 q.2 :=
      Traced.init.follow (fun _ _ _ _ => trivial) hcommit
    obtain ⟨s, rs, h, hp⟩ := (hcommitted.abort 0 .killed).of_follow (fun _ _ => true)
      (fun _ _ _ _ => trivial) _ (fun s rs => !decide (AtLeastOnce funded s rs)) hrun
    simp only [Bool.not_eq_eq_eq_not, Bool.not_true, decide_eq_false_iff_not] at hp
    exact hp (hall s rs h)

end Ledger
