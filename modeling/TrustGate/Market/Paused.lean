import TrustGate.Market.Entries
import TrustGate.Market.Forward

set_option autoImplicit false

/-! # Pausing consumption

A paused worker reads nothing and goes on publishing. A row is marked processed once its entry is in
the stream, and is never published again; the stream is trimmed to about 10000 entries, whether or
not the group has read them. Nothing is lost as long as no unread entry is trimmed. -/

namespace TrustGate.Market

open Resumption

/-! ## What can still be obtained -/

/-- The entry is ahead of the group, or pending. -/
def Stream.Awaits (s : Stream) (e : StreamEntry) : Prop :=
  s.lastDelivered < e.entryId ∨ s.Holds e.entryId

instance (s : Stream) (e : StreamEntry) : Decidable (s.Awaits e) :=
  inferInstanceAs (Decidable (_ ∨ _))

/-- Some handler has a row for the event. -/
def Store.consumed (m : Store) (id : String) : Bool := m.consumptions.any fun r => r.eventId = id

/-- An entry of the event awaits the group, with its data, or its consumption has begun. -/
def Obtainable (m : Store) (id : String) : Prop :=
  (∃ e ∈ m.stream.entries, e.id = id ∧ m.stream.Awaits e) ∨ m.consumed id = true

instance (m : Store) (id : String) : Decidable (Obtainable m id) :=
  inferInstanceAs (Decidable (_ ∨ _))

/-- Every event that is marked processed is obtainable. -/
def NothingLost (m : Store) : Prop :=
  ∀ event ∈ m.outbox, event.processedAt.isSome = true → Obtainable m event.id

instance (m : Store) : Decidable (NothingLost m) :=
  inferInstanceAs (Decidable (∀ event ∈ m.outbox, _))

/-- What is obtainable depends on the stream and on the consumptions. -/
theorem obtainable_congr {m m' : Store} (stream : m'.stream = m.stream)
    (consumptions : m'.consumptions = m.consumptions) (id : String) :
    Obtainable m' id ↔ Obtainable m id := by
  unfold Obtainable Store.consumed
  rw [stream, consumptions]

/-! ## A paused tick -/

/-- The calls by which a worker consumes events. -/
def Op.consumes : Op → Bool
  | .tryStart _ => true
  | .markSucceeded _ _ => true
  | .markFailed _ _ _ _ => true
  | .xReadGroup _ _ => true
  | .xAutoClaim _ _ _ => true
  | .xAck _ => true
  | _ => false

theorem Op.worker_of_consumes {o : Op} (ho : o.consumes = true) : o.worker = true := by
  cases o <;> first | rfl | cases ho

/-- A request, a sweep, or the tick of a paused worker. -/
def Job.paused : Job → Bool
  | .tick cfg _ => cfg.pauseWorkerConsumption
  | _ => true

theorem publishEvent_consumes (event : OutboxEvent) (h : Hist) :
    Ensures (fun _ o => o.consumes = false) (fun _ _ => True) (publishEvent event) h := by
  unfold publishEvent
  simp only [ensures_attempt_bind, ensures_call_bind]
  refine ⟨rfl, ?_, fun _ => ⟨rfl, fun _ => trivial⟩⟩
  intro _
  refine ⟨rfl, ?_⟩
  rintro (e | _)
  · exact ⟨rfl, fun _ => trivial⟩
  · trivial

theorem tick_consumes (cfg : Settings) (claimCursor : Nat)
    (paused : cfg.pauseWorkerConsumption = true) :
    Ensures (fun _ o => o.consumes = false) (fun _ _ => True) (tick cfg claimCursor) [] := by
  unfold tick publishOnce
  rw [ensures_bind, ensures_call_bind]
  refine ⟨rfl, ?_, fun _ => trivial⟩
  intro events
  have hpublish : Ensures (fun _ o => o.consumes = false) (fun _ _ => True)
      (forEach publishEvent events) [⟨.listUnprocessed 50, .ok events⟩] := by
    refine ensures_forEach (fun _ _ => True) ?_ (fun _ _ => trivial) events _ trivial
    rintro event events h -
    refine (publishEvent_consumes event h).mono (fun _ _ ho => ho) ?_
    rintro _ (_ | _) _ <;> trivial
  refine hpublish.mono (fun _ _ ho => ho) ?_
  rintro h (e | _) -
  · trivial
  · dsimp only
    rw [if_pos paused]
    trivial

/-- **Nobody consumes an event** while the workers are paused. -/
theorem body_paused (j : Job) (hj : j.paused = true) :
    Follows (fun h o => j.Calls h o ∧ o.consumes = false) (fun h _ => j.Ended h) j.body [] := by
  have others : (∀ cfg cursor, j ≠ .tick cfg cursor) →
      Follows (fun h o => j.Calls h o ∧ o.consumes = false) (fun h _ => j.Ended h) j.body [] := by
    intro hne
    refine (body_follows j).mono (fun h o hc => ⟨hc, ?_⟩) fun _ _ hq => hq
    rw [Bool.eq_false_iff]
    intro ho
    obtain ⟨cfg, cursor, heq, -⟩ := Job.tick_of_worker hc (Op.worker_of_consumes ho)
    exact hne cfg cursor heq
  cases j with
  | tick cfg cursor =>
      refine ((body_follows (.tick cfg cursor)).and
        (toEnd_follows (Q := fun _ => True) (tick_consumes cfg cursor hj))).mono ?_ ?_
      · exact fun _ _ hc => hc
      · exact fun _ _ hq => hq.1
  | _ => exact others (by simp)

/-! ## Runs -/

/-- The outbox says that the event is processed. -/
def Store.processed (m : Store) (id : String) : Bool :=
  m.outbox.any fun event => event.id = id && event.processedAt.isSome

/-- The event that a process has just added to the stream, and marks next. -/
def justAdded : Hist → Option String
  | ⟨.xAdd event, .ok _⟩ :: _ => some event.id
  | _ => none

/-- If `XADD` drops an entry that awaits the group, the event is not processed, nor about to be marked
so, or it is obtainable without that entry. -/
def SparesUnread (m : Store) (t : Trace Op Reply) (_ : Nat) (o : Op) (c : Outcome) : Prop :=
  match o with
  | .xAdd event =>
      c.fault.applies = true →
        ∀ e ∈ m.stream.entries.take (m.stream.trimmed c.drop), m.stream.Awaits e →
          m.processed e.id = true ∨ (∃ call ∈ t, justAdded (own call.pid t) = some e.id) →
          (∃ e' ∈ m.stream.entries.drop (m.stream.trimmed c.drop),
            e'.id = e.id ∧ m.stream.Awaits e') ∨ event.id = e.id ∨ m.consumed e.id = true
  | _ => True

instance (m : Store) (t : Trace Op Reply) (pid : Nat) (o : Op) (c : Outcome) :
    Decidable (SparesUnread m t pid o c) := by
  apply Op.casesOn (motive := fun o => Decidable (SparesUnread m t pid o c)) o <;> intros <;>
    unfold SparesUnread <;> infer_instance

/-- Requests, sweeps and paused workers, with any faults and crashes, and no trimming of what is
awaited. -/
abbrev pausedSparing : Regime Op Reply Job Outcome Store :=
  ⟨fun j => j.paused = true, SparesUnread, True⟩

/-- The invariant of a pause: besides, what a worker is about to mark is obtainable. -/
structure Retained (m : Store) (t : Trace Op Reply) : Prop where
  read : m.stream.lastDelivered ≤ m.stream.lastId
  processed : NothingLost m
  added : ∀ pid id, justAdded (own pid t) = some id → Obtainable m id

theorem Retained.initial {m : Store} (read : m.stream.lastDelivered ≤ m.stream.lastId)
    (kept : NothingLost m) : Retained m [] :=
  ⟨read, kept, fun _ _ h => nomatch h⟩

section

variable {o : Op} {c : Outcome} {m m' : Store} {r : Reply o} {t : Trace Op Reply} {pid : Nat}
  {j : Job}

/-- The event of a new entry is obtainable. -/
theorem obtainable_add (read : m.stream.lastDelivered ≤ m.stream.lastId) (event : OutboxEvent)
    (drop : Nat) : Obtainable { m with stream := m.stream.add event drop } event.id := by
  refine .inl ⟨m.stream.entryFor event, ?_, rfl, .inl ?_⟩
  · show _ ∈ (m.stream.add event drop).entries
    rw [Stream.add_entries]
    simp
  · exact Nat.lt_succ_of_le read

/-- An event stays obtainable if `XADD` spares it. -/
theorem Obtainable.add {event : OutboxEvent} {id : String} (h : Obtainable m id)
    (read : m.stream.lastDelivered ≤ m.stream.lastId)
    (spares : SparesUnread m t pid (.xAdd event) c) (happlies : c.fault.applies = true)
    (wanted : m.processed id = true ∨ ∃ call ∈ t, justAdded (own call.pid t) = some id) :
    Obtainable { m with stream := m.stream.add event c.drop } id := by
  -- an entry that is not dropped awaits the group as before
  have stays : ∀ e ∈ m.stream.entries.drop (m.stream.trimmed c.drop), e.id = id →
      m.stream.Awaits e → Obtainable { m with stream := m.stream.add event c.drop } id := by
    intro e he hid hawaits
    refine .inl ⟨e, ?_, hid, hawaits⟩
    show _ ∈ (m.stream.add event c.drop).entries
    rw [Stream.add_entries]
    exact List.mem_append_left _ he
  rcases h with ⟨e, he, rfl, hawaits⟩ | hrow
  · rw [← List.take_append_drop (m.stream.trimmed c.drop) m.stream.entries, List.mem_append] at he
    rcases he with he | he
    · rcases spares happlies e he hawaits wanted with ⟨e', he', hid, hawaits'⟩ | hsame | hrow
      · exact stays e' he' hid hawaits'
      · rw [← hsame]
        exact obtainable_add read event c.drop
      · exact .inr hrow
    · exact stays e he rfl hawaits
  · exact .inr hrow

/-- A process that has just added an event has made a call. -/
theorem exists_call_of_justAdded {id : String} (h : justAdded (own pid t) = some id) :
    ∃ call ∈ t, justAdded (own call.pid t) = some id := by
  have hne : own pid t ≠ [] := by
    intro hown
    rw [hown] at h
    cases h
  obtain ⟨call, hmem, rfl⟩ := exists_call_of_ne_nil hne
  exact ⟨call, hmem, h⟩

/-- An event is inserted under the UUID that was just issued. -/
theorem Job.emission {h : Hist} {event : OutboxEvent} (hc : j.Calls h (.insertEvent event)) :
    EmitCall h (.insertEvent event) := by
  cases j with
  | tick cfg cursor =>
      cases hc with
      | dispatch _ _ x hc =>
          cases hc.2 with
          | completion _ hc =>
              cases hc with
              | emits _ _ he => exact he
  | select cfg taskId =>
      cases hc with
      | select hs => cases hs
      | emits he => exact he
  | createBid cfg body =>
      cases body with
      | error detail => exact hc.elim
      | ok b =>
          cases hc with
          | select _ _ _ _ _ _ hs => cases hs
          | emits _ _ he => exact he
  | createTask _ _
  | createPaid _ _
  | complete _ _ _
  | publishResult _ _ _ _
  | runOnce _ =>
      cases hc with
      | emits _ _ he => exact he

/-- Events are stored unprocessed. -/
theorem Job.inserts {h : Hist} {event : OutboxEvent} (hc : j.Calls h (.insertEvent event)) :
    event.processedAt = none := by
  cases Job.emission hc with
  | insert _ _ unprocessed => exact unprocessed

/-- A row is marked processed right after its entry was added. -/
theorem Job.processes {h : Hist} {id : String} (hc : j.Calls h (.markEventProcessed id)) :
    justAdded h = some id := by
  obtain ⟨cfg, cursor, -, hc⟩ := Job.tick_of_worker hc rfl
  cases hc with
  | processed h event => rfl
  | dispatch _ _ x hc => exact nomatch hc.2.worker rfl

/-- A call that adds nothing to the stream and consumes nothing leaves it as it is. -/
theorem perform_paused {v : Value o} (hp : perform c m o = some (v, m'))
    (ho : o.consumes = false) (hadd : ∀ event, o ≠ .xAdd event) :
    m'.stream = m.stream ∧ m'.consumptions = m.consumptions := by
  have hframe := perform_frame hp
  cases o with
  | xAdd event => exact absurd rfl (hadd event)
  | tryStart _ | markSucceeded _ _ | markFailed _ _ _ _ | xReadGroup _ _ | xAutoClaim _ _ _
  | xAck _ => cases ho
  | _ => exact ⟨hframe.stream nofun nofun nofun nofun, hframe.consumptions nofun nofun nofun⟩

/-- The rows that are processed after a call: those that were before, and those it marks. -/
theorem processed_perform {v : Value o} (hp : perform c m o = some (v, m'))
    (hc : j.Calls (own pid t) o) {event : OutboxEvent} (he : event ∈ m'.outbox)
    (hprocessed : event.processedAt.isSome = true) :
    (∃ old ∈ m.outbox, old.id = event.id ∧ old.processedAt.isSome = true) ∨
      justAdded (own pid t) = some event.id := by
  have same : m'.outbox = m.outbox →
      ∃ old ∈ m.outbox, old.id = event.id ∧ old.processedAt.isSome = true :=
    fun heq => ⟨event, heq ▸ he, rfl, hprocessed⟩
  cases o with
  -- a new row is unprocessed
  | insertEvent new =>
      cases hp
      rcases List.mem_append.mp he with he | he
      · exact .inl ⟨event, he, rfl, hprocessed⟩
      · cases List.mem_singleton.mp he
        rw [Job.inserts hc] at hprocessed
        cases hprocessed
  | markEventProcessed id =>
      cases hp
      obtain ⟨old, hold, rfl⟩ := List.mem_map.mp he
      split_ifs at hprocessed ⊢ with hdue
      -- this row is marked now: its entry was just added
      · have hid : old.id = id := by
          rw [Bool.and_eq_true, decide_eq_true_eq] at hdue
          exact hdue.1
        refine .inr ?_
        show _ = some old.id
        rw [hid]
        exact Job.processes hc
      · exact .inl ⟨old, hold, rfl, hprocessed⟩
  | markEventFailed id error =>
      cases hp
      obtain ⟨old, hold, rfl⟩ := List.mem_map.mp he
      refine .inl ⟨old, hold, ?_⟩
      split_ifs at hprocessed ⊢ <;> exact ⟨rfl, hprocessed⟩
  | _ => exact .inl (same ((perform_frame hp).outbox nofun nofun nofun))

/-- What has just been added after a call: by this call, or before it by somebody else. -/
theorem justAdded_call {pid' : Nat} {id : String}
    (h : justAdded (own pid' (⟨pid, o, r⟩ :: t)) = some id) :
    (∃ event : OutboxEvent, event.id = id ∧ ∃ v, (⟨o, r⟩ : Done Op Reply) = ⟨.xAdd event, .ok v⟩) ∨
      justAdded (own pid' t) = some id := by
  by_cases hp : pid = pid'
  · subst hp
    rw [own_cons_self] at h
    cases o with
    | xAdd event =>
        cases r with
        | error e => cases h
        | ok v => exact .inl ⟨event, Option.some.inj h, v, rfl⟩
    | _ => cases h
  · rw [own_cons_ne hp] at h
    exact .inr h

/-- **One call of a pause.** -/
theorem Retained.call (h : Retained m t) (hc : j.Calls (own pid t) o) (ho : o.consumes = false)
    (spares : SparesUnread m t pid o c) (hx : exec o c m = some (r, m')) :
    Retained m' (⟨pid, o, r⟩ :: t) := by
  rcases exec_cases hx with ⟨-, rfl, e, rfl⟩ | ⟨hf, v, hp, -⟩
  · -- a refused call does nothing
    refine ⟨h.read, h.processed, fun pid' id hadded => ?_⟩
    rcases justAdded_call hadded with ⟨event, -, v, heq⟩ | hadded
    · cases heq
    · exact h.added pid' id hadded
  · -- whatever was wanted and obtainable still is
    have still : ∀ id, Obtainable m id →
        (m.processed id = true ∨ ∃ call ∈ t, justAdded (own call.pid t) = some id) →
        Obtainable m' id := by
      intro id hid hwanted
      by_cases hadd : ∃ event, o = .xAdd event
      · obtain ⟨event, rfl⟩ := hadd
        cases hp
        exact hid.add h.read spares hf hwanted
      · obtain ⟨hstream, hrows⟩ := perform_paused hp ho fun event heq => hadd ⟨event, heq⟩
        exact (obtainable_congr hstream hrows id).mpr hid
    refine ⟨?_, ?_, ?_⟩
    · by_cases hadd : ∃ event, o = .xAdd event
      · obtain ⟨event, rfl⟩ := hadd
        cases hp
        exact h.read.trans (Nat.le_succ _)
      · rw [(perform_paused hp ho fun event heq => hadd ⟨event, heq⟩).1]
        exact h.read
    · intro event he hprocessed
      -- a row processed before was wanted; one processed now was just added
      rcases processed_perform hp hc he hprocessed with ⟨old, hold, hid, hold'⟩ | hadded
      · rw [← hid]
        refine still _ (h.processed old hold hold') (.inl ?_)
        exact List.any_eq_true.mpr ⟨old, hold, by simp [hold']⟩
      · exact still _ (h.added pid _ hadded) (.inr (exists_call_of_justAdded hadded))
    · intro pid' id hadded
      rcases justAdded_call hadded with ⟨event, rfl, v, heq⟩ | hadded
      · cases heq
        cases hp
        exact obtainable_add h.read event c.drop
      · exact still _ (h.added pid' id hadded) (.inr (exists_call_of_justAdded hadded))

end

/-- **A pause loses nothing** if nothing that is awaited is trimmed: from any store where every
processed event is obtainable, after any run of requests, sweeps and paused workers, with any faults
and crashes, every processed event is. -/
theorem pause_keeps (m : Store) (read : m.stream.lastDelivered ≤ m.stream.lastId)
    (kept : NothingLost m) (sched : List (Act Job Outcome))
    (spares : Meets market pausedSparing (.initial m) sched) :
    NothingLost (runSched market (.initial m) sched).state :=
  (runSched_rule (I := Retained) (R := pausedSparing)
    (P := fun j h o => j.Calls h o ∧ o.consumes = false) (Q := Job.Ended) body_paused
    (fun _ _ _ _ _ _ _ _ h _ hc hcall hx => h.call hc.1 hc.2 hcall hx) sched _
    (.initial read kept) (.initial m) spares).1.processed

/-! ## A long backlog -/

/-- One of many events. -/
def backlogEvent (k : Nat) (processedAt : Option Nat) : OutboxEvent where
  id := String.ofList (List.replicate (k + 1) 'e')
  type := "task_created"
  aggregateType := "task"
  aggregateId := "t"
  payload := .null
  processedAt := processedAt
  attempts := 0
  lastError := none

def backlogEntry (k : Nat) : StreamEntry where
  entryId := k + 1
  id := (backlogEvent k none).id
  type := "task_created"
  aggregateType := "task"
  aggregateId := "t"
  payload := .null

/-- While the workers were paused, `n` events were published; another one is stored. -/
def backlog (n : Nat) : Store where
  backend := .postgres
  tasks := []
  bids := []
  results := []
  outbox := (List.range n).map (fun k => backlogEvent k (some 0)) ++ [backlogEvent n none]
  consumptions := []
  stream := {
    entries := (List.range n).map backlogEntry
    lastId := n
    lastDelivered := 0
    pending := [] }
  issued := []

def pausedTick : Job := .tick { pauseWorkerConsumption := true } 0

/-- A paused tick publishes one event, and Redis drops one entry if the stream has more than 10000. -/
def publishesOne : List (Act Job Outcome) :=
  [.spawn pausedTick, goes 0, .run 0 { drop := 1 }, goes 0]

theorem short_backlog_kept :
    NothingLost (runSched market (.initial (backlog 2)) publishesOne).state :=
  pause_keeps (backlog 2) (by decide) (by decide +kernel) publishesOne (by decide +kernel)

theorem backlog_kept (n : Nat) : NothingLost (backlog n) := by
  intro event he hprocessed
  rcases List.mem_append.mp he with he | he
  · obtain ⟨k, hk, rfl⟩ := List.mem_map.mp he
    exact .inl ⟨backlogEntry k, List.mem_map_of_mem hk, rfl, .inl (Nat.succ_pos k)⟩
  · cases List.mem_singleton.mp he
    cases hprocessed

theorem backlog_published (n : Nat) :
    (runSched market (.initial (backlog n)) publishesOne).state =
      ({ backlog n with stream := (backlog n).stream.add (backlogEvent n none) 1 }).markEventProcessed
        (backlogEvent n none).id 0 := by
  have hlist : (backlog n).listUnprocessed 50 = [backlogEvent n none] := by
    have hdone : ((List.range n).map fun k => backlogEvent k (some 0)).filter
        (fun event => event.processedAt.isNone) = [] := by
      rw [List.filter_eq_nil_iff]
      simp [backlogEvent]
    show ((List.map _ _ ++ _).filter _).take 50 = _
    rw [List.filter_append, hdone]
    rfl
  have hstart : runSched market (.initial (backlog n)) [.spawn pausedTick, goes 0] =
      ⟨[⟨pausedTick, some (toEnd (do
          forEach publishEvent ((backlog n).listUnprocessed 50)
          pure ()))⟩], backlog n,
        [⟨0, .listUnprocessed 50, .ok ((backlog n).listUnprocessed 50)⟩]⟩ := by
    rfl
  rw [show publishesOne = [.spawn pausedTick, goes 0] ++ [.run 0 { drop := 1 }, goes 0] from rfl,
    runSched_append, hstart, hlist]
  rfl

theorem backlogEvent_id_inj {k l : Nat} {p q : Option Nat}
    (h : (backlogEvent k p).id = (backlogEvent l q).id) : k = l := by
  have hlength := congrArg (fun id => id.toList.length) h
  simpa [backlogEvent] using hlength

/-- The first event of a long backlog is pushed out by the next one. -/
theorem backlog_trimmed {n : Nat} (hn : 10000 ≤ n) :
    ¬ NothingLost (runSched market (.initial (backlog n)) publishesOne).state := by
  rw [backlog_published]
  intro hkept
  have hfirst : backlogEvent 0 (some 0) ∈
      (({ backlog n with stream := (backlog n).stream.add (backlogEvent n none) 1 } :
        Store).markEventProcessed (backlogEvent n none).id 0).outbox := by
    refine List.mem_map.mpr ⟨backlogEvent 0 (some 0), ?_, ?_⟩
    · refine List.mem_append_left _ (List.mem_map.mpr ⟨0, ?_, rfl⟩)
      rw [List.mem_range]
      omega
    · simp [backlogEvent]
  -- its entry is trimmed, and no consumption row stands for it
  rcases hkept _ hfirst rfl with ⟨e, he, hid, -⟩ | hrow
  · have hentries : e ∈ ((backlog n).stream.add (backlogEvent n none) 1).entries := he
    have htrimmed : (backlog n).stream.trimmed 1 = 1 := by
      simp [Stream.trimmed, backlog]
      omega
    rw [Stream.add_entries, htrimmed] at hentries
    have hlater : ∃ k, 1 ≤ k ∧ e.id = (backlogEvent k none).id := by
      rcases List.mem_append.mp hentries with he | he
      · obtain ⟨i, hi, rfl⟩ := List.mem_iff_getElem.mp he
        refine ⟨i + 1, by omega, ?_⟩
        simp [backlog, backlogEntry, Nat.add_comm]
      · cases List.mem_singleton.mp he
        exact ⟨n, by omega, rfl⟩
    obtain ⟨k, hk, hid'⟩ := hlater
    have := backlogEvent_id_inj (hid'.symm.trans hid)
    omega
  · cases hrow

/-- With 10000 entries unread, the next event pushes out the first one: it is marked processed, and
its entry is gone. -/
theorem long_backlog_loses_event :
    NothingLost (backlog 10000) ∧
    ¬ NothingLost (runSched market (.initial (backlog 10000)) publishesOne).state :=
  ⟨backlog_kept 10000, backlog_trimmed le_rfl⟩

end TrustGate.Market
