import TrustGate.Market.Alone
import TrustGate.Market.Rows

set_option autoImplicit false

/-! # Completing a task now or later

A completion request releases the escrow itself, or, where there is an outbox, leaves it to the
worker: the task waits as `COMPLETING`, an event goes through outbox and stream, and the worker
looks up task and bid once more. With nothing failing and nothing in between, both come to the same
tables by the same releases. -/

namespace TrustGate.Market

open Resumption

/-- The call succeeds, and a UUID is neither empty nor one that is `used`. -/
def Smooth (used : List String) (o : Op) (c : Outcome) : Prop :=
  c.fault = .none ∧ (o = .randomUUID → c.text ≠ "" ∧ c.text ∉ used)

theorem smooth_possible (used : List String) (o : Op) (m : Store) :
    ∃ c, Smooth used o c ∧ exec o c m ≠ none := by
  by_cases ho : o = .randomUUID
  · obtain ⟨id, hid⟩ := Infinite.exists_notMem_finset ("" :: used ++ m.issued).toFinset
    simp only [List.cons_append, List.mem_toFinset, List.mem_cons, List.mem_append, not_or] at hid
    subst ho
    refine ⟨{ text := id }, ⟨rfl, fun _ => ⟨hid.1, hid.2.1⟩⟩, ?_⟩
    simp [exec, perform, hid.2.2]
  · obtain ⟨c, hcalm, hexec⟩ := exec_possible o m
    exact ⟨c, ⟨hcalm, fun heq => absurd heq ho⟩, hexec⟩

/-- The escrows that were asked to be released, in order. -/
def releasedBy (log : Record) : List String :=
  log.filterMap fun e => match e.op with
    | .releaseMilestone escrowId => some escrowId
    | _ => none

theorem releasedBy_append (log log' : Record) :
    releasedBy (log ++ log') = releasedBy log ++ releasedBy log' :=
  List.filterMap_append

/-! ## The request -/

section

variable {used : List String} {cfg : Settings} {m : Store}

/-- What a completion request finds: why it is answered without further ado, or the task and the
winner of its auction. -/
def completionVerdict (cfg : Settings) (m : Store) (taskId : String) (body : Parsed CompleteBody) :
    Except Response (Task × Bid) :=
  match completeRequester cfg body with
  | .error response => .error response
  | .ok requester =>
    match m.findTask taskId with
    | none => .error (errorResponse 404 "task not found")
    | some task =>
      if task.requesterPublicKey ≠ requester then
        .error (errorResponse 403 "only the task requester can complete this task")
      else if task.status = .completed then .error ⟨200, withStatus task "already completed"⟩
      else if task.status = .completing then .error ⟨202, withStatus task "completion in progress"⟩
      else if task.status ≠ .assigned then
        .error (errorResponse 409 ("task is not assigned (status: " ++ task.status.text ++ ")"))
      else
        match winningBid (m.findBids taskId) with
        | none => .error (errorResponse 409 "no selected bid found for this task")
        | some winner =>
          if winner.executorPublicKey ∈ cfg.executorDenylist then
            .error (errorResponse 403
              "cannot complete task — executor is not allowed to release milestone")
          else .ok (task, winner)

/-- The verdict does not depend on whether there is an outbox. -/
theorem completionVerdict_outbox (cfg : Settings) (m : Store) (taskId : String)
    (body : Parsed CompleteBody) (hasOutbox : Bool) :
    completionVerdict { cfg with hasOutbox } m taskId body = completionVerdict cfg m taskId body :=
  rfl

theorem completionVerdict_ok {taskId : String} {body : Parsed CompleteBody} {task : Task}
    {winner : Bid} (h : completionVerdict cfg m taskId body = .ok (task, winner)) :
    m.findTask taskId = some task ∧ winningBid (m.findBids taskId) = some winner := by
  unfold completionVerdict at h
  split at h
  · cases h
  split at h
  · cases h
  rename_i found htask
  split_ifs at h
  split at h
  · cases h
  rename_i bid hbid
  split_ifs at h
  cases h
  exact ⟨htask, hbid⟩

/-- A request up to its verdict. -/
theorem complete_solo (taskId : String) (body : Parsed CompleteBody)
    {Q : Record → Except JsError Response → Store → Prop}
    (hanswered : ∀ response log, completionVerdict cfg m taskId body = .error response →
      releasedBy log = [] → Q log (.ok response) m)
    (hgoes : ∀ task winner reads, completionVerdict cfg m taskId body = .ok (task, winner) →
      releasedBy reads = [] →
      Solo exec (Smooth used) (settleCompletion cfg task winner) m fun log => Q (reads ++ log)) :
    Solo exec (Smooth used) (complete cfg taskId body) m Q := by
  unfold complete
  unfold completionVerdict at hanswered hgoes
  cases hrequester : completeRequester cfg body with
  | error response =>
      rw [hrequester] at hanswered
      exact (solo_pure _).mpr (hanswered response [] rfl rfl)
  | ok requester =>
      rw [hrequester] at hanswered hgoes
      dsimp only at hanswered hgoes ⊢
      refine solo_await (fun _ h _ => h.1) ?_
      rintro c found m₁ - hp
      cases hp
      cases htask : m.findTask taskId with
      | none =>
          rw [htask] at hanswered
          exact (solo_pure _).mpr (hanswered _ [_] rfl rfl)
      | some task =>
          rw [htask] at hanswered hgoes
          dsimp only at hanswered hgoes ⊢
          split_ifs at hanswered hgoes ⊢
          · exact (solo_pure _).mpr (hanswered _ [_] rfl rfl)
          · exact (solo_pure _).mpr (hanswered _ [_] rfl rfl)
          · exact (solo_pure _).mpr (hanswered _ [_] rfl rfl)
          · exact (solo_pure _).mpr (hanswered _ [_] rfl rfl)
          refine solo_await (fun _ h _ => h.1) ?_
          rintro c bids m₁ - hp
          cases hp
          cases hwinner : winningBid (m.findBids taskId) with
          | none =>
              rw [hwinner] at hanswered
              exact (solo_pure _).mpr (hanswered _ [_, _] rfl rfl)
          | some winner =>
              rw [hwinner] at hanswered hgoes
              dsimp only at hanswered hgoes ⊢
              split_ifs at hanswered hgoes ⊢
              · exact (solo_pure _).mpr (hanswered _ [_, _] rfl rfl)
              · exact hgoes task winner [_, _] rfl rfl

/-- Without an outbox the request releases the escrow and completes the task. -/
theorem settleNow_solo (hout : cfg.hasOutbox = false) (task : Task) (winner : Bid) :
    Solo exec (Smooth used) (settleCompletion cfg task winner) m fun log r m' =>
      releasedBy log = [winner.escrowId] ∧ (∃ body, r = .ok ⟨200, body⟩) ∧
      m' = m.saveTask { task with status := .completed } := by
  unfold settleCompletion
  rw [if_pos (by simp [hout]), solo_bind, solo_attempt]
  refine solo_await (fun _ h _ => h.1) ?_
  rintro c release m₁ - hp
  cases hp
  refine solo_await (fun _ h _ => h.1) ?_
  rintro c' _ m₁ - hp
  cases hp
  rw [solo_pure]
  dsimp only
  rw [solo_pure]
  exact ⟨rfl, ⟨_, rfl⟩, rfl⟩

/-- The event of a completion request. -/
def completionEvent (id : String) (task : Task) (winner : Bid) : OutboxEvent where
  id := id
  type := "task_completion_requested"
  aggregateType := "task"
  aggregateId := task.id
  payload := .obj [("taskId", .str task.id), ("escrowId", .str winner.escrowId)]
  processedAt := none
  attempts := 0
  lastError := none

/-- The store after a request that left the rest to the worker. -/
def Store.requested (m : Store) (id : String) (task : Task) (winner : Bid) : Store :=
  { m.saveTask { task with status := .completing } with
    outbox := m.outbox ++ [completionEvent id task winner]
    issued := id :: m.issued }

/-- With an outbox it leaves an event. -/
theorem settleLater_solo (hout : cfg.hasOutbox = true) (task : Task) (winner : Bid) :
    Solo exec (Smooth used) (settleCompletion cfg task winner) m fun log r m' =>
      releasedBy log = [] ∧ (∃ body, r = .ok ⟨202, body⟩) ∧
      ∃ id, id ≠ "" ∧ id ∉ used ∧ m' = m.requested id task winner := by
  unfold settleCompletion
  rw [if_neg (by simp [hout])]
  refine solo_await (fun _ h _ => h.1) ?_
  rintro c _ m₁ - hp
  cases hp
  unfold outboxEmit emit
  rw [if_pos hout, solo_bind]
  refine solo_await (fun _ h _ => h.1) ?_
  intro c' id m₁ hok huuid
  simp only [perform] at huuid
  split_ifs at huuid with hfresh
  cases huuid
  rw [solo_call]
  intro c'' r m₂ hok' hinsert
  obtain ⟨v, hp, rfl⟩ := exec_calm hinsert hok'.1
  cases hp
  dsimp only
  rw [solo_pure]
  exact ⟨rfl, ⟨_, rfl⟩, c'.text, (hok.2 rfl).1, (hok.2 rfl).2, rfl⟩

end

/-! ## The publisher -/

section

variable {used : List String} {m : Store}

/-- With nothing to publish the publisher does nothing. -/
theorem publishOnce_idle (h : ∀ event ∈ m.outbox, event.processedAt.isSome = true) :
    Solo exec (Smooth used) publishOnce m fun log r m' =>
      releasedBy log = [] ∧ r = .ok () ∧ m' = m := by
  unfold publishOnce
  refine solo_await (fun _ h _ => h.1) ?_
  rintro c events m₁ - hp
  cases hp
  have hnone : m.listUnprocessed 50 = [] := by
    unfold Store.listUnprocessed
    rw [List.filter_eq_nil_iff.mpr, List.take_nil]
    intro event hevent
    simp [Option.isSome_iff_ne_none.mp (h event hevent)]
  rw [hnone]
  exact (solo_pure ()).mpr ⟨rfl, rfl, rfl⟩

/-- The stream is empty. Ids that are pending or were delivered last belong to entries it held. -/
structure Stream.Drained (s : Stream) : Prop where
  entries : s.entries = []
  pending : ∀ p ∈ s.pending, p.entryId ≤ s.lastId
  delivered : s.lastDelivered ≤ s.lastId

/-- The entry of an event, the first to be added after the id `lastId`. -/
def entryOf (lastId : Nat) (event : OutboxEvent) : StreamEntry where
  entryId := lastId + 1
  id := event.id
  type := event.type
  aggregateType := event.aggregateType
  aggregateId := event.aggregateId
  payload := event.payload

/-- A single row goes to the empty stream. -/
theorem publishOnce_one {event : OutboxEvent} (houtbox : m.outbox = [event])
    (hnew : event.processedAt = none) (hentries : m.stream.entries = []) :
    Solo exec (Smooth used) publishOnce m fun log r m' => releasedBy log = [] ∧ r = .ok () ∧
      ∃ now stream, m' = { m with outbox := [{ event with processedAt := some now }], stream } ∧
        stream.entries = [entryOf m.stream.lastId event] ∧
        stream.lastDelivered = m.stream.lastDelivered ∧ stream.pending = m.stream.pending := by
  unfold publishOnce
  refine solo_await (fun _ h _ => h.1) ?_
  rintro c events m₁ - hp
  cases hp
  have hone : m.listUnprocessed 50 = [event] := by
    simp [Store.listUnprocessed, houtbox, hnew]
  rw [hone, forEach, solo_bind]
  unfold publishEvent
  rw [solo_bind, solo_attempt]
  refine solo_await (fun _ h _ => h.1) ?_
  rintro c _ m₁ - hp
  cases hp
  rw [solo_call]
  intro c' r m₂ hok hmark
  obtain ⟨v, hp, rfl⟩ := exec_calm hmark hok.1
  cases hp
  dsimp only
  rw [solo_pure]
  refine (solo_pure ()).mpr ⟨rfl, rfl, c'.now, m.stream.add event c.drop, ?_, ?_, rfl, rfl⟩
  · simp [Store.markEventProcessed, updateWhere, houtbox, hnew]
  -- a stream of one entry is not trimmed
  · simp [Stream.add, hentries, entryOf]

end

/-! ## Retries that find no event -/

section

variable {used : List String} {cfg : Settings} {m m' : Store}

/-- A consumption that is not finished has no outbox row to be retried with. -/
def Idle (m : Store) : Prop :=
  ∀ r ∈ m.consumptions, r.status = .succeeded ∨ m.findEvent r.eventId = none

/-- A retry leaves tasks, bids and outbox alone, and everything idle. -/
structure Retried (m m' : Store) : Prop where
  tasks : m'.tasks = m.tasks
  bids : m'.bids = m.bids
  outbox : m'.outbox = m.outbox
  idle : Idle m'

theorem Retried.trans {m₁ m₂ m₃ : Store} (h : Retried m₁ m₂) (h' : Retried m₂ m₃) :
    Retried m₁ m₃ :=
  ⟨h'.tasks.trans h.tasks, h'.bids.trans h.bids, h'.outbox.trans h.outbox, h'.idle⟩

theorem findEvent_congr {m m' : Store} (h : m'.outbox = m.outbox) (id : String) :
    m'.findEvent id = m.findEvent id := by
  rw [Store.findEvent, Store.findEvent, h]

theorem mem_updateConsumption {handlerName eventId : String}
    {f : EventConsumptionRecord → EventConsumptionRecord} {r : EventConsumptionRecord}
    (hf : ∀ r, (f r).eventId = r.eventId)
    (hr : r ∈ (m.updateConsumption handlerName eventId f).consumptions) :
    r ∈ m.consumptions ∨ r.eventId = eventId := by
  unfold Store.updateConsumption updateWhere at hr
  obtain ⟨row, hrow, rfl⟩ := List.mem_map.mp hr
  split_ifs with hfor
  · right
    rw [hf]
    simp only [EventConsumptionRecord.isFor, Bool.and_eq_true, decide_eq_true_eq] at hfor
    exact hfor.2
  · exact .inl hrow

theorem mem_markFailed {handlerName eventId error : String} {nextRetryAt now : Nat}
    {r : EventConsumptionRecord}
    (hr : r ∈ (m.markFailed handlerName eventId error nextRetryAt now).consumptions) :
    r ∈ m.consumptions ∨ r.eventId = eventId :=
  mem_updateConsumption (f := .fail error nextRetryAt now) (fun _ => rfl) hr

theorem mem_tryStart {args : StartArgs} {now : Nat} {r : EventConsumptionRecord}
    (hr : r ∈ (m.tryStart args now).2.consumptions) :
    r ∈ m.consumptions ∨ r.eventId = args.eventId := by
  rcases m.tryStart_cases args now with ⟨-, heq⟩ | ⟨existing, -, -, heq⟩ | ⟨existing, -, -, heq⟩
  · rw [heq] at hr
    rcases List.mem_append.mp hr with hr | hr
    · exact .inl hr
    · rw [List.mem_singleton.mp hr]
      exact .inr rfl
  · rw [heq] at hr
    exact .inl hr
  · rw [heq] at hr
    exact mem_updateConsumption (f := fun r => r.again args now) (fun _ => rfl) hr

theorem mem_of_due {handlerName : String} {limit now : Nat} {r : EventConsumptionRecord}
    (hr : r ∈ m.listDueRetries handlerName limit now) :
    r ∈ m.consumptions ∧ r.status = .failed := by
  have hdue := (List.mem_insertionSort _).mp (List.mem_of_mem_take hr)
  obtain ⟨hmem, hfailed⟩ := List.mem_filter.mp hdue
  simp only [Bool.and_eq_true, decide_eq_true_eq] at hfailed
  exact ⟨hmem, hfailed.1.2⟩

/-- Rows of an event that has no outbox row may come and go. -/
theorem Idle.change {eventId : String} (h : Idle m) (hevent : m.findEvent eventId = none)
    (houtbox : m'.outbox = m.outbox)
    (hrows : ∀ r ∈ m'.consumptions, r ∈ m.consumptions ∨ r.eventId = eventId) : Idle m' := by
  intro r hr
  rw [findEvent_congr houtbox]
  rcases hrows r hr with hold | hnew
  · exact h r hold
  · rw [hnew]
    exact .inr hevent

/-- A retry of an event that has no outbox row is put off. -/
theorem retryRecord_idle {record : EventConsumptionRecord} (hidle : Idle m)
    (hevent : m.findEvent record.eventId = none) :
    Solo exec (Smooth used) (retryRecord cfg record) m fun log r m' =>
      releasedBy log = [] ∧ r = .ok () ∧ Retried m m' := by
  unfold retryRecord
  refine solo_await (fun _ h _ => h.1) ?_
  intro c started m₁ _ hstart
  have hframe := perform_frame hstart
  have hrows : ∀ r ∈ m₁.consumptions, r ∈ m.consumptions ∨ r.eventId = record.eventId := by
    have hm₁ : m₁ = (m.tryStart _ c.now).2 := (congrArg Prod.snd (Option.some.inj hstart)).symm
    rw [hm₁]
    exact fun r hr => mem_tryStart hr
  have houtbox : m₁.outbox = m.outbox := hframe.outbox (by simp) (by simp) (by simp)
  have hstarted : Retried m m₁ := ⟨hframe.tasks (by simp), hframe.bids (by simp), houtbox,
    hidle.change hevent houtbox hrows⟩
  have hevent₁ : m₁.findEvent record.eventId = none := by rwa [findEvent_congr houtbox]
  split_ifs
  case neg => exact (solo_pure ()).mpr ⟨rfl, rfl, hstarted⟩
  refine solo_await (fun _ h _ => h.1) ?_
  rintro c' found m₂ - hp
  cases hp
  rw [hevent₁]
  dsimp only
  unfold computeBackoff
  rw [solo_bind]
  refine solo_await (fun _ h _ => h.1) ?_
  rintro c'' now m₂ - hp
  cases hp
  rw [solo_pure]
  dsimp only
  rw [solo_call]
  intro c₃ r m₃ hok hmark
  obtain ⟨v, hp, rfl⟩ := exec_calm hmark hok.1
  cases hp
  refine ⟨rfl, rfl, hstarted.trans ⟨rfl, rfl, rfl, hstarted.idle.change hevent₁ rfl ?_⟩⟩
  exact fun r hr => mem_markFailed hr

/-- A due-retry pass. -/
theorem retryDue_idle {handlerName : String} (hidle : Idle m) :
    Solo exec (Smooth used) (retryDue cfg handlerName) m fun log r m' =>
      releasedBy log = [] ∧ r = .ok () ∧ Retried m m' := by
  unfold retryDue
  refine solo_await (fun _ h _ => h.1) ?_
  rintro c due m₁ - hp
  cases hp
  -- what is due has failed, so it has no outbox row, then or later
  have hdue : ∀ r ∈ m.listDueRetries handlerName 25 c.now, m.findEvent r.eventId = none := by
    intro r hr
    obtain ⟨hmem, hfailed⟩ := mem_of_due hr
    rcases hidle r hmem with hsucceeded | hevent
    · rw [hfailed] at hsucceeded
      cases hsucceeded
    · exact hevent
  refine (solo_forEach (Q := fun log r m' => releasedBy log = [] ∧ r = .ok () ∧ Retried m m')
    (fun left log m' => releasedBy log = [] ∧ Retried m m' ∧
      ∀ r ∈ left, m.findEvent r.eventId = none) ?_ (fun _ _ h => ⟨h.1, rfl, h.2.1⟩) _ [] m
    ⟨rfl, ⟨rfl, rfl, rfl, hidle⟩, hdue⟩).mono fun _ _ _ h => h
  rintro record left log m₁ ⟨hlog, hretried, hleft⟩
  have hevent : m₁.findEvent record.eventId = none := by
    rw [findEvent_congr hretried.outbox]
    exact hleft record List.mem_cons_self
  refine (retryRecord_idle hretried.idle hevent).mono ?_
  rintro log' r m₂ ⟨hlog', rfl, hnext⟩
  refine ⟨by rw [releasedBy_append, hlog, hlog']; rfl, hretried.trans hnext, ?_⟩
  exact fun r hr => hleft r (List.mem_cons_of_mem _ hr)

end

/-! ## The worker's turn -/

section

variable {used : List String} {cfg : Settings} {m : Store} {task : Task} {winner : Bid}

/-- What the worker leaves when it has completed `task`. -/
structure Completed (used : List String) (m : Store) (task : Task) (m' : Store) : Prop where
  tasks : m'.tasks = (m.saveTask { task with status := .completed }).tasks
  bids : m'.bids = m.bids
  outbox : ∃ event : OutboxEvent, m'.outbox = m.outbox ++ [event] ∧ event.id ∉ used

/-- The handler of a completion event, while the task waits. -/
theorem handler_solo (eventId : String) (hid : task.id ≠ "") (hescrow : winner.escrowId ≠ "")
    (htask : m.findTask task.id = some { task with status := .completing })
    (hwinner : winningBid (m.findBids task.id) = some winner) :
    Solo exec (Smooth used) (handleTaskCompletionRequested eventId
        (.obj [("taskId", .str task.id), ("escrowId", .str winner.escrowId)])) m
      fun log r m' => releasedBy log = [winner.escrowId] ∧ r = .ok () ∧ Completed used m task m' ∧
        m'.consumptions = m.consumptions := by
  unfold handleTaskCompletionRequested
  have htaskId : (Json.obj [("taskId", .str task.id), ("escrowId", .str winner.escrowId)]).text
      "taskId" = task.id := rfl
  have hescrowId : (Json.obj [("taskId", .str task.id), ("escrowId", .str winner.escrowId)]).text
      "escrowId" = winner.escrowId := rfl
  rw [if_neg (by simp [Json.isNull]), htaskId, hescrowId, if_neg (by simp [hid, hescrow])]
  refine solo_await (fun _ h _ => h.1) ?_
  rintro c found m₁ - hp
  cases hp
  rw [htask]
  dsimp only
  rw [if_neg (by simp), if_neg (by simp)]
  refine solo_await (fun _ h _ => h.1) ?_
  rintro c bids m₁ - hp
  cases hp
  rw [hwinner]
  dsimp only
  refine solo_await (fun _ h _ => h.1) ?_
  rintro c release m₁ - hp
  cases hp
  refine solo_await (fun _ h _ => h.1) ?_
  rintro c _ m₁ - hp
  cases hp
  unfold emit
  refine solo_await (fun _ h _ => h.1) ?_
  intro c id m₁ huuid hp
  simp only [perform] at hp
  split_ifs at hp
  cases hp
  rw [solo_call]
  intro c' r m₂ hok hinsert
  obtain ⟨v, hp, rfl⟩ := exec_calm hinsert hok.1
  cases hp
  exact ⟨rfl, rfl, ⟨rfl, rfl, _, rfl, (huuid.2 rfl).2⟩, rfl⟩

/-- A consumption of such an event that was started. -/
theorem dispatchStarted_solo {handlerName eventId : String} {attempts : Nat} (hid : task.id ≠ "")
    (hescrow : winner.escrowId ≠ "")
    (htask : m.findTask task.id = some { task with status := .completing })
    (hwinner : winningBid (m.findBids task.id) = some winner) :
    Solo exec (Smooth used)
        (dispatchStarted cfg handlerName eventId eventId "task_completion_requested"
          (.obj [("taskId", .str task.id), ("escrowId", .str winner.escrowId)]) attempts) m
      fun log r m' => releasedBy log = [winner.escrowId] ∧ r = .ok () ∧ Completed used m task m' ∧
        ∃ now, m'.consumptions = (m.markSucceeded handlerName eventId now).consumptions := by
  unfold dispatchStarted
  rw [solo_bind, solo_attempt, solo_bind]
  unfold dispatch
  rw [if_pos rfl]
  refine (handler_solo eventId hid hescrow htask hwinner).mono ?_
  rintro log r m₁ ⟨hlog, rfl, hcompleted, hrows⟩
  dsimp only
  rw [solo_call]
  intro c r m₂ hok hmark
  obtain ⟨v, hp, rfl⟩ := exec_calm hmark hok.1
  cases hp
  dsimp only
  rw [solo_pure]
  refine ⟨?_, rfl, ⟨hcompleted.tasks, hcompleted.bids, hcompleted.outbox⟩, c.now, ?_⟩
  · rw [releasedBy_append, releasedBy_append, hlog]
    rfl
  · simp only [Store.markSucceeded, Store.updateConsumption, hrows]

/-- The entry of a completion event that was never taken up. -/
theorem handleEntry_solo {entry : StreamEntry} (hentry : entry.id ≠ "")
    (htype : entry.type = "task_completion_requested")
    (hpayload : entry.payload = .obj [("taskId", .str task.id), ("escrowId", .str winner.escrowId)])
    (hnew : ∀ r ∈ m.consumptions, r.eventId ≠ entry.id)
    (hid : task.id ≠ "") (hescrow : winner.escrowId ≠ "")
    (htask : m.findTask task.id = some { task with status := .completing })
    (hwinner : winningBid (m.findBids task.id) = some winner) :
    Solo exec (Smooth used) (handleEntry cfg entry) m fun log r m' =>
      releasedBy log = [winner.escrowId] ∧ r = .ok () ∧ Completed used m task m' ∧
      ∀ r ∈ m'.consumptions, r ∈ m.consumptions ∨ r.status = .succeeded := by
  unfold handleEntry
  rw [if_neg (by simp [hentry, htype]), htype, hpayload]
  dsimp only
  refine solo_await (fun _ h _ => h.1) ?_
  intro c started m₁ _ hstart
  have hnone : m.findConsumption ("event:" ++ "task_completion_requested") entry.id = none := by
    unfold Store.findConsumption
    rw [List.find?_eq_none]
    intro r hr
    simp [EventConsumptionRecord.isFor, hnew r hr]
  simp only [perform, Store.tryStart, hnone] at hstart
  cases hstart
  rw [if_neg (by simp), solo_bind, solo_attempt]
  refine Solo.mono (dispatchStarted_solo hid hescrow htask hwinner) ?_
  rintro log r m₂ ⟨hlog, rfl, hcompleted, now, hrows⟩
  dsimp only
  refine solo_await (fun _ h _ => h.1) ?_
  rintro c₂ _ m₃ - hp
  cases hp
  rw [solo_pure]
  refine ⟨?_, rfl, ⟨hcompleted.tasks, hcompleted.bids, hcompleted.outbox⟩, ?_⟩
  · change releasedBy ([_] ++ (log ++ [_])) = [winner.escrowId]
    rw [releasedBy_append, releasedBy_append, hlog]
    rfl
  -- the only row of the event is the new one
  · intro r hr
    change r ∈ m₂.consumptions at hr
    rw [hrows] at hr
    obtain ⟨row, hrow, rfl⟩ := List.mem_map.mp hr
    rcases List.mem_append.mp hrow with hold | hlast
    · rw [if_neg (by simp [EventConsumptionRecord.isFor, hnew row hold])]
      exact .inl hold
    · rw [List.mem_singleton.mp hlast]
      right
      simp [EventConsumptionRecord.isFor]

/-- Nothing is claimed from consumers that have acknowledged what the stream still holds. -/
theorem autoClaimOnce_idle {claimCursor : Nat}
    (hpending : ∀ p ∈ m.stream.pending, ∀ entry ∈ m.stream.entries, p.entryId ≠ entry.entryId) :
    Solo exec (Smooth used) (autoClaimOnce cfg claimCursor) m fun log r m' =>
      releasedBy log = [] ∧ r = .ok () ∧ ∃ pending, m' = { m with
        stream := { m.stream with pending } } := by
  unfold autoClaimOnce
  refine solo_await (fun _ h _ => h.1) ?_
  rintro c ⟨next, entries⟩ m₁ - hp
  simp only [perform, Stream.autoClaim] at hp
  cases hp
  -- a claimed entry would be pending
  have hnone : ∀ taken : List PendingEntry, taken ⊆ m.stream.pending →
      m.stream.entries.filter (fun e => e.entryId ∈ taken.map PendingEntry.entryId) = [] := by
    intro taken htaken
    rw [List.filter_eq_nil_iff]
    intro entry hentry hmem
    obtain ⟨p, hp, heq⟩ := List.mem_map.mp (of_decide_eq_true hmem)
    exact hpending p (htaken hp) entry hentry heq
  rw [hnone _ fun p hp => List.mem_of_mem_filter (List.mem_of_mem_take hp)]
  exact (solo_pure ()).mpr ⟨rfl, rfl, _, rfl⟩

/-- Nothing is read from a stream without entries. -/
theorem pollOnce_idle (hentries : m.stream.entries = []) :
    Solo exec (Smooth used) (pollOnce cfg) m fun log r m' => releasedBy log = [] ∧ r = .ok () ∧
      ∃ stream, m' = { m with stream } := by
  unfold pollOnce
  refine solo_await (fun _ h _ => h.1) ?_
  rintro c entries m₁ - hp
  simp only [perform, Stream.readGroup, hentries] at hp
  cases hp
  exact (solo_pure ()).mpr ⟨rfl, rfl, _, rfl⟩

/-- The one entry of the stream is read and handled. -/
theorem pollOnce_one {entry : StreamEntry} (hentries : m.stream.entries = [entry])
    (hunread : m.stream.lastDelivered < entry.entryId) (hentry : entry.id ≠ "")
    (htype : entry.type = "task_completion_requested")
    (hpayload : entry.payload = .obj [("taskId", .str task.id), ("escrowId", .str winner.escrowId)])
    (hnew : ∀ r ∈ m.consumptions, r.eventId ≠ entry.id)
    (hid : task.id ≠ "") (hescrow : winner.escrowId ≠ "")
    (htask : m.findTask task.id = some { task with status := .completing })
    (hwinner : winningBid (m.findBids task.id) = some winner) :
    Solo exec (Smooth used) (pollOnce cfg) m fun log r m' => releasedBy log = [winner.escrowId] ∧
      r = .ok () ∧ Completed used m task m' ∧
      ∀ r ∈ m'.consumptions, r ∈ m.consumptions ∨ r.status = .succeeded := by
  unfold pollOnce
  refine solo_await (fun _ h _ => h.1) ?_
  rintro c entries m₁ - hp
  have hone : (m.stream.entries.filter fun e => m.stream.lastDelivered < e.entryId).take 20 =
      [entry] := by
    simp [hentries, hunread]
  simp only [perform, Stream.readGroup, hone] at hp
  cases hp
  rw [forEach, solo_bind]
  refine Solo.mono (handleEntry_solo hentry htype hpayload hnew hid hescrow htask hwinner) ?_
  rintro log r m₂ ⟨hlog, rfl, hcompleted, hrows⟩
  refine (solo_pure ()).mpr ⟨?_, rfl, ⟨hcompleted.tasks, hcompleted.bids, hcompleted.outbox⟩, hrows⟩
  rw [List.append_nil]
  exact hlog

/-- The due-retry passes of a tick. -/
theorem retries_idle (hidle : Idle m) (handlerNames : List String) :
    Solo exec (Smooth used) (forEach (retryDue cfg) handlerNames) m fun log r m' =>
      releasedBy log = [] ∧ r = .ok () ∧ Retried m m' := by
  refine (solo_forEach (Q := fun log r m' => releasedBy log = [] ∧ r = .ok () ∧ Retried m m')
    (fun _ log m' => releasedBy log = [] ∧ Retried m m') ?_ (fun _ _ h => ⟨h.1, rfl, h.2⟩)
    handlerNames [] m ⟨rfl, rfl, rfl, rfl, hidle⟩).mono fun _ _ _ h => h
  rintro handlerName left log m₁ ⟨hlog, hretried⟩
  refine (retryDue_idle hretried.idle).mono ?_
  rintro log' r m₂ ⟨hlog', rfl, hnext⟩
  exact ⟨by rw [releasedBy_append, hlog, hlog']; rfl, hretried.trans hnext⟩

/-- A tick with nothing to publish and nothing to claim does what its poll does. -/
theorem tick_solo {claimCursor : Nat} (escrowIds : List String) (tasks : List Task)
    (bids : List Bid) (hpause : cfg.pauseWorkerConsumption = false)
    (hpublished : ∀ event ∈ m.outbox, event.processedAt.isSome = true)
    (hpending : ∀ p ∈ m.stream.pending, ∀ entry ∈ m.stream.entries, p.entryId ≠ entry.entryId)
    (hpoll : ∀ pending, Solo exec (Smooth used) (pollOnce cfg)
      { m with stream := { m.stream with pending } } fun log r m' =>
        releasedBy log = escrowIds ∧ r = .ok () ∧ m'.tasks = tasks ∧ m'.bids = bids ∧ Idle m') :
    Solo exec (Smooth used) (tick cfg claimCursor) m fun log r m' =>
      releasedBy log = escrowIds ∧ r = .ok () ∧ m'.tasks = tasks ∧ m'.bids = bids := by
  unfold tick
  rw [solo_bind]
  refine (publishOnce_idle hpublished).mono ?_
  rintro log₁ r m₁ ⟨hlog₁, rfl, rfl⟩
  dsimp only
  rw [if_neg (by simp [hpause]), solo_bind]
  refine (autoClaimOnce_idle hpending).mono ?_
  rintro log₂ r m₂ ⟨hlog₂, rfl, pending, rfl⟩
  dsimp only
  rw [solo_bind]
  refine (hpoll pending).mono ?_
  rintro log₃ r m₃ ⟨hlog₃, rfl, htasks, hbids, hidle⟩
  dsimp only
  refine (retries_idle hidle _).mono ?_
  rintro log₄ r m₄ ⟨hlog₄, rfl, hretried⟩
  refine ⟨?_, rfl, hretried.tasks.trans htasks, hretried.bids.trans hbids⟩
  simp only [releasedBy_append, hlog₁, hlog₂, hlog₃, hlog₄, List.nil_append, List.append_nil]

end

/-! ## Both ways -/

section

variable {cfg worker : Settings} {m : Store} {taskId : String} {body : Parsed CompleteBody}

/-- A completion request, and what a publisher and a worker make of it before anything else
happens. -/
def completeLater (cfg worker : Settings) (claimCursor : Nat) (taskId : String)
    (body : Parsed CompleteBody) : Js Response := do
  let response ← complete { cfg with hasOutbox := true } taskId body
  publishOnce
  tick worker claimCursor
  return response

/-- How a completion ends: with an answer and nothing done, or with one release and the task
completed, answered with `status`. -/
def Ended (m : Store) (status : Nat) :
    Except Response (Task × Bid) → Record → Except JsError Response → Store → Prop
  | .error response, log, r, m' =>
      releasedBy log = [] ∧ r = .ok response ∧ m'.tasks = m.tasks ∧ m'.bids = m.bids
  | .ok (task, winner), log, r, m' =>
      releasedBy log = [winner.escrowId] ∧ (∃ body, r = .ok ⟨status, body⟩) ∧
        m'.tasks = (m.saveTask { task with status := .completed }).tasks ∧ m'.bids = m.bids

theorem completeNow_solo (used : List String) :
    Solo exec (Smooth used) (complete { cfg with hasOutbox := false } taskId body) m
      (Ended m 200 (completionVerdict cfg m taskId body)) := by
  rw [← completionVerdict_outbox cfg m taskId body false]
  refine complete_solo taskId body ?_ ?_
  · intro response log hverdict hlog
    rw [hverdict]
    exact ⟨hlog, rfl, rfl, rfl⟩
  · intro task winner reads hverdict hreads
    rw [hverdict]
    refine (settleNow_solo rfl task winner).mono ?_
    rintro log r m' ⟨hlog, hr, rfl⟩
    exact ⟨by rw [releasedBy_append, hreads, hlog]; rfl, hr, rfl, rfl⟩

/-- The later save of a row is the one that counts. -/
theorem upsert_upsert {ρ : Type} (key : ρ → String) (row row' : ρ) (h : key row = key row')
    (rows : List ρ) :
    upsert key (fun _ new => new) row' (upsert key (fun _ new => new) row rows) =
      upsert key (fun _ new => new) row' rows := by
  induction rows with
  | nil => simp [upsert, h]
  | cons old rows ih =>
      by_cases hold : key old = key row
      · simp [upsert, hold, h]
      · simp [upsert, hold, ← h, ih]

/-- The store once the event of a request is published. -/
def Store.published (m : Store) (id : String) (task : Task) (winner : Bid) (now : Nat)
    (stream : Stream) : Store :=
  { m.requested id task winner with
    outbox := [{ completionEvent id task winner with processedAt := some now }]
    stream }

/-- The poll that finds the event completes the task, and leaves no consumption to be retried. -/
theorem pollOnce_published {task : Task} {winner : Bid} {id : String} {now : Nat}
    (stream : Stream) (htask : m.findTask taskId = some task)
    (hwinner : winningBid (m.findBids taskId) = some winner) (htaskId : task.id ≠ "")
    (hescrow : winner.escrowId ≠ "") (hid : id ≠ "")
    (hfresh : id ∉ m.consumptions.map (·.eventId))
    (hentries : stream.entries = [entryOf m.stream.lastId (completionEvent id task winner)])
    (hdelivered : stream.lastDelivered ≤ m.stream.lastId) :
    Solo exec (Smooth (m.consumptions.map (·.eventId))) (pollOnce worker)
      (m.published id task winner now stream) fun log r m' =>
      releasedBy log = [winner.escrowId] ∧ r = .ok () ∧
        m'.tasks = (m.saveTask { task with status := .completed }).tasks ∧ m'.bids = m.bids ∧
        Idle m' := by
  have hcompleting : (m.published id task winner now stream).findTask task.id =
      some { task with status := .completing } := by
    refine (Store.findTask_saveTask m { task with status := .completing } task.id).trans ?_
    rw [if_pos rfl]
  have hbids :
      winningBid ((m.published id task winner now stream).findBids task.id) = some winner := by
    rw [Store.findTask_id htask]
    exact hwinner
  refine (pollOnce_one hentries ?_ hid rfl rfl ?_ htaskId hescrow hcompleting hbids).mono ?_
  · exact Nat.lt_succ_of_le hdelivered
  · intro r hr heq
    exact hfresh (List.mem_map.mpr ⟨r, hr, heq⟩)
  rintro log r m' ⟨hlog, rfl, hcompleted, hrows⟩
  refine ⟨hlog, rfl, ?_, hcompleted.bids, ?_⟩
  · rw [hcompleted.tasks]
    exact upsert_upsert Task.id { task with status := .completing }
      { task with status := .completed } rfl m.tasks
  · intro r hr
    rcases hrows r hr with hold | hsucceeded
    · right
      obtain ⟨event, houtbox, hevent⟩ := hcompleted.outbox
      have hknown : r.eventId ∈ m.consumptions.map (·.eventId) := List.mem_map_of_mem hold
      unfold Store.findEvent
      rw [houtbox, List.find?_eq_none]
      rintro e he
      rcases List.mem_append.mp he with he | he
      · rw [List.mem_singleton.mp he]
        intro heq
        have hsame : id = r.eventId := of_decide_eq_true heq
        exact hfresh (hsame ▸ hknown)
      · rw [List.mem_singleton.mp he]
        intro heq
        have hsame : event.id = r.eventId := of_decide_eq_true heq
        exact hevent (hsame ▸ hknown)
    · exact .inl hsucceeded

theorem completeLater_solo {claimCursor : Nat} (hids : ∀ task ∈ m.tasks, task.id ≠ "")
    (hescrows : ∀ bid ∈ m.bids, bid.escrowId ≠ "") (houtbox : m.outbox = [])
    (hstream : m.stream.Drained) (hpause : worker.pauseWorkerConsumption = false) :
    Solo exec (Smooth (m.consumptions.map (·.eventId)))
      (completeLater cfg worker claimCursor taskId body) m
      (Ended m 202 (completionVerdict cfg m taskId body)) := by
  rw [← completionVerdict_outbox cfg m taskId body true]
  unfold completeLater
  rw [solo_bind]
  refine complete_solo taskId body ?_ ?_
  -- nothing to publish, nothing to read
  · intro response log hverdict hlog
    rw [hverdict]
    dsimp only
    rw [solo_bind]
    refine (publishOnce_idle (by simp [houtbox])).mono ?_
    rintro log₁ r m₁ ⟨hlog₁, rfl, rfl⟩
    dsimp only
    rw [solo_bind]
    refine (tick_solo [] m₁.tasks m₁.bids hpause (by simp [houtbox])
      (by simp [hstream.entries]) ?_).mono ?_
    · intro pending
      refine Solo.mono (pollOnce_idle hstream.entries) ?_
      rintro log₂ r m₂ ⟨hlog₂, rfl, stream, rfl⟩
      refine ⟨hlog₂, rfl, rfl, rfl, fun r hr => .inr ?_⟩
      simp [Store.findEvent, houtbox]
    · rintro log₂ r m₂ ⟨hlog₂, rfl, htasks, hbids⟩
      dsimp only
      rw [solo_pure]
      refine ⟨?_, rfl, htasks, hbids⟩
      simp only [releasedBy_append, hlog, hlog₁, hlog₂, List.append_nil]
  -- the worker reads the entry and finds task and bid as the request left them
  · intro task winner reads hverdict hreads
    obtain ⟨htask, hwinner⟩ := completionVerdict_ok hverdict
    have hbid : winner ∈ m.bids := (Store.mem_findBids.mp (List.mem_of_find?_eq_some hwinner)).1
    rw [hverdict]
    refine (settleLater_solo rfl task winner).mono ?_
    rintro log r m₁ ⟨hlog, ⟨answer, rfl⟩, id, hid, hfresh, rfl⟩
    dsimp only
    rw [solo_bind]
    have hone : (m.requested id task winner).outbox = [completionEvent id task winner] := by
      simp [Store.requested, houtbox]
    refine (publishOnce_one hone rfl hstream.entries).mono ?_
    rintro log₁ r m₁ ⟨hlog₁, rfl, now, stream, rfl, hentries, hdelivered, hpending⟩
    dsimp only
    rw [solo_bind]
    refine (tick_solo [winner.escrowId] (m.saveTask { task with status := .completed }).tasks m.bids
      hpause (by simp) ?_ ?_).mono ?_
    · intro p hp entry hentry
      have hbound := hstream.pending p (hpending ▸ hp)
      rw [hentries, List.mem_singleton] at hentry
      have hlast : entry.entryId = m.stream.lastId + 1 := congrArg StreamEntry.entryId hentry
      omega
    · intro pending
      exact pollOnce_published { stream with pending } htask hwinner
        (hids task (List.mem_of_find?_eq_some htask)) (hescrows winner hbid) hid hfresh hentries
        (hdelivered ▸ hstream.delivered)
    · rintro log₂ r m₂ ⟨hlog₂, rfl, htasks, hbids⟩
      dsimp only
      rw [solo_pure]
      refine ⟨?_, ⟨_, rfl⟩, htasks, hbids⟩
      simp only [releasedBy_append, hreads, hlog, hlog₁, hlog₂, List.append_nil, List.nil_append]

/-- Both requests run to their ends from `m`, and whatever the UUIDs and times, they ask for the
same releases, leave the same tasks and bids, and refuse with the same answers. -/
structure CompleteAlike (m : Store) (now later : Js Response) : Prop where
  now_ends : ∃ log r m', Runs exec (Smooth (m.consumptions.map (·.eventId))) now.run m log r m'
  later_ends : ∃ log r m', Runs exec (Smooth (m.consumptions.map (·.eventId))) later.run m log r m'
  same : ∀ log r m₁ log' r' m₂,
    Runs exec (Smooth (m.consumptions.map (·.eventId))) now.run m log r m₁ →
    Runs exec (Smooth (m.consumptions.map (·.eventId))) later.run m log' r' m₂ →
    releasedBy log' = releasedBy log ∧ m₂.tasks = m₁.tasks ∧ m₂.bids = m₁.bids ∧
      ∀ response, 400 ≤ response.status → (r = .ok response ↔ r' = .ok response)

/-- **Completing later refines completing now.** -/
theorem completeLater_refines (cfg worker : Settings) (claimCursor : Nat) (m : Store)
    (taskId : String) (body : Parsed CompleteBody) (hids : ∀ task ∈ m.tasks, task.id ≠ "")
    (hescrows : ∀ bid ∈ m.bids, bid.escrowId ≠ "") (houtbox : m.outbox = [])
    (hstream : m.stream.Drained) (hpause : worker.pauseWorkerConsumption = false) :
    CompleteAlike m (complete { cfg with hasOutbox := false } taskId body)
      (completeLater cfg worker claimCursor taskId body) where
  now_ends := exists_runs (smooth_possible _) _ m
  later_ends := exists_runs (smooth_possible _) _ m
  same := by
    intro log r m₁ log' r' m₂ hnow hlater
    have hended := completeNow_solo _ log r m₁ hnow
    have hended' := completeLater_solo hids hescrows houtbox hstream hpause log' r' m₂ hlater
    cases hverdict : completionVerdict cfg m taskId body with
    | error response =>
        rw [hverdict] at hended hended'
        obtain ⟨hlog, rfl, htasks, hbids⟩ := hended
        obtain ⟨hlog', rfl, htasks', hbids'⟩ := hended'
        exact ⟨hlog'.trans hlog.symm, htasks'.trans htasks.symm, hbids'.trans hbids.symm,
          fun _ _ => Iff.rfl⟩
    | ok found =>
        rw [hverdict] at hended hended'
        obtain ⟨hlog, ⟨answer, rfl⟩, htasks, hbids⟩ := hended
        obtain ⟨hlog', ⟨answer', rfl⟩, htasks', hbids'⟩ := hended'
        refine ⟨hlog'.trans hlog.symm, htasks'.trans htasks.symm, hbids'.trans hbids.symm, ?_⟩
        -- neither is a refusal
        intro response hstatus
        constructor
        · rintro ⟨⟩
          simp at hstatus
        · rintro ⟨⟩
          simp at hstatus

end

/-- An assigned task, with a consumption of an earlier event that failed. -/
def oneAssigned : Store where
  backend := .postgres
  tasks := [⟨"t", "R", 100, "", 0, .assigned⟩]
  bids := [⟨"b1", "t", "E1", 30, 1, "e1", .rejected, 0⟩,
    ⟨"b2", "t", "E2", 20, 1, "e2", .selected, 1⟩]
  results := []
  outbox := []
  consumptions := [⟨"event:result_published", "v", some 3, .failed, 1, none, none, 0, 0⟩]
  stream := ⟨[], 3, 3, [⟨2, "worker"⟩]⟩
  issued := ["v"]

/-- Its requester completes it now or later. -/
theorem oneAssigned_completed :
    completionVerdict {} oneAssigned "t" (.ok ⟨"R", ""⟩) =
      .ok (⟨"t", "R", 100, "", 0, .assigned⟩, ⟨"b2", "t", "E2", 20, 1, "e2", .selected, 1⟩) ∧
    CompleteAlike oneAssigned (complete { hasOutbox := false } "t" (.ok ⟨"R", ""⟩))
      (completeLater {} {} 0 "t" (.ok ⟨"R", ""⟩)) :=
  ⟨rfl, completeLater_refines {} {} 0 oneAssigned "t" _ (by decide) (by decide) rfl
    ⟨rfl, by decide, by decide⟩ rfl⟩

end TrustGate.Market
