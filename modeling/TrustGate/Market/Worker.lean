import TrustGate.Market.Services

set_option autoImplicit false

/-! # The worker

`src/src/services/workerService.ts` with the publisher and the consumer it drives. A tick
publishes outbox rows to the stream, then handles entries claimed from idle consumers, new
entries, and retries that are due. Sampling the backlog for metrics has no effect on the shared
state and is left out. -/

namespace TrustGate.Market

open Resumption

/-! ## Dispatch -/

/-- `handleTaskCompletionRequested`. -/
def handleTaskCompletionRequested (eventId : String) (payload : Json) : Js Unit := do
  if payload.isNull then throw (.other "Cannot read properties of null (reading 'taskId')") else
  let taskId := payload.text "taskId"
  let escrowId := payload.text "escrowId"
  if taskId = "" ∨ escrowId = "" then throw (.other "invalid payload") else
  match ← await (.findTask taskId) with
  | none => throw (.other "task not found")
  | some task =>
    if task.status = .completed then return ()
    else if task.status ≠ .completing then
      throw (.other ("task is not completing (status: " ++ task.status.text ++ ")"))
    else
      match winningBid (← await (.findBids taskId)) with
      | none => throw (.other "no selected bid found for this task")
      | some winner =>
        let release ← await (.releaseMilestone winner.escrowId)
        let updatedTask : Task := { task with status := .completed }
        await (.saveTask updatedTask)
        emit "task_completed" "task" updatedTask.id (.obj [
          ("task", toTaskDto updatedTask), ("release", release.json),
          ("sourceEventId", .str eventId)])

section

variable (cfg : Settings)

/-- `String(p.publishedAt ?? new Date().toISOString())`. -/
def publishedAtOf (payload : Json) : Js Json := do
  match payload.field "publishedAt" with
  | none | some .null => return dateJson (← await .dateNow)
  | some x => return .str x.toText

/-- `handleResultPublished`. The HTTP attempts of one `postJson` are one operation. -/
def handleResultPublished (eventId : String) (payload : Json) : Js Unit := do
  match cfg.webhookUrl with
  | none => return ()
  | some url =>
    if payload.isNull then throw (.other "Cannot read properties of null (reading 'taskId')") else
    let taskId := payload.text "taskId"
    let executorPublicKey := payload.text "executorPublicKey"
    let payloadHash := payload.text "payloadHash"
    let publishedAt ← publishedAtOf payload
    if taskId = "" ∨ executorPublicKey = "" ∨ payloadHash = "" then
      throw (.other "invalid payload")
    else
      await (.postJson url (.obj [
        ("eventId", .str eventId),
        ("type", .str "result_published"),
        ("taskId", .str taskId),
        ("executorPublicKey", .str executorPublicKey),
        ("payloadHash", .str payloadHash),
        ("publishedAt", publishedAt)]))

def dispatch (eventId type : String) (payload : Json) : Js Unit :=
  if type = "task_completion_requested" then handleTaskCompletionRequested eventId payload
  else if type = "result_published" then handleResultPublished cfg eventId payload
  else pure ()

/-! ## One event -/

/-- `computeBackoff`. -/
def computeBackoff (attempt : Nat) : Js Nat := do
  let now ← await .dateNow
  return now + min (5 * 60 * 1000) (2000 * 2 ^ (attempt - 1))

/-- Dispatch an event whose consumption was started, and record how it went. -/
def dispatchStarted (handlerName consumedId eventId type : String) (payload : Json)
    (attempts : Nat) : Js Unit := do
  let result ← attempt do
    dispatch cfg eventId type payload
    await (.markSucceeded handlerName consumedId)
  match result with
  | .ok () => return ()
  | .error e =>
    let nextRetryAt ← computeBackoff attempts
    await (.markFailed handlerName consumedId e.message nextRetryAt)

/-- The handler both `autoClaimOnce` and `pollOnce` are given. The acknowledgement stands in a
`finally`. -/
def handleEntry (entry : StreamEntry) : Js Unit := do
  if entry.id = "" ∨ entry.type = "" then await (.xAck entry.entryId) else
  let handlerName := "event:" ++ entry.type
  let started ← await (.tryStart ⟨handlerName, entry.id, some entry.entryId, cfg.maxAttempts⟩)
  if ¬ started.started then await (.xAck entry.entryId) else
  let result ← attempt
    (dispatchStarted cfg handlerName entry.id entry.id entry.type entry.payload
      started.record.attempts)
  await (.xAck entry.entryId)
  match result with
  | .ok () => return ()
  | .error e => throw e

/-- One record of the due-retry pass. -/
def retryRecord (record : EventConsumptionRecord) : Js Unit := do
  let started ← await (.tryStart ⟨record.handlerName, record.eventId, none, cfg.maxAttempts⟩)
  if ¬ started.started then return () else
  match ← await (.findEvent record.eventId) with
  | none =>
    let nextRetryAt ← computeBackoff started.record.attempts
    await (.markFailed record.handlerName record.eventId "outbox event not found" nextRetryAt)
  | some event =>
    dispatchStarted cfg record.handlerName record.eventId event.id event.type event.payload
      started.record.attempts

/-! ## A tick -/

/-- One row of `OutboxPublisher.publishOnce`. -/
def publishEvent (event : OutboxEvent) : Js Unit := do
  let result ← attempt do
    await (.xAdd event)
    await (.markEventProcessed event.id)
  match result with
  | .ok () => return ()
  | .error e => await (.markEventFailed event.id e.message)

/-- `OutboxPublisher.publishOnce` with the worker's batch size. -/
def publishOnce : Js Unit := do
  let events ← await (.listUnprocessed 50)
  forEach publishEvent events

/-- `EventConsumer.autoClaimOnce`, from the cursor the last call left. -/
def autoClaimOnce (claimCursor : Nat) : Js Unit := do
  let (_, entries) ← await (.xAutoClaim cfg.consumerName claimCursor 20)
  forEach (handleEntry cfg) entries

/-- `EventConsumer.pollOnce`. -/
def pollOnce : Js Unit := do
  let entries ← await (.xReadGroup cfg.consumerName 20)
  forEach (handleEntry cfg) entries

/-- The due-retry pass for one handler. -/
def retryDue (handlerName : String) : Js Unit := do
  let due ← await (.listDueRetries handlerName 25)
  forEach (retryRecord cfg) due

def tick (claimCursor : Nat) : Js Unit := do
  publishOnce
  if cfg.pauseWorkerConsumption then return () else
  autoClaimOnce cfg claimCursor
  pollOnce cfg
  forEach (retryDue cfg) ["event:task_completion_requested", "event:result_published"]

end

/-! ## The running system -/

/-- What can be running: a request, a sweep, or one tick of a worker. -/
inductive Job where
  | createTask (cfg : Settings) (body : Parsed CreateTaskBody)
  | createPaid (cfg : Settings) (body : Parsed CreateTaskBody)
  | select (cfg : Settings) (taskId : String)
  | complete (cfg : Settings) (taskId : String) (body : Parsed CompleteBody)
  | createBid (cfg : Settings) (body : Parsed CreateBidBody)
  | publishResult (cfg : Settings) (taskId : String) (executorPublicKey : Option String)
      (payload : Option Json)
  | runOnce (cfg : Settings)
  | tick (cfg : Settings) (claimCursor : Nat)

/-- Run a program to its end, whatever comes of it. -/
def toEnd {α : Type} (x : Js α) : Prog Op Reply Unit := x.run >>= fun _ => pure ()

def Job.body : Job → Prog Op Reply Unit
  | .createTask cfg body => toEnd (Market.createTask cfg body)
  | .createPaid cfg body => toEnd (Market.createPaid cfg body)
  | .select cfg taskId => toEnd (Market.select cfg taskId)
  | .complete cfg taskId body => toEnd (Market.complete cfg taskId body)
  | .createBid cfg body => toEnd (Market.createBid cfg body)
  | .publishResult cfg taskId key payload => toEnd (Market.publishResult cfg taskId key payload)
  | .runOnce cfg => toEnd (Market.runOnce cfg)
  | .tick cfg claimCursor => toEnd (Market.tick cfg claimCursor)

/-- The API instances and workers over one store. -/
def market : System Op Reply Job Outcome Store := ⟨Job.body, exec⟩

end TrustGate.Market
