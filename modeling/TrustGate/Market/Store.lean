import TrustGate.Market.Values
import TrustGate.Lib.Resumption

set_option autoImplicit false

/-! # What the services await

Everything the asynchronous code of `src/src` waits for is an operation (`Op`) on shared
state: the repositories with their tables (`src/src/repositories`, `migrations`), the Redis
stream, the escrow provider and the other external services, the clock and the UUID source. The
state is a `Store`.

An operation is carried out in one go. A single SQL statement or Redis command is atomic, and so
is the transaction in `tryStart`, which locks its row. What the outside decides is an `Outcome`:
whether the call fails, and if so whether it took effect nevertheless, and the values that external
services return. -/

namespace TrustGate.Market

open Resumption

/-! ## Tables -/

/-- A row of `outbox_events`. Rows are kept in the order of `created_at`. -/
structure OutboxEvent where
  id : String
  type : String
  aggregateType : String
  aggregateId : String
  payload : Json
  processedAt : Option Nat
  attempts : Nat
  lastError : Option String

inductive ConsumptionStatus where
  | processing | succeeded | failed
  deriving DecidableEq, Repr

/-- A row of `event_consumptions`. -/
structure EventConsumptionRecord where
  handlerName : String
  eventId : String
  streamEntryId : Option Nat
  status : ConsumptionStatus
  attempts : Nat
  lastError : Option String
  nextRetryAt : Option Nat
  createdAt : Nat
  updatedAt : Nat
  deriving DecidableEq, Repr

/-- A row of `task_results`; `π` is the type of the payload. -/
structure TaskResultRecord (π : Type := Json) where
  taskId : String
  payload : π
  payloadHash : String
  createdAt : Nat

/-- An entry of the stream: the fields that `xAdd` writes, the payload as JSON. -/
structure StreamEntry where
  entryId : Nat
  id : String
  type : String
  aggregateType : String
  aggregateId : String
  payload : Json

/-- An entry that was delivered to a consumer of the group and not acknowledged yet. -/
structure PendingEntry where
  entryId : Nat
  consumer : String
  deriving DecidableEq, Repr

/-- The stream with its one consumer group. Entry ids count up from 1. -/
structure Stream where
  entries : List StreamEntry
  lastId : Nat
  lastDelivered : Nat
  pending : List PendingEntry

/-- The in-memory repositories or the Postgres ones. -/
inductive Backend where
  | inMemory | postgres
  deriving DecidableEq, Repr

structure Store (π : Type := Json) where
  backend : Backend
  tasks : List Task
  bids : List Bid
  results : List (TaskResultRecord π)
  outbox : List OutboxEvent
  consumptions : List EventConsumptionRecord
  stream : Stream
  /-- The UUIDs handed out so far. -/
  issued : List String

/-! ## Repositories -/

section

variable {ρ : Type}

/-- Replace the row with the key of `row`, or append `row`. -/
def upsert (key : ρ → String) (merge : ρ → ρ → ρ) (row : ρ) : List ρ → List ρ
  | [] => [row]
  | old :: rows =>
      if key old = key row then merge old row :: rows else old :: upsert key merge row rows

/-- Update the rows that satisfy `p`. -/
def updateWhere (p : ρ → Bool) (f : ρ → ρ) (rows : List ρ) : List ρ :=
  rows.map fun row => if p row then f row else row

end

namespace Store

def saveTask (m : Store) (task : Task) : Store :=
  { m with tasks := upsert Task.id (fun _ new => new) task m.tasks }

def findTask {π : Type} (m : Store π) (id : String) : Option Task := m.tasks.find? fun task => task.id = id

/-- `list()`: a `Map` keeps insertion order, Postgres orders by `created_at desc`. -/
def listTasks (m : Store) : List Task :=
  match m.backend with
  | .inMemory => m.tasks
  | .postgres => m.tasks.reverse

/-- `on conflict (id) do update` leaves `created_at` alone; a `Map` replaces the whole value. -/
def mergeBid (backend : Backend) (old new : Bid) : Bid :=
  match backend with
  | .inMemory => new
  | .postgres => { new with createdAt := old.createdAt }

def saveBid (m : Store) (bid : Bid) : Store :=
  { m with bids := upsert Bid.id (mergeBid m.backend) bid m.bids }

/-- `findByTaskId`: in insertion order, or `order by created_at asc`. -/
def findBids (m : Store) (taskId : String) : List Bid :=
  let rows := m.bids.filter fun bid => bid.taskId = taskId
  match m.backend with
  | .inMemory => rows
  | .postgres => rows.insertionSort fun a b => a.createdAt ≤ b.createdAt

def upsertResult {π : Type} (m : Store π) (taskId : String) (payload : π) (payloadHash : String)
    (now : Nat) : Store π :=
  let merge (old new : TaskResultRecord π) : TaskResultRecord π :=
    match m.backend with
    | .inMemory => new
    | .postgres => { new with createdAt := old.createdAt }
  let row : TaskResultRecord π := ⟨taskId, payload, payloadHash, now⟩
  { m with results := upsert TaskResultRecord.taskId merge row m.results }

def findResult {π : Type} (m : Store π) (taskId : String) : Option (TaskResultRecord π) :=
  m.results.find? fun result => result.taskId = taskId

def insertEvent (m : Store) (event : OutboxEvent) : Store :=
  { m with outbox := m.outbox ++ [event] }

def listUnprocessed (m : Store) (limit : Nat) : List OutboxEvent :=
  (m.outbox.filter fun event => event.processedAt.isNone).take limit

def findEvent (m : Store) (id : String) : Option OutboxEvent :=
  m.outbox.find? fun event => event.id = id

def markEventProcessed (m : Store) (id : String) (now : Nat) : Store :=
  let due (event : OutboxEvent) : Bool := event.id = id && event.processedAt.isNone
  { m with outbox := updateWhere due (fun event => { event with processedAt := some now }) m.outbox }

def markEventFailed (m : Store) (id error : String) : Store :=
  let update (event : OutboxEvent) : OutboxEvent :=
    { event with attempts := event.attempts + 1, lastError := some error }
  { m with outbox := updateWhere (fun event => event.id = id) update m.outbox }

end Store

/-! ## Consumptions -/

/-- The row of `handlerName` and `eventId`, the primary key of `event_consumptions`. -/
def EventConsumptionRecord.isFor (handlerName eventId : String) (r : EventConsumptionRecord) :
    Bool :=
  r.handlerName = handlerName && r.eventId = eventId

structure StartArgs where
  handlerName : String
  eventId : String
  streamEntryId : Option Nat
  maxAttempts : Nat
  deriving DecidableEq, Repr

/-- What `tryStart` answers: whether the caller may dispatch the event, and the row. -/
structure Started where
  started : Bool
  record : EventConsumptionRecord
  deriving DecidableEq, Repr

namespace Store

def findConsumption (m : Store) (handlerName eventId : String) : Option EventConsumptionRecord :=
  m.consumptions.find? (·.isFor handlerName eventId)

def updateConsumption (m : Store) (handlerName eventId : String)
    (f : EventConsumptionRecord → EventConsumptionRecord) : Store :=
  { m with consumptions := updateWhere (·.isFor handlerName eventId) f m.consumptions }

/-- `tryStart` leaves an existing row alone: it has succeeded, its attempts are used up, or its
retry is not due. -/
def refuses (now maxAttempts : Nat) (existing : EventConsumptionRecord) : Bool :=
  existing.status = .succeeded || maxAttempts ≤ existing.attempts ||
    existing.nextRetryAt.any fun at_ => now < at_

/-- `tryStart`; every caller passes `nextRetryAt: null`. -/
def tryStart (m : Store) (args : StartArgs) (now : Nat) : Started × Store :=
  match m.findConsumption args.handlerName args.eventId with
  | none =>
      let record : EventConsumptionRecord := {
        handlerName := args.handlerName
        eventId := args.eventId
        streamEntryId := args.streamEntryId
        status := .processing
        attempts := 1
        lastError := none
        nextRetryAt := none
        createdAt := now
        updatedAt := now }
      (⟨true, record⟩, { m with consumptions := m.consumptions ++ [record] })
  | some existing =>
      if refuses now args.maxAttempts existing then (⟨false, existing⟩, m)
      else
        let update (r : EventConsumptionRecord) : EventConsumptionRecord :=
          { r with
            status := .processing
            attempts := r.attempts + 1
            streamEntryId := args.streamEntryId.or r.streamEntryId
            updatedAt := now }
        (⟨true, update existing⟩, m.updateConsumption args.handlerName args.eventId update)

def markSucceeded (m : Store) (handlerName eventId : String) (now : Nat) : Store :=
  m.updateConsumption handlerName eventId fun r =>
    { r with status := .succeeded, lastError := none, nextRetryAt := none, updatedAt := now }

def markFailed (m : Store) (handlerName eventId error : String) (nextRetryAt now : Nat) :
    Store :=
  m.updateConsumption handlerName eventId fun r =>
    { r with
      status := .failed
      lastError := some error
      nextRetryAt := some nextRetryAt
      updatedAt := now }

def listDueRetries (m : Store) (handlerName : String) (limit now : Nat) :
    List EventConsumptionRecord :=
  let due := m.consumptions.filter fun r =>
    r.handlerName = handlerName && r.status = .failed && r.nextRetryAt.all fun at_ => at_ ≤ now
  let key (r : EventConsumptionRecord) : Nat := r.nextRetryAt.getD r.updatedAt
  (due.insertionSort fun a b => key a ≤ key b).take limit

end Store

/-! ## The stream -/

namespace Stream

/-- `XADD .. MAXLEN ~ 10000`: of a longer stream Redis may drop the oldest entries. -/
def add (s : Stream) (event : OutboxEvent) (drop : Nat) : Stream :=
  let entry : StreamEntry := {
    entryId := s.lastId + 1
    id := event.id
    type := event.type
    aggregateType := event.aggregateType
    aggregateId := event.aggregateId
    payload := event.payload }
  let entries := s.entries ++ [entry]
  { s with entries := entries.drop (min drop (entries.length - 10000)), lastId := s.lastId + 1 }

/-- `XREADGROUP .. >`: entries the group has not seen. -/
def readGroup (s : Stream) (consumer : String) (count : Nat) : List StreamEntry × Stream :=
  let new := (s.entries.filter fun e => s.lastDelivered < e.entryId).take count
  (new, { s with
    lastDelivered := (new.getLast?.map StreamEntry.entryId).getD s.lastDelivered
    pending := s.pending ++ new.map fun e => ⟨e.entryId, consumer⟩ })

/-- `XAUTOCLAIM`: up to `count` pending entries from `cursor` on that have been idle for long
enough (`idle`) go over to `consumer`. Pending entries that are no longer in the stream are
dropped. Also returned is the next cursor, 0 at the end of the list. -/
def autoClaim (s : Stream) (consumer : String) (cursor count : Nat) (idle : List Nat) :
    (Nat × List StreamEntry) × Stream :=
  let candidates := s.pending.filter fun p => cursor ≤ p.entryId && p.entryId ∈ idle
  let taken := (candidates.take count).map PendingEntry.entryId
  let next := ((candidates.drop count).head?.map PendingEntry.entryId).getD 0
  let present := s.entries.filter fun e => e.entryId ∈ taken
  let kept := s.pending.filter fun p =>
    p.entryId ∉ taken || present.any fun e => e.entryId = p.entryId
  ((next, present), { s with
    pending := kept.map fun p => if p.entryId ∈ taken then { p with consumer := consumer } else p })

def ack (s : Stream) (entryId : Nat) : Stream :=
  { s with pending := s.pending.filter fun p => p.entryId ≠ entryId }

end Stream

/-! ## Operations -/

inductive Op where
  | saveTask (task : Task)
  | findTask (id : String)
  | listTasks
  | saveBid (bid : Bid)
  | findBids (taskId : String)
  | upsertResult (taskId : String) (payload : Json) (payloadHash : String)
  | findResult (taskId : String)
  | insertEvent (event : OutboxEvent)
  | listUnprocessed (limit : Nat)
  | findEvent (id : String)
  | markEventProcessed (id : String)
  | markEventFailed (id error : String)
  | tryStart (args : StartArgs)
  | markSucceeded (handlerName eventId : String)
  | markFailed (handlerName eventId error : String) (nextRetryAt : Nat)
  | listDueRetries (handlerName : String) (limit : Nat)
  | xAdd (event : OutboxEvent)
  | xReadGroup (consumer : String) (count : Nat)
  | xAutoClaim (consumer : String) (cursor count : Nat)
  | xAck (entryId : Nat)
  | chargeListingFee (requester : String) (reservePriceStroops : Nat)
  | isRegistered (executorPublicKey : String)
  | createEscrow (executorPublicKey taskId collateralAmount : String)
  | releaseMilestone (escrowId : String)
  | confiscate (escrowId collateralAmount : String)
  | publishTask (task : Task)
  | postJson (url : String) (payload : Json)
  | dateNow
  | randomUUID

/-- What an operation returns when it succeeds. -/
abbrev Value : Op → Type
  | .findTask _ => Option Task
  | .listTasks => List Task
  | .findBids _ => List Bid
  | .findResult _ => Option TaskResultRecord
  | .listUnprocessed _ => List OutboxEvent
  | .findEvent _ => Option OutboxEvent
  | .tryStart _ => Started
  | .listDueRetries _ _ => List EventConsumptionRecord
  | .xReadGroup _ _ => List StreamEntry
  | .xAutoClaim _ _ _ => Nat × List StreamEntry
  | .isRegistered _ => Bool
  | .createEscrow _ _ _ => String
  | .releaseMilestone _ => ReleaseResult
  | .confiscate _ _ => ConfiscateResult
  | .dateNow => Nat
  | .randomUUID => String
  | _ => Unit

abbrev Reply (o : Op) := Except JsError (Value o)

/-- A program of the source. -/
abbrev Js (α : Type) := Fallible Op Value JsError α

abbrev await (o : Op) : Js (Value o) := call o

/-! ## Carrying out an operation -/

/-- Whether a call goes through. A refused one has no effect; a lost one took effect, but the
caller sees an error. -/
inductive Fault where
  | none
  | refused (e : JsError)
  | lost (e : JsError)
  deriving DecidableEq, Repr

/-- What the outside contributes to one operation. -/
structure Outcome where
  fault : Fault := .none
  /-- The time at which the operation is carried out. -/
  now : Nat := 0
  /-- The UUID or escrow id returned. -/
  text : String := ""
  registered : Bool := true
  release : ReleaseResult := ⟨true, "", "0", ""⟩
  dispute : ConfiscateResult := ⟨true, "", ""⟩
  /-- The stream entries that have been idle for long enough. -/
  idle : List Nat := []
  /-- How many of the oldest entries Redis would trim. -/
  drop : Nat := 0

/-- A successful operation. The only thing that cannot happen is a UUID handed out twice. -/
def perform (c : Outcome) (m : Store) : (o : Op) → Option (Value o × Store)
  | .saveTask task => some ((), m.saveTask task)
  | .findTask id => some (m.findTask id, m)
  | .listTasks => some (m.listTasks, m)
  | .saveBid bid => some ((), m.saveBid bid)
  | .findBids taskId => some (m.findBids taskId, m)
  | .upsertResult taskId payload hash => some ((), m.upsertResult taskId payload hash c.now)
  | .findResult taskId => some (m.findResult taskId, m)
  | .insertEvent event => some ((), m.insertEvent event)
  | .listUnprocessed limit => some (m.listUnprocessed limit, m)
  | .findEvent id => some (m.findEvent id, m)
  | .markEventProcessed id => some ((), m.markEventProcessed id c.now)
  | .markEventFailed id error => some ((), m.markEventFailed id error)
  | .tryStart args => some (m.tryStart args c.now)
  | .markSucceeded handlerName eventId => some ((), m.markSucceeded handlerName eventId c.now)
  | .markFailed handlerName eventId error nextRetryAt =>
      some ((), m.markFailed handlerName eventId error nextRetryAt c.now)
  | .listDueRetries handlerName limit => some (m.listDueRetries handlerName limit c.now, m)
  | .xAdd event => some ((), { m with stream := m.stream.add event c.drop })
  | .xReadGroup consumer count =>
      let (entries, s) := m.stream.readGroup consumer count
      some (entries, { m with stream := s })
  | .xAutoClaim consumer cursor count =>
      let (res, s) := m.stream.autoClaim consumer cursor count c.idle
      some (res, { m with stream := s })
  | .xAck entryId => some ((), { m with stream := m.stream.ack entryId })
  | .chargeListingFee _ _ => some ((), m)
  | .isRegistered _ => some (c.registered, m)
  | .createEscrow _ _ _ => some (c.text, m)
  | .releaseMilestone _ => some (c.release, m)
  | .confiscate _ _ => some (c.dispute, m)
  | .publishTask _ => some ((), m)
  | .postJson _ _ => some ((), m)
  | .dateNow => some (c.now, m)
  | .randomUUID =>
      if c.text ∈ m.issued then none else some (c.text, { m with issued := c.text :: m.issued })

/-- The clock and the UUID source are local: they do not fail. -/
def Op.isLocal : Op → Bool
  | .dateNow => true
  | .randomUUID => true
  | _ => false

def exec (o : Op) (c : Outcome) (m : Store) : Option (Reply o × Store) :=
  match c.fault with
  | .none => (perform c m o).map fun r => (.ok r.1, r.2)
  | .refused e => if o.isLocal then none else some (.error e, m)
  | .lost e => if o.isLocal then none else (perform c m o).map fun r => (.error e, r.2)

end TrustGate.Market
