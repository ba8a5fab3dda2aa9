import TrustGate.Market.Store

set_option autoImplicit false

/-! # The request handlers and the expiry sweep

`src/src/controllers` and the services they use, as programs over the operations of `Store`.
`match ← attempt x with` is the source's `try`/`catch`. The schema of a request is applied before
the handler runs; what is left of it is the parsed body or the schema's complaint. -/

namespace TrustGate.Market

open Resumption

/-- What a process reads from its environment and its constructor arguments. -/
structure Settings where
  /-- `NETWORK === 'local'`. -/
  networkLocal : Bool := false
  hasOutbox : Bool := true
  pauseNewTasks : Bool := false
  pauseNewBids : Bool := false
  pauseWorkerConsumption : Bool := false
  executorDenylist : List String := []
  /-- `Keypair.fromSecret(secret).publicKey()`, where the secret is valid. -/
  publicKeyOf : String → Option String := fun _ => none
  /-- The canonical JSON text's SHA-256 in `ExecutorResultService`, with its prefix. -/
  payloadHash : Json → String := fun _ => ""
  maxAttempts : Nat := 10
  webhookUrl : Option String := none
  consumerName : String := "worker"

/-! ## OutboxService -/

def emit (type aggregateType aggregateId : String) (payload : Json) : Js Unit := do
  let id ← await .randomUUID
  await (.insertEvent {
    id, type, aggregateType, aggregateId, payload
    processedAt := none, attempts := 0, lastError := none })

section

variable (cfg : Settings)

/-- `this.outbox?.emit(..)`. -/
def outboxEmit (type aggregateType aggregateId : String) (payload : Json) : Js Unit :=
  if cfg.hasOutbox then emit type aggregateType aggregateId payload else pure ()

/-! ## AuctionService -/

structure SelectWinnerResult where
  task : Task
  winningBid : Bid

/-- Save the losing bids of an auction. -/
def rejectOthers (winner : Bid) : List Bid → Js Unit :=
  forEach fun bid =>
    if bid.id ≠ winner.id then await (.saveBid { bid with status := .rejected }) else pure ()

def selectWinner (taskId : String) : Js SelectWinnerResult := do
  match ← await (.findTask taskId) with
  | none => throw (.taskNotFound taskId)
  | some task =>
    if task.status ≠ .open then throw (.taskNotOpen task.status) else
    let pending := pendingBids (← await (.findBids taskId))
    match pending with
    | [] => throw (.noBids taskId)
    | first :: rest =>
      let winner := lowestBid first rest
      let updatedTask : Task := { task with status := .assigned }
      await (.saveTask updatedTask)
      let updatedWinningBid : Bid := { winner with status := .selected }
      await (.saveBid updatedWinningBid)
      rejectOthers winner pending
      return ⟨updatedTask, updatedWinningBid⟩

/-! ## PolicyService -/

def authorizeExecutorPayment (executorPublicKey : String) : Js Unit := do
  let isRegistered ← await (.isRegistered executorPublicKey)
  if isRegistered then pure () else throw (.executorNotAllowed executorPublicKey)

/-! ## TaskController -/

structure CreateTaskBody where
  requester : String
  reservePrice : String
  description : String
  deadline : Nat
  secret : String

def saveAndPublish (requesterPublicKey reservePrice description : String) (deadline : Nat) :
    Js Task := do
  match parseUsdcDecimalToStroops reservePrice with
  | .error e => throw e
  | .ok reservePriceStroops =>
    let task : Task := {
      id := ← await .randomUUID
      requesterPublicKey, reservePriceStroops, description, deadline
      status := .open }
    await (.saveTask task)
    let _ ← attempt (await (.publishTask task))
    outboxEmit cfg "task_created" "task" task.id (toTaskDto task)
    return task

def tasksPaused : Response := ⟨503, .obj [
  ("error", .str "new tasks are paused"),
  ("detail", .str "Marketplace operators have temporarily disabled new task creation. Retry later or check status page.")]⟩

/-- `POST /tasks` on a local network. -/
def createTask (body : Parsed CreateTaskBody) : Js Response := do
  if cfg.pauseNewTasks then return tasksPaused else
  match body with
  | .error detail => return invalidRequest detail
  | .ok b =>
    match parseUsdcDecimalToStroops b.reservePrice with
    | .error e => return failureResponse 400 "invalid reservePrice" e
    | .ok reservePriceStroops =>
      match cfg.publicKeyOf b.secret with
      | none => return errorResponse 400 "invalid secret"
      | some key =>
        if key ≠ b.requester then return errorResponse 400 "secret does not match requester" else
        match ← attempt (await (.chargeListingFee key reservePriceStroops)) with
        | .error (.insufficientBalance message) =>
            return failureResponse 402 "payment required" (.insufficientBalance message)
        | .error e => return failureResponse 502 "listing fee charge failed" e
        | .ok () =>
          let task ← saveAndPublish cfg b.requester b.reservePrice b.description b.deadline
          return ⟨201, toTaskDto task⟩

/-- `POST /tasks` behind the payment gate. -/
def createPaid (body : Parsed CreateTaskBody) : Js Response := do
  if cfg.pauseNewTasks then return tasksPaused else
  match body with
  | .error detail => return invalidRequest detail
  | .ok b =>
    let task ← saveAndPublish cfg b.requester b.reservePrice b.description b.deadline
    return ⟨201, toTaskDto task⟩

def selectionJson (r : SelectWinnerResult) : Json :=
  .obj [("task", toTaskDto r.task), ("winningBid", toBidDto r.winningBid)]

def selectErrorResponse : JsError → Response
  | .taskNotFound _ => errorResponse 404 "task not found"
  | .taskNotOpen status =>
      errorResponse 409 ("task is not open for selection (status: " ++ status.text ++ ")")
  | .noBids _ => errorResponse 409 "no pending bids for this task"
  | e => failureResponse 500 "failed to select winner" e

/-- `POST /tasks/:id/select`. -/
def select (taskId : String) : Js Response := do
  let result ← attempt do
    let r ← selectWinner taskId
    outboxEmit cfg "task_assigned" "task" r.task.id (selectionJson r)
    return r
  match result with
  | .ok r => return ⟨200, selectionJson r⟩
  | .error e => return selectErrorResponse e

structure CompleteBody where
  requester : String
  secret : String

/-- The requester a completion request speaks for; on a local network its secret must match. -/
def completeRequester (body : Parsed CompleteBody) : Except Response String :=
  match body with
  | .error detail => .error (invalidRequest detail)
  | .ok b =>
    if cfg.networkLocal then
      match cfg.publicKeyOf b.secret with
      | none => .error (errorResponse 400 "invalid secret")
      | some key =>
        if key ≠ b.requester then .error (errorResponse 400 "secret does not match requester")
        else .ok b.requester
    else .ok b.requester

def withStatus (task : Task) (status : String) : Json :=
  .obj [("task", toTaskDto task), ("status", .str status)]

/-- `POST /tasks/:id/complete` once the winning bid is known. -/
def settleCompletion (task : Task) (winner : Bid) : Js Response := do
  if ¬ cfg.hasOutbox then
    let updatedTask : Task := { task with status := .completed }
    let result ← attempt do
      let release ← await (.releaseMilestone winner.escrowId)
      await (.saveTask updatedTask)
      return release
    match result with
    | .ok release =>
        return ⟨200, .obj [("task", toTaskDto updatedTask), ("release", release.json)]⟩
    | .error e => return failureResponse 502 "escrow release failed" e
  else
    let completingTask : Task := { task with status := .completing }
    await (.saveTask completingTask)
    outboxEmit cfg "task_completion_requested" "task" completingTask.id
      (.obj [("taskId", .str completingTask.id), ("escrowId", .str winner.escrowId)])
    return ⟨202, .obj [("task", toTaskDto completingTask)]⟩

/-- `POST /tasks/:id/complete`. -/
def complete (taskId : String) (body : Parsed CompleteBody) : Js Response := do
  match completeRequester cfg body with
  | .error response => return response
  | .ok requester =>
    match ← await (.findTask taskId) with
    | none => return errorResponse 404 "task not found"
    | some task =>
      if task.requesterPublicKey ≠ requester then
        return errorResponse 403 "only the task requester can complete this task"
      else if task.status = .completed then
        return ⟨200, withStatus task "already completed"⟩
      else if task.status = .completing then
        return ⟨202, withStatus task "completion in progress"⟩
      else if task.status ≠ .assigned then
        return errorResponse 409 ("task is not assigned (status: " ++ task.status.text ++ ")")
      else
        match winningBid (← await (.findBids taskId)) with
        | none => return errorResponse 409 "no selected bid found for this task"
        | some winner =>
          if winner.executorPublicKey ∈ cfg.executorDenylist then
            return errorResponse 403
              "cannot complete task — executor is not allowed to release milestone"
          else settleCompletion cfg task winner

/-! ## BidController -/

structure CreateBidBody where
  taskId : String
  executor : String
  amount : String
  collateral : String
  secret : String

/-- `/^G[A-Z2-7]{55}$/`, or the same with another first letter. -/
def isStrkey (kind : Char) (s : String) : Bool :=
  match s.toList with
  | c :: cs => c = kind && cs.length = 55 &&
      cs.all fun c => ('A' ≤ c && c ≤ 'Z') || ('2' ≤ c && c ≤ '7')
  | [] => false

/-- A positive USDC amount, as the schemas refine amounts. -/
def isUsdcAmount (value : String) : Bool :=
  match parseUsdcDecimalToStroops value with
  | .ok stroops => 0 < stroops
  | .error _ => false

/-- `createBidSignedSchema`, and on a local network `createBidLocalSchema`. -/
def createBidSchema (b : CreateBidBody) : Bool :=
  b.taskId ≠ "" && isStrkey 'G' b.executor && isUsdcAmount b.amount && isUsdcAmount b.collateral &&
    (!cfg.networkLocal || isStrkey 'S' b.secret)

def bidsPaused : Response := ⟨503, .obj [
  ("error", .str "new bids are paused"),
  ("detail", .str "Marketplace operators have temporarily disabled new bids. Retry later or check status page.")]⟩

/-- On a local network, the secret sent along must be the executor's. -/
def bidSecretError (b : CreateBidBody) : Option Response :=
  if cfg.networkLocal then
    match cfg.publicKeyOf b.secret with
    | none => some (errorResponse 400 "invalid secret")
    | some key =>
      if key ≠ b.executor then some (errorResponse 400 "secret does not match executor") else none
  else none

/-- `POST /bids` from the amounts on: save the bid, announce it, and try to select a winner. -/
def placeBid (b : CreateBidBody) (escrowId : String) : Js Response := do
  match parseUsdcDecimalToStroops b.amount, parseUsdcDecimalToStroops b.collateral with
  | .error e, _ => return failureResponse 400 "invalid amount/collateral" e
  | _, .error e => return failureResponse 400 "invalid amount/collateral" e
  | .ok amountStroops, .ok collateralStroops =>
    let bid : Bid := {
      id := ← await .randomUUID
      taskId := b.taskId
      executorPublicKey := b.executor
      amountStroops, collateralStroops, escrowId
      status := .pending
      createdAt := ← await .dateNow }
    await (.saveBid bid)
    outboxEmit cfg "bid_placed" "bid" bid.id (toBidDto bid)
    -- a failed selection is logged, the bid stands
    let _ ← attempt (selectWinner b.taskId)
    return ⟨201, toBidDto bid⟩

/-- `POST /bids`. -/
def createBid (body : Parsed CreateBidBody) : Js Response := do
  if cfg.pauseNewBids then return bidsPaused else
  match body with
  | .error detail => return invalidRequest detail
  | .ok b =>
    match bidSecretError cfg b with
    | some response => return response
    | none =>
      if b.executor ∈ cfg.executorDenylist then
        return errorResponse 403 "executor is not allowed to bid"
      else
        match ← await (.findTask b.taskId) with
        | none => return errorResponse 404 "task not found"
        | some task =>
          if task.status ≠ .open then
            return errorResponse 409
              ("task is not open for bids (status: " ++ task.status.text ++ ")")
          else
            match ← attempt (authorizeExecutorPayment b.executor) with
            | .error (.executorNotAllowed _) =>
                return errorResponse 403 "executor is not registered"
            | .error e => return failureResponse 500 "executor authorization failed" e
            | .ok () =>
              match ← attempt (await (.createEscrow b.executor b.taskId b.collateral)) with
              | .error e => return failureResponse 502 "escrow creation failed" e
              | .ok escrowId => placeBid cfg b escrowId

/-! ## ExecutorResultController -/

/-- `ExecutorResultService.publish`. -/
def publishPayload (taskId : String) (payload : Json) : Js TaskResultRecord := do
  await (.upsertResult taskId payload (cfg.payloadHash payload))
  match ← await (.findResult taskId) with
  | none => throw (.other "failed to persist result")
  | some stored => return stored

/-- `POST /executor/tasks/:taskId/result`. -/
def publishResult (taskId : String) (executorPublicKey : Option String)
    (payload : Option Json) : Js Response := do
  match ← await (.findTask taskId) with
  | none => return errorResponse 404 "task not found"
  | some task =>
    if task.status ≠ .assigned then return errorResponse 409 "task is not assigned" else
    match winningBid (← await (.findBids taskId)) with
    | none => return errorResponse 409 "no selected executor for this task"
    | some selectedBid =>
      match executorPublicKey with
      | none => return errorResponse 400 "executorPublicKey is required"
      | some executor =>
        if executor ≠ selectedBid.executorPublicKey then
          return errorResponse 403 "only the selected executor can publish a result"
        else
          match payload with
          | none => return errorResponse 400 "payload is required"
          | some payload =>
            let stored ← publishPayload cfg taskId payload
            outboxEmit cfg "result_published" "task" taskId (.obj [
              ("taskId", .str stored.taskId),
              ("executorPublicKey", .str executor),
              ("payloadHash", .str stored.payloadHash),
              ("publishedAt", dateJson stored.createdAt)])
            return ⟨201, .obj [
              ("taskId", .str stored.taskId), ("payloadHash", .str stored.payloadHash)]⟩

/-! ## TimeoutService -/

/-- One round of the loop in `runOnce`: whether `task` was expired. -/
def expireTask (task : Task) : Js Bool := do
  match winningBid (← await (.findBids task.id)) with
  | none => return false
  | some winner =>
    let collateralAmount := formatUsdcStroopsToDecimal winner.collateralStroops
    match ← attempt (await (.confiscate winner.escrowId collateralAmount)) with
    | .error _ => return false
    | .ok _ =>
      let updatedTask : Task := { task with status := .expired }
      await (.saveTask updatedTask)
      outboxEmit cfg "task_expired" "task" updatedTask.id
        (.obj [("taskId", .str updatedTask.id)])
      return true

/-- The loop of `runOnce`; `expired` are the ids so far, newest first. -/
def expireTasks (expired : List String) : List Task → Js (List String)
  | [] => pure expired.reverse
  | task :: tasks => do
      let done ← expireTask cfg task
      expireTasks (if done then task.id :: expired else expired) tasks

/-- The tasks a sweep at time `now` is about. -/
def expiredAssignedTasks (now : Nat) (tasks : List Task) : List Task :=
  tasks.filter fun task => task.status = .assigned ∧ task.deadline < now

def runOnce : Js (List String) := do
  let now ← await .dateNow
  let tasks ← await .listTasks
  expireTasks cfg [] (expiredAssignedTasks now tasks)

end

end TrustGate.Market
