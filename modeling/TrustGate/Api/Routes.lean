import TrustGate.Api.Middlewares

set_option autoImplicit false

/-! # The routes

`createApp` in `src/src/app.ts`: the schemas of the request bodies (`src/src/models`), what stands
in front of each handler, and the processes that run beside each other: requests, the worker, the
sweep. Read-only routes are left out. -/

namespace TrustGate.Api

open Market Resumption

/-! ## Schemas -/

/-- `z.string()` with its checks and their messages. -/
structure StringField where
  name : String
  checks : List ((String → Bool) × String)

/-- The name zod has for a value's type. -/
def receivedType : Option Json → String
  | none => "undefined"
  | some .null => "null"
  | some (.bool _) => "boolean"
  | some (.num _) => "number"
  | some (.str _) => "string"
  | some (.arr _) => "array"
  | some (.obj _) => "object"

def StringField.issues (f : StringField) (v : Option Json) : List String :=
  match v with
  | some (.str s) => f.checks.filterMap fun c => if c.1 s then none else some c.2
  | v => ["Invalid input: expected string, received " ++ receivedType v]

/-- `error.flatten()`. -/
def flattened (formErrors : List String) (fieldErrors : List (String × List String)) : Json :=
  .obj [("formErrors", .arr (formErrors.map .str)),
    ("fieldErrors", .obj (fieldErrors.map fun e => (e.1, .arr (e.2.map .str))))]

/-- `z.object({..}).safeParse(body)`: the values of the fields, or the complaint. -/
def safeParse (fields : List StringField) (body : Option Json) : Parsed (String → String) :=
  match body with
  | some (.obj values) =>
      let issues := fields.filterMap fun f =>
        match f.issues (values.lookup f.name) with
        | [] => none
        | messages => some (f.name, messages)
      if issues.isEmpty then
        .ok fun name => match values.lookup name with
          | some (.str s) => s
          | _ => ""
      else .error (flattened [] issues)
  | v => .error (flattened ["Invalid input: expected object, received " ++ receivedType v] [])

def keyField (name kind : String) (letter : Char) : StringField :=
  ⟨name, [(isStrkey letter, name ++ " must be a valid Stellar " ++ kind)]⟩

def requiredField (name : String) : StringField := ⟨name, [(fun s => s ≠ "", name ++ " is required")]⟩

def amountField (name : String) : StringField :=
  ⟨name, [(fun s => s ≠ "", name ++ " is required"),
    (isUsdcAmount, name ++ " must be a valid USDC decimal string")]⟩

def secretField : StringField := keyField "secret" "secret key" 'S'

section

variable (cfg : Settings)

def deadlineField (now : Nat) : StringField :=
  ⟨"deadline", [(fun s => (cfg.dateParse s).isSome, "deadline must be a valid date"),
    (fun s => (cfg.dateParse s).any fun t => (now : Int) < t, "deadline must be in the future")]⟩

def createTaskSchema (now : Nat) : List StringField :=
  [keyField "requester" "public key" 'G', amountField "reservePrice", requiredField "description",
    deadlineField cfg now]

def createTaskLocalRequestSchema (now : Nat) : List StringField :=
  createTaskSchema cfg now ++ [secretField]

/-- The task that the values of the fields describe. -/
def createTaskBody (value : String → String) : CreateTaskBody where
  requester := value "requester"
  reservePrice := value "reservePrice"
  description := value "description"
  deadline := ((cfg.dateParse (value "deadline")).getD 0).toNat
  secret := value "secret"

def parseCreateTask (schema : List StringField) (body : Option Json) : Parsed CreateTaskBody :=
  (safeParse schema body).map (createTaskBody cfg)

def parseComplete (body : Option Json) : Parsed CompleteBody :=
  let requester := keyField "requester" "public key" 'G'
  let schema := if cfg.networkLocal then [requester, secretField] else [requester]
  (safeParse schema body).map fun value => ⟨value "requester", value "secret"⟩

def createBidSignedSchema : List StringField :=
  [requiredField "taskId", keyField "executor" "public key" 'G', amountField "amount",
    amountField "collateral"]

def createBidLocalSchema : List StringField := createBidSignedSchema ++ [secretField]

def parseCreateBid (body : Option Json) : Parsed CreateBidBody :=
  let schema := if cfg.networkLocal then createBidLocalSchema else createBidSignedSchema
  (safeParse schema body).map fun value =>
    ⟨value "taskId", value "executor", value "amount", value "collateral", value "secret"⟩

/-! ## ExecutorController -/

def ExecutorRecord.json (r : ExecutorRecord) : Json := .obj [
  ("publicKey", .str r.publicKey),
  ("metadataUri", .str r.metadataUri),
  ("registeredAt", dateJson r.registeredAt)]

def saveRegistered (publicKey metadataUri : String) : Js Response := do
  let registeredAt ← await (.market .dateNow)
  let record : ExecutorRecord := ⟨publicKey, metadataUri, registeredAt⟩
  await (.saveExecutor record)
  return ⟨201, record.json⟩

/-- A body field that is a string and, trimmed, not empty. -/
def nonBlank (s : String) : Bool := !(jsTrim s.toList).isEmpty

/-- `POST /executors/register`. -/
def register (req : Request) : Js Response := do
  if cfg.networkLocal then
    match req.bodyString "secret", req.bodyString "metadataUri" with
    | some secret, some metadataUri =>
      if ¬ nonBlank metadataUri then
        return errorResponse 400 "secret and metadataUri are required"
      else
        match cfg.publicKeyOf secret with
        | none => return errorResponse 400 "invalid secret"
        | some publicKey =>
          match ← attempt (await (.registerExecutor secret metadataUri)) with
          | .error e => return failureResponse 409 "registration failed" e
          | .ok () => saveRegistered publicKey metadataUri
    | _, _ => return errorResponse 400 "secret and metadataUri are required"
  else
    match req.bodyString "publicKey", req.bodyString "metadataUri" with
    | some publicKey, some metadataUri =>
      if ¬ nonBlank metadataUri then
        return errorResponse 400 "publicKey and metadataUri are required"
      else
        let registered ← await (.market (.isRegistered publicKey))
        if registered then saveRegistered publicKey metadataUri
        else return errorResponse 409 "executor is not registered on-chain"
    | _, _ => return errorResponse 400 "publicKey and metadataUri are required"

/-! ## Routes -/

/-- The routes that change something, with their path parameters. -/
inductive Route where
  | signedSmoke
  | register
  | tasks
  | select (taskId : String)
  | complete (taskId : String)
  | bids
  | timeoutCheck
  | publishResult (taskId : String)
  deriving DecidableEq, Repr

/-- How the route signs requests; `POST /tasks` does so only behind the payment gate. -/
def Route.auth : Route → Option SignatureAuthOptions
  | .signedSmoke => some { enforceInLocal := true, matchBodyField := some "publicKey" }
  | .register => some { matchBodyField := some "publicKey" }
  | .tasks => if cfg.configLocal then none else some { matchBodyField := some "requester" }
  | .complete _ => some { matchBodyField := some "requester" }
  | .bids => some { matchBodyField := some "executor" }
  | .publishResult _ => some { matchBodyField := some "executorPublicKey" }
  | .select _ | .timeoutCheck => none

def Route.idempotency : Route → Option IdempotencyOptions
  | .register => some { scope := "executor_register", publicKeyFrom := some "publicKey" }
  | .tasks => some { scope := "create_task", publicKeyFrom := some "requester" }
  | .select _ => some { scope := "select_bid" }
  | .complete _ => some { scope := "complete_task", publicKeyFrom := some "requester" }
  | .bids => some { scope := "place_bid", publicKeyFrom := some "executor" }
  | .publishResult _ => some { scope := "publish_result", publicKeyFrom := some "executorPublicKey" }
  | .signedSmoke | .timeoutCheck => none

/-- The routes for which the operator's secret is asked. -/
def Route.admin : Route → Bool
  | .select _ | .timeoutCheck => true
  | _ => false

/-- `POST /tasks`; the schema reads the clock. -/
def createTask (req : Request) : Js Response := do
  let now ← await (.market .dateNow)
  if cfg.configLocal then
    lift (Market.createTask cfg.toSettings
      (parseCreateTask cfg (createTaskLocalRequestSchema cfg now) req.body))
  else
    lift (Market.createPaid cfg.toSettings
      (parseCreateTask cfg (createTaskSchema cfg now) req.body))

/-- `POST /admin/timeout-check`. -/
def timeoutCheck : Js Response := do
  match ← attempt (lift (Market.runOnce cfg.toSettings)) with
  | .ok expiredTaskIds =>
      return ⟨200, .obj [("expiredTaskIds", .arr (expiredTaskIds.map .str))]⟩
  | .error e => return failureResponse 500 "timeout check failed" e

/-- The handler at the end of the route. -/
def Route.handler (req : Request) : Route → Js Response
  | .signedSmoke => return ⟨200, .obj [("ok", .bool true), ("publicKey", .str req.publicKey)]⟩
  | .register => Api.register cfg req
  | .tasks => createTask cfg req
  | .select taskId => lift (Market.select cfg.toSettings taskId)
  | .complete taskId =>
      lift (Market.complete cfg.toSettings taskId (parseComplete cfg req.body))
  | .bids => lift (Market.createBid cfg.toSettings (parseCreateBid cfg req.body))
  | .timeoutCheck => Api.timeoutCheck cfg
  | .publishResult taskId =>
      lift (Market.publishResult cfg.toSettings taskId (req.bodyString "executorPublicKey")
        (req.bodyField "payload"))

/-- `idempotencyMw`, which is there when there is a database, and the handler. -/
def Route.serve (req : Request) (route : Route) : Js Unit :=
  match route.idempotency, cfg.hasOutbox with
  | some options, true => Api.idempotency cfg options req (route.handler cfg req)
  | _, _ => do respond (← runHandler (route.handler cfg req))

/-- `signatureAuth` and what follows. -/
def Route.authorized (req : Request) (route : Route) : Js Unit :=
  match route.auth cfg with
  | some options => signatureAuth cfg options req (route.serve cfg req)
  | none => route.serve cfg req

/-- `calculateListingFeeStroops`. -/
def calculateListingFeeStroops (reservePriceStroops : Nat) : Nat :=
  (reservePriceStroops * 5 + 500) / 1000

/-- What stands first in `POST /tasks` off the local network: the schema, and the gate that
settles the listing fee. -/
def listingFee (req : Request) (next : Js Unit) : Js Unit := do
  let now ← await (.market .dateNow)
  match parseCreateTask cfg (createTaskSchema cfg now) req.body with
  | .error detail => respond (invalidRequest detail)
  | .ok b =>
    match parseUsdcDecimalToStroops b.reservePrice with
    | .error e => throw e
    | .ok reservePriceStroops =>
      let feeStroops := calculateListingFeeStroops reservePriceStroops
      let answer ← await (.listingFeeGate b.requester (formatUsdcStroopsToDecimal feeStroops)
        ("Listing fee for task by " ++ b.requester))
      match answer with
      | some response => respond response
      | none => next

/-- `adminAuth`. -/
def adminAuth (req : Request) (next : Js Unit) : Js Unit :=
  let provided := req.header "x-admin-secret"
  if cfg.adminSecret.all (fun expected => expected = "" || provided ≠ expected) then
    respond (errorResponse 401 "unauthorized")
  else next

/-- `errorHandler`, where something was thrown. -/
def errorHandler : Except JsError Unit → Js Unit
  | .ok () => pure ()
  | .error e => respond (internalServerError e)

/-- A request to the route. What a middleware throws goes to the error handler. -/
def Route.run (req : Request) (route : Route) : Js Unit := do
  let answered ← attempt <|
    if route.admin then adminAuth cfg req (route.authorized cfg req)
    else if route = .tasks ∧ ¬ cfg.configLocal then
      listingFee cfg req (route.authorized cfg req)
    else route.authorized cfg req
  errorHandler answered

end

/-! ## The running system -/

inductive Job where
  | issueNonce (cfg : Settings) (req : Request)
  | request (cfg : Settings) (route : Route) (req : Request)
  /-- The worker and the sweep that the process runs on a timer. -/
  | service (job : Market.Job)

/-- Run a program to its end, whatever comes of it. -/
def toEnd (x : Js Unit) : Prog Op Reply Unit := x.run >>= fun _ => pure ()

/-- A nonce request; what it throws goes to the error handler. -/
def runIssueNonce (cfg : Settings) (req : Request) : Js Unit := do
  errorHandler (← attempt (issueNonce cfg req))

def Job.body : Job → Prog Op Reply Unit
  | .issueNonce cfg req => toEnd (runIssueNonce cfg req)
  | .request cfg route req => toEnd (route.run cfg req)
  | .service job => liftProg job.body

/-- The API instances and workers over one store. -/
def api : System Op Reply Job Outcome Store := ⟨Job.body, exec⟩

end TrustGate.Api
