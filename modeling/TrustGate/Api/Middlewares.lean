import TrustGate.Api.Store

set_option autoImplicit false

/-! # The middlewares

`src/src/middlewares` and `AuthController.issueNonce`. A middleware answers the request or goes on
with `next`, the rest of the route. Metrics and logging are left out. -/

namespace TrustGate.Api

open Market Resumption

/-- `res.status(..).json(..)`. -/
def respond (response : Response) : Js Unit := await (.json response)

/-! ## signatureAuth -/

structure SignatureAuthOptions where
  required : Bool := true
  matchBodyField : Option String := none
  nonceTtlSeconds : Nat := 600
  enforceInLocal : Bool := false

def incrWithTtl (key : String) (ttlSeconds : Nat) : Js Nat := do
  let count ← await (.incr key)
  if count = 1 then
    await (.expire key ttlSeconds)
    return count
  else return count

/-- Count a failure of `name`, if there is one. -/
def countFailure (keyPrefix name : String) : Js Nat :=
  if name = "" then pure 0 else incrWithTtl (keyPrefix ++ name) 60

/-- Whether the client has failed too often within the last minute. -/
def authFailLimited (ip publicKey : String) : Js Bool := do
  await .getRedisClient
  let ipCount ← countFailure "tg:authfail:ip:" ip
  let pkCount ← countFailure "tg:authfail:pk:" publicKey
  return 30 < ipCount || 10 < pkCount

/-- `fail`: without Redis, nobody is limited. -/
def fail (ip publicKey error : String) : Js Unit := do
  match ← attempt (authFailLimited ip publicKey) with
  | .ok true => respond (errorResponse 429 "rate limit exceeded")
  | _ => respond (errorResponse 401 error)

def serverNonceKey (publicKey nonce : String) : String :=
  "tg:nonce2:" ++ publicKey ++ ":" ++ nonce

def legacyNonceKey (publicKey nonce : String) : String :=
  "tg:nonce:" ++ publicKey ++ ":" ++ nonce

/-- Requests of others go by unchecked. -/
def SignatureAuthOptions.bypassed (options : SignatureAuthOptions) (cfg : Settings) : Bool :=
  (!options.enforceInLocal && cfg.networkLocal) || cfg.nodeEnvTest

/-- The body speaks for somebody else than the headers. A value that is no string goes by. -/
def SignatureAuthOptions.mismatch (options : SignatureAuthOptions) (req : Request) :
    Option String :=
  options.matchBodyField.filter fun field => (req.bodyString field).any fun v => v ≠ req.publicKey

/-- `5 * 60 * 1000`. -/
def allowedWindow : Rat := 300000

section

variable (cfg : Settings) (options : SignatureAuthOptions) (req : Request) (next : Js Unit)

/-- `signatureAuth` from the nonce step on. -/
def consumeNonce : Js Unit := do
  match ← attempt (await .getRedisClient) with
  | .error _ => respond (errorResponse 503 "nonce store unavailable")
  | .ok () =>
    match ← await (.getDel (serverNonceKey req.publicKey req.nonce)) with
    | some serverNonceTimestamp =>
      if serverNonceTimestamp ≠ req.timestamp then fail req.ip req.publicKey "invalid nonce"
      else
        await (.next .signatureAuth)
        next
    | none =>
      if cfg.allowClientNonce then
        let nonceSet ←
          await (.setNx (legacyNonceKey req.publicKey req.nonce) "1" options.nonceTtlSeconds)
        if ¬ nonceSet then fail req.ip req.publicKey "replayed nonce"
        else
          await (.next .signatureAuth)
          next
      else fail req.ip req.publicKey "invalid nonce"

/-- `signatureAuth`, once the timestamp is known to be in the window. -/
def checkSignature : Js Unit := do
  match options.mismatch req with
  | some field => fail req.ip req.publicKey ("public key mismatch for " ++ field)
  | none =>
    if ¬ cfg.fromPublicKey req.publicKey then fail req.ip req.publicKey "invalid public key"
    else
      -- `Buffer.from` throws on no string, so the encoding is never at fault
      match cfg.verify req.publicKey (cfg.signedPayload req) (cfg.parseSignature req.signature) with
      | .error e => throw e
      | .ok false => fail req.ip req.publicKey "invalid signature"
      | .ok true => consumeNonce cfg options req next

def signatureAuth : Js Unit := do
  if options.bypassed cfg then
    await (.next .signatureAuth)
    next
  else if req.publicKey = "" ∨ req.timestamp = "" ∨ req.nonce = "" ∨ req.signature = "" then
    if options.required then fail req.ip req.publicKey "missing signature headers"
    else
      await (.next .signatureAuth)
      next
  else
    match cfg.number req.timestamp with
    | none => fail req.ip req.publicKey "invalid timestamp"
    | some timestamp =>
      let now ← await (.market .dateNow)
      if allowedWindow < |(now : Rat) - timestamp| then
        fail req.ip req.publicKey "timestamp outside allowed window"
      else checkSignature cfg options req next

end

/-! ## AuthController -/

/-- `String((req.body ?? {}).publicKey ?? '')`. -/
def noncePublicKey (req : Request) : String := (req.body.getD (.obj [])).text "publicKey"

/-- `POST /auth/nonce`. -/
def issueNonce (cfg : Settings) (req : Request) : Js Unit := do
  let publicKey := noncePublicKey req
  if publicKey = "" then respond (errorResponse 400 "publicKey is required")
  else if ¬ cfg.fromPublicKey publicKey then respond (errorResponse 400 "invalid public key")
  else
    await .getRedisClient
    let ipCount ← incrWithTtl ("tg:authnonce:ip:" ++ req.ip) 60
    if 60 < ipCount then respond (errorResponse 429 "rate limit exceeded")
    else
      let timestamp ← await (.market .dateNow)
      let nonce ← await (.market .randomUUID)
      let ok ← await (.setNx (serverNonceKey publicKey nonce) (toString timestamp) 600)
      if ¬ ok then respond (errorResponse 503 "nonce store unavailable")
      else
        respond ⟨200, .obj [
          ("version", .num "1"),
          ("publicKey", .str publicKey),
          ("timestamp", .num (toString timestamp)),
          ("nonce", .str nonce),
          ("ttlSeconds", .num "600")]⟩

/-! ## idempotency -/

/-- `publicKeyFrom: 'auth'` is used by no route. -/
structure IdempotencyOptions where
  scope : String
  publicKeyFrom : Option String := none
  requireHeader : Bool := true

/-- The answer to a request whose key is already recorded. -/
def replay (record : IdempotencyRecord) (scope : String) (publicKey : Option String)
    (requestHash : String) : Response :=
  if record.scope ≠ scope then errorResponse 409 "idempotency key scope mismatch"
  else if record.publicKey ≠ publicKey then errorResponse 409 "idempotency key owner mismatch"
  else if record.requestHash ≠ requestHash then
    errorResponse 409 "idempotency key reused with different request"
  else ⟨record.responseCode, record.responseBody⟩

/-- What `errorHandler` answers. -/
def internalServerError (e : JsError) : Response :=
  failureResponse 500 "Internal Server Error" e

/-- The handler answers; an error it throws is the error handler's. -/
def runHandler (handler : Js Response) : Js Response := do
  match ← attempt handler with
  | .ok response => return response
  | .error e => return internalServerError e

/-- `idempotency` in front of `handler`. The record is inserted when the response is finished, and
nobody waits for it. -/
def idempotency (cfg : Settings) (options : IdempotencyOptions) (req : Request)
    (handler : Js Response) : Js Unit := do
  if req.idempotencyKey = "" then
    if options.requireHeader then respond (errorResponse 400 "missing Idempotency-Key header")
    else
      await (.next .idempotency)
      respond (← runHandler handler)
  else
    let publicKey := options.publicKeyFrom.bind req.bodyString
    let requestHash := cfg.requestHash req
    match ← await (.findRecord req.idempotencyKey) with
    | some existing => respond (replay existing options.scope publicKey requestHash)
    | none =>
      await (.next .idempotency)
      let response ← runHandler handler
      respond response
      if 500 ≤ response.status then return ()
      else
        let _ ← attempt (await (.insertRecord {
          key := req.idempotencyKey
          scope := options.scope
          publicKey, requestHash
          responseCode := response.status
          responseBody := response.body }))
        return ()

end TrustGate.Api
