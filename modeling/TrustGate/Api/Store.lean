import TrustGate.Api.Requests

set_option autoImplicit false

/-! # What the API awaits

On top of the operations of the services, a request handler uses Redis for nonces and counters,
the tables `idempotency_keys` and `executors`, the payment gate and the registry. Handing a request
on (`next()`) and answering it (`res.json`) are operations too, so that a run shows them. -/

namespace TrustGate.Api

open Market Resumption

/-! ## Redis -/

/-- A string key. `expireAt` is in milliseconds, as Redis keeps it. -/
structure RedisValue where
  text : String
  expireAt : Option Nat
  deriving DecidableEq, Repr

abbrev Redis := String → Option RedisValue

namespace Redis

def empty : Redis := fun _ => none

/-- What Redis answers for `key` at the time `now`. A key that has expired is as good as deleted. -/
def find (r : Redis) (now : Nat) (key : String) : Option RedisValue :=
  (r key).filter fun v => v.expireAt.all fun at_ => now ≤ at_

def put (r : Redis) (key : String) (v : Option RedisValue) : Redis :=
  fun k => if k = key then v else r k

/-- `GETDEL`. -/
def getDel (r : Redis) (now : Nat) (key : String) : Option String × Redis :=
  ((r.find now key).map RedisValue.text, r.put key none)

/-- `SET .. NX EX seconds`: whether it answered `OK`. -/
def setNx (r : Redis) (now : Nat) (key value : String) (seconds : Nat) : Bool × Redis :=
  match r.find now key with
  | some _ => (false, r)
  | none => (true, r.put key (some ⟨value, some (now + 1000 * seconds)⟩))

/-- `INCR`, which keeps the expiry. -/
def incr (r : Redis) (now : Nat) (key : String) : Except JsError Nat × Redis :=
  match r.find now key with
  | none => (.ok 1, r.put key (some ⟨"1", none⟩))
  | some v =>
      match decimal v.text with
      | none => (.error (.other "ERR value is not an integer or out of range"), r)
      | some n => (.ok (n + 1), r.put key (some { v with text := toString (n + 1) }))

/-- `EXPIRE`, which does nothing where there is no such key. -/
def expire (r : Redis) (now : Nat) (key : String) (seconds : Nat) : Redis :=
  r.put key ((r.find now key).map fun v => { v with expireAt := some (now + 1000 * seconds) })

@[simp] theorem put_self (r : Redis) (key : String) (v : Option RedisValue) :
    r.put key v key = v := if_pos rfl

theorem put_ne (r : Redis) {key k : String} (v : Option RedisValue) (h : k ≠ key) :
    r.put key v k = r k := if_neg h

theorem eq_of_find {r : Redis} {now : Nat} {key : String} {v : RedisValue}
    (h : r.find now key = some v) : r key = some v := by
  unfold find at h
  exact (Option.filter_eq_some_iff.mp h).1

end Redis

/-! ## Tables -/

/-- A row of `idempotency_keys`, whose primary key is `key`. -/
structure IdempotencyRecord where
  key : String
  scope : String
  publicKey : Option String
  requestHash : String
  responseCode : Nat
  responseBody : Json

/-- A row of `executors`. -/
structure ExecutorRecord where
  publicKey : String
  metadataUri : String
  registeredAt : Nat

structure Store where
  market : Market.Store
  redis : Redis
  records : List IdempotencyRecord
  executors : List ExecutorRecord

namespace Store

def findRecord (m : Store) (key : String) : Option IdempotencyRecord :=
  m.records.find? fun record => record.key = key

def insertRecord (m : Store) (record : IdempotencyRecord) : Except JsError Unit × Store :=
  if (m.findRecord record.key).isSome then
    (.error (.other
      "duplicate key value violates unique constraint \"idempotency_keys_pkey\""), m)
  else (.ok (), { m with records := m.records ++ [record] })

/-- `on conflict (public_key) do update` leaves `registered_at` alone; a `Map` replaces the whole
value. -/
def saveExecutor (m : Store) (record : ExecutorRecord) : Store :=
  let merge (old new : ExecutorRecord) : ExecutorRecord :=
    match m.market.backend with
    | .inMemory => new
    | .postgres => { new with registeredAt := old.registeredAt }
  { m with executors := upsert ExecutorRecord.publicKey merge record m.executors }

end Store

/-! ## Operations -/

/-- The middlewares that call `next()`. -/
inductive Stage where
  | signatureAuth | idempotency
  deriving DecidableEq, Repr

inductive Op where
  | getRedisClient
  | getDel (key : String)
  | setNx (key value : String) (seconds : Nat)
  | incr (key : String)
  | expire (key : String) (seconds : Nat)
  | findRecord (key : String)
  | insertRecord (record : IdempotencyRecord)
  | listingFeeGate (requester amount description : String)
  | registerExecutor (secret metadataUri : String)
  | saveExecutor (record : ExecutorRecord)
  | next (stage : Stage)
  | json (response : Response)
  | market (o : Market.Op)

/-- What an operation returns when it succeeds. The gate returns the answer it gave, or nothing
where the fee was settled and it called `next()`. -/
abbrev Value : Op → Type
  | .getDel _ => Option String
  | .setNx _ _ _ => Bool
  | .incr _ => Nat
  | .findRecord _ => Option IdempotencyRecord
  | .listingFeeGate _ _ _ => Option Response
  | .market o => Market.Value o
  | _ => Unit

abbrev Reply (o : Op) := Except JsError (Value o)

/-- A program of the API. -/
abbrev Js (α : Type) := Fallible Op Value JsError α

abbrev await (o : Op) : Js (Value o) := call o

/-- The operations of the services, as the API's. -/
def liftProg {α : Type} : Prog Market.Op Market.Reply α → Prog Op Reply α
  | .ret a => .ret a
  | .await o k => .await (.market o) fun r => liftProg (k r)

/-- A program of the services, run by the API. -/
def lift {α : Type} (x : Market.Js α) : Js α := ExceptT.mk (liftProg x.run)

/-! ## Carrying out an operation -/

/-- What the outside contributes. -/
structure Outcome extends Market.Outcome where
  /-- What the payment gate answers. -/
  gate : Option Response := none

/-- A request that is handed on or answered is not waited for. -/
def Op.isLocal : Op → Bool
  | .next _ => true
  | .json _ => true
  | .market o => o.isLocal
  | _ => false

/-- An operation that goes through, though a command or a statement may still be refused. -/
def perform (c : Outcome) (m : Store) : (o : Op) → Option (Reply o × Store)
  | .getRedisClient => some (.ok (), m)
  | .getDel key =>
      let (value, redis) := m.redis.getDel c.now key
      some (.ok value, { m with redis := redis })
  | .setNx key value seconds =>
      let (set, redis) := m.redis.setNx c.now key value seconds
      some (.ok set, { m with redis := redis })
  | .incr key =>
      let (count, redis) := m.redis.incr c.now key
      some (count, { m with redis := redis })
  | .expire key seconds => some (.ok (), { m with redis := m.redis.expire c.now key seconds })
  | .findRecord key => some (.ok (m.findRecord key), m)
  | .insertRecord record => some (m.insertRecord record)
  | .listingFeeGate _ _ _ => some (.ok c.gate, m)
  | .registerExecutor _ _ => some (.ok (), m)
  | .saveExecutor record => some (.ok (), m.saveExecutor record)
  | .next _ => some (.ok (), m)
  | .json _ => some (.ok (), m)
  | .market o =>
      (Market.perform c.toOutcome m.market o).map fun r => (.ok r.1, { m with market := r.2 })

def exec (o : Op) (c : Outcome) (m : Store) : Option (Reply o × Store) :=
  match c.fault with
  | .none => perform c m o
  | .refused e => if o.isLocal then none else some (.error e, m)
  | .lost e => if o.isLocal then none else (perform c m o).map fun r => (.error e, r.2)

/-- The services' operations do to their part of the store what they do there. -/
theorem exec_market (o : Market.Op) (c : Outcome) (m : Store) :
    exec (.market o) c m =
      (Market.exec o c.toOutcome m.market).map fun r => (r.1, { m with market := r.2 }) := by
  unfold exec Market.exec
  cases c.fault with
  | none => simp only [perform, Option.map_map]; rfl
  | refused e => by_cases h : o.isLocal = true <;> simp [Op.isLocal, h]
  | lost e =>
      by_cases h : o.isLocal = true
      · simp [Op.isLocal, h]
      · simp only [Op.isLocal, h, Bool.false_eq_true, if_false, perform, Option.map_map]
        rfl

end TrustGate.Api
