import Mathlib.Tactic

set_option autoImplicit false

/-! # The Soroban host as the contracts see it

The part of the Soroban environment the escrow contract runs on: contract storage with its
times to live, authorisation, and token contracts. A contract function is an `Invocation`
over the `World`. A contract error and a host trap both abort the invocation, and the host then
discards everything the invocation wrote; `StateT` over `Except` gives exactly that.

Storage follows the host's rules for time to live. A new persistent entry lives for the
network's minimum, writing an existing entry leaves its life as it is, and `extendTtl` prolongs
it only when what remains is at most the threshold. An archived entry can be neither read nor
written: touching it traps.
-/

namespace TrustGate.Contract

/-- An address, as its strkey string. -/
abbrev Address := String

abbrev BytesN32 := Vector UInt8 32

/-- What is fixed for a deployed contract: its own address, the network's minimum life of a
persistent entry, and the hash function. -/
structure Network where
  currentContractAddress : Address
  minPersistentTtl : Nat
  keccak256 : List UInt8 → BytesN32

/-- The states of an escrow (`STATUS_LOCKED` = 0 to `STATUS_TIMED_OUT` = 3 in the source). -/
inductive EscrowStatus where
  | locked | released | confiscated | timedOut
  deriving DecidableEq, Repr

structure EscrowState where
  taskIdHash : BytesN32
  executor : Address
  requester : Address
  releaseSigner : Address
  collateral : Int
  createdAtLedger : Nat
  status : EscrowStatus
  deriving DecidableEq

inductive EscrowError where
  | escrowNotFound | notExecutor | notReleaseSigner | notRequester | alreadyReleased
  | alreadyConfiscated | notLocked | insufficientCollateral | shareBpInvalid | claimTooEarly
  | invalidNonce | zeroCollateral
  deriving DecidableEq, Repr

/-- How an invocation fails: with the contract's own error, or by a trap of the host. -/
inductive Failure where
  | err (e : EscrowError)
  | trap
  deriving DecidableEq, Repr

structure Transfer where
  token : Address
  src : Address
  dst : Address
  amount : Int
  deriving DecidableEq, Repr

inductive EscrowEvent where
  | escrowCreated (escrowId : BytesN32) (executor requester : Address) (collateral : Int)
      (createdAtLedger : Nat)
  | escrowReleased (escrowId : BytesN32) (executor : Address) (collateral : Int)
  | escrowConfiscated (escrowId : BytesN32) (requester marketplace : Address)
      (requesterShare marketplaceShare : Int) (requesterShareBp : Nat)
  | escrowTimedOut (escrowId : BytesN32) (requester : Address) (full : Int) (current : Nat)
  deriving DecidableEq

/-- The contract's instance storage: the keys `Nonce`, `Token` and `ReleaseSigner` share one
entry and one time to live. `archivedAt` is the first ledger at which it is archived. -/
structure InstanceStorage where
  nonce : Option Nat
  token : Option Address
  releaseSigner : Option Address
  archivedAt : Nat

/-- A persistent entry `DataKey::Escrow(id)`; `archivedAt` as for the instance. -/
structure PersistentEntry where
  state : EscrowState
  archivedAt : Nat
  deriving DecidableEq

/-- The ledger as far as the contract can tell. `transfers` and `events` hold what the running
invocation has done so far. -/
structure World where
  sequence : Nat
  inst : InstanceStorage
  persistent : BytesN32 → Option PersistentEntry
  balance : Address → Address → Nat
  transfers : List Transfer
  events : List EscrowEvent

/-- What the outside brings to one invocation: the addresses that authorised it, and which
token transfers the token contracts would carry out. -/
structure Env where
  auths : List Address
  tokenAccepts : Address → Address → Address → Int → Bool

/-- A contract function. -/
abbrev Invocation (α : Type) := StateT World (Except Failure) α

/-! ## Host functions -/

/-- Stop with `e` unless `c` holds. -/
def ensure (c : Prop) [Decidable c] (e : Failure) : Invocation Unit :=
  if c then pure () else throw e

/-- The value of an `ok_or(..)?`. -/
def okOr {α : Type} (e : Failure) : Option α → Invocation α
  | some a => pure a
  | none => throw e

/-- `a` authorised this invocation. The contract has no `__check_auth` and the host forbids
re-entry, so the contract's own address never does. -/
def Env.Authorises (env : Env) (net : Network) (a : Address) : Prop :=
  a ∈ env.auths ∧ a ≠ net.currentContractAddress

instance (env : Env) (net : Network) (a : Address) : Decidable (env.Authorises net a) :=
  inferInstanceAs (Decidable (_ ∧ _))

def requireAuth (net : Network) (env : Env) (a : Address) : Invocation Unit :=
  ensure (env.Authorises net a) .trap

/-- `extend_ttl(threshold, extend_to)` on a life that ends before `archivedAt`. -/
def extendTtl (sequence archivedAt threshold extendTo : Nat) : Nat :=
  if archivedAt - sequence ≤ threshold then sequence + extendTo else archivedAt

def persistentGet (id : BytesN32) : Invocation (Option EscrowState) := fun w =>
  match w.persistent id with
  | none => .ok (none, w)
  | some entry =>
      if w.sequence < entry.archivedAt then .ok (some entry.state, w) else .error .trap

def persistentHas (id : BytesN32) : Invocation Bool := do
  return (← persistentGet id).isSome

/-- The world with the entry `id` replaced. -/
def World.withEntry (w : World) (id : BytesN32) (entry : PersistentEntry) : World :=
  { w with persistent := Function.update w.persistent id (some entry) }

def persistentSet (net : Network) (id : BytesN32) (state : EscrowState) : Invocation Unit := fun w =>
  match w.persistent id with
  | none => .ok ((), w.withEntry id ⟨state, w.sequence + net.minPersistentTtl⟩)
  | some entry =>
      if w.sequence < entry.archivedAt then .ok ((), w.withEntry id ⟨state, entry.archivedAt⟩)
      else .error .trap

def persistentExtendTtl (id : BytesN32) (threshold extendTo : Nat) : Invocation Unit := fun w =>
  match w.persistent id with
  | none => .error .trap
  | some entry =>
      if w.sequence < entry.archivedAt then
        .ok ((), w.withEntry id
          ⟨entry.state, extendTtl w.sequence entry.archivedAt threshold extendTo⟩)
      else .error .trap

/-- The balances after `amount` of `token` moved from `src` to `dst`. -/
def moveBalance (balance : Address → Address → Nat) (token src dst : Address) (amount : Nat) :
    Address → Address → Nat :=
  let debited := Function.update (balance token) src (balance token src - amount)
  Function.update balance token (Function.update debited dst (debited dst + amount))

/-- `token_client(token).transfer(src, dst, amount)`: moves exactly `amount`, or fails. -/
def transfer (env : Env) (token src dst : Address) (amount : Int) : Invocation Unit := fun w =>
  if 0 ≤ amount ∧ amount ≤ w.balance token src ∧ env.tokenAccepts token src dst amount then
    .ok ((), { w with
      balance := moveBalance w.balance token src dst amount.toNat
      transfers := w.transfers ++ [⟨token, src, dst, amount⟩] })
  else .error .trap

def publish (e : EscrowEvent) : Invocation Unit :=
  modify fun w => { w with events := w.events ++ [e] }

/-! ## Fixed-width arithmetic -/

def checkedI128 (x : Int) : Option Int :=
  if -(2 ^ 127) ≤ x ∧ x < 2 ^ 127 then some x else none

/-- `i128::checked_mul`. -/
def checkedMul (a b : Int) : Option Int := checkedI128 (a * b)

/-- `i128::checked_div`, which rounds towards zero. -/
def checkedDiv (a b : Int) : Option Int := if b = 0 then none else checkedI128 (a.tdiv b)

/-- `i128::checked_sub`. -/
def checkedSub (a b : Int) : Option Int := checkedI128 (a - b)

/-- `u64::checked_add`. -/
def checkedAddU64 (a b : Nat) : Option Nat := if a + b < 2 ^ 64 then some (a + b) else none

/-- `u64::to_be_bytes`. -/
def toBeBytes (n : Nat) : List UInt8 :=
  (List.range 8).map fun i => UInt8.ofNat (n / 256 ^ (7 - i))

end TrustGate.Contract
