import TrustGate.Contract.Host
import TrustGate.Lib.Rollback

set_option autoImplicit false

/-! # The escrow contract

`contracts/escrow/src/lib.rs`, function by function, and runs of the deployed contract. -/

namespace TrustGate.Contract

open Rollback

def INSTANCE_TTL_THRESHOLD : Nat := 100
def INSTANCE_TTL_EXTEND_TO : Nat := 518400
def LOCK_DURATION_LEDGERS : Nat := 241920

def refreshInstanceTtl : Invocation Unit :=
  modify fun w => { w with
    inst.archivedAt :=
      extendTtl w.sequence w.inst.archivedAt INSTANCE_TTL_THRESHOLD INSTANCE_TTL_EXTEND_TO }

def keccak256U64Pair (net : Network) (a b : Nat) : BytesN32 :=
  net.keccak256 (toBeBytes a ++ toBeBytes b)

def nextNonce : Invocation Nat := do
  let w ← get
  -- `checked_add(1).ok_or(InvalidNonce).unwrap()`: the overflow traps
  let next ← okOr .trap (checkedAddU64 (w.inst.nonce.getD 0) 1)
  modify fun w => { w with inst.nonce := some next }
  refreshInstanceTtl
  return next

def loadState (escrowId : BytesN32) : Invocation EscrowState := do
  okOr (.err .escrowNotFound) (← persistentGet escrowId)

def saveState (net : Network) (escrowId : BytesN32) (state : EscrowState) : Invocation Unit := do
  persistentSet net escrowId state
  persistentExtendTtl escrowId 100 INSTANCE_TTL_EXTEND_TO

/-- The `Token` slot of the instance storage. -/
def instanceToken : Invocation Address := do
  okOr (.err .escrowNotFound) (← get).inst.token

structure CreateArgs where
  executor : Address
  taskIdHash : BytesN32
  releaseSigner : Address
  requester : Address
  token : Address
  collateralAmount : Int
  deriving DecidableEq

section

variable (net : Network) (env : Env)

def createEscrow (a : CreateArgs) : Invocation BytesN32 := do
  requireAuth net env a.executor
  ensure (0 < a.collateralAmount) (.err .zeroCollateral)
  let nonce ← nextNonce
  let escrowId := keccak256U64Pair net nonce a.executor.length
  let taken ← persistentHas escrowId
  ensure (taken = false) (.err .invalidNonce)
  modify fun w => { w with inst.token := some a.token }
  modify fun w => { w with inst.releaseSigner := some a.releaseSigner }
  refreshInstanceTtl
  let state : EscrowState := {
    taskIdHash := a.taskIdHash
    executor := a.executor
    requester := a.requester
    releaseSigner := a.releaseSigner
    collateral := a.collateralAmount
    createdAtLedger := (← get).sequence
    status := .locked }
  saveState net escrowId state
  transfer env a.token a.executor net.currentContractAddress a.collateralAmount
  publish (.escrowCreated escrowId state.executor state.requester state.collateral
    state.createdAtLedger)
  return escrowId

def releaseMilestone (escrowId : BytesN32) : Invocation Unit := do
  let state ← loadState escrowId
  ensure (state.status = .locked) (.err .notLocked)
  requireAuth net env state.releaseSigner
  let token ← instanceToken
  saveState net escrowId { state with status := .released }
  transfer env token net.currentContractAddress state.executor state.collateral
  publish (.escrowReleased escrowId state.executor state.collateral)

/-- The requester's part of `collateral` in `confiscate`. -/
def requesterShareOf (collateral : Int) (requesterShareBp : Nat) : Invocation Int :=
  if requesterShareBp = 10000 then
    return collateral
  else do
    let product ← okOr (.err .insufficientCollateral) (checkedMul collateral requesterShareBp)
    okOr (.err .insufficientCollateral) (checkedDiv product 10000)

/-- `if amount > 0 { transfer }`. -/
def transferPositive (token src dst : Address) (amount : Int) : Invocation Unit :=
  if 0 < amount then transfer env token src dst amount else pure ()

def confiscate (escrowId : BytesN32) (requesterShareBp : Nat) (marketplace : Address) :
    Invocation (Int × Int) := do
  ensure (requesterShareBp ≤ 10000) (.err .shareBpInvalid)
  let state ← loadState escrowId
  ensure (state.status = .locked) (.err .notLocked)
  requireAuth net env state.requester
  let token ← instanceToken
  let requesterShare ← requesterShareOf state.collateral requesterShareBp
  let marketplaceShare ←
    okOr (.err .insufficientCollateral) (checkedSub state.collateral requesterShare)
  saveState net escrowId { state with status := .confiscated }
  transferPositive env token net.currentContractAddress state.requester requesterShare
  transferPositive env token net.currentContractAddress marketplace marketplaceShare
  publish (.escrowConfiscated escrowId state.requester marketplace requesterShare
    marketplaceShare requesterShareBp)
  return (requesterShare, marketplaceShare)

def claimTimeout (escrowId : BytesN32) : Invocation Int := do
  let state ← loadState escrowId
  ensure (state.status = .locked) (.err .notLocked)
  let current := (← get).sequence
  -- `checked_sub(..).unwrap_or(0)` on `u32` is the truncated subtraction
  ensure (LOCK_DURATION_LEDGERS ≤ current - state.createdAtLedger) (.err .claimTooEarly)
  let token ← instanceToken
  saveState net escrowId { state with status := .timedOut }
  transfer env token net.currentContractAddress state.requester state.collateral
  publish (.escrowTimedOut escrowId state.requester state.collateral current)
  return state.collateral

def getEscrow (escrowId : BytesN32) : Invocation EscrowState := loadState escrowId

end

/-! ## Runs of the deployed contract -/

inductive Call where
  | createEscrow (a : CreateArgs)
  | releaseMilestone (escrowId : BytesN32)
  | confiscate (escrowId : BytesN32) (requesterShareBp : Nat) (marketplace : Address)
  | claimTimeout (escrowId : BytesN32)
  deriving DecidableEq

inductive Value where
  | escrowId (id : BytesN32)
  | unit
  | shares (requester marketplace : Int)
  | amount (full : Int)
  | closed
  deriving DecidableEq

/-- What happens to the contract: someone invokes it, or ledgers close without touching it. -/
inductive Input where
  | invoke (env : Env) (call : Call)
  | closeLedgers (n : Nat)

/-- What a committed input leaves behind: its value, the transfers and events it made, and the
ledger it ran in. -/
structure Output where
  value : Value
  transfers : List Transfer
  events : List EscrowEvent
  ledger : Nat

def dispatchCall (net : Network) (env : Env) : Call → Invocation Value
  | .createEscrow a => .escrowId <$> createEscrow net env a
  | .releaseMilestone id => (fun _ => .unit) <$> releaseMilestone net env id
  | .confiscate id bp m => (fun s => .shares s.1 s.2) <$> confiscate net env id bp m
  | .claimTimeout id => .amount <$> claimTimeout net env id

/-- One input. The host refuses to invoke a contract whose instance is archived, and starts
every invocation with an empty record of transfers and events. -/
def execInput (net : Network) : Input → World → Except Failure (Output × World)
  | .invoke env call, w =>
      if w.sequence < w.inst.archivedAt then do
        let (v, w') ← dispatchCall net env call { w with transfers := [], events := [] }
        return (⟨v, w'.transfers, w'.events, w.sequence⟩, w')
      else .error .trap
  | .closeLedgers n, w => .ok (⟨.closed, [], [], w.sequence⟩, { w with sequence := w.sequence + n })

/-- The contract just deployed at ledger `sequence`, on a ledger with these token balances. -/
def deploy (net : Network) (sequence : Nat) (balance : Address → Address → Nat) : World where
  sequence := sequence
  inst := ⟨none, none, none, sequence + net.minPersistentTtl⟩
  persistent := fun _ => none
  balance := balance
  transfers := []
  events := []

abbrev History := List (Receipt Input Output Failure)

def run (net : Network) (w : World) (inputs : List Input) : History × World :=
  runCalls (execInput net) w inputs

end TrustGate.Contract
