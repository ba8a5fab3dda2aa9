import TrustGate.Api.Routes
import TrustGate.Market.Retry

set_option autoImplicit false

/-! # Charging the listing fee

`src/src/services/mppChargeService.ts`: on a local network the server signs the transfer of the
listing fee with the requester's secret. What stands behind the operation `chargeListingFee` of the
services. -/

namespace TrustGate.Api

open Market Resumption

inductive ChargeOp where
  | contractClient
  | transfer (sender receiver : String) (amount : Nat)
  | signAndSend
  | random
  | setTimeout (ms : Nat)

/-- Sending a transaction returns its hash. -/
abbrev ChargeReply : ChargeOp → Type
  | .contractClient => Except JsError Unit
  | .transfer _ _ _ => Except JsError Unit
  | .signAndSend => Except JsError String
  | .random => RandomNumber
  | .setTimeout _ => Unit

abbrev ChargeProg (α : Type) := Prog ChargeOp ChargeReply α

abbrev awaitCharge (o : ChargeOp) : ChargeProg (ChargeReply o) := ask o

structure MppChargeService where
  usdcSacContractId : String
  marketplaceWallet : String

structure ChargeResult where
  feeAmount : String
  feeStroops : String
  txHash : String

def isInsufficientBalanceError (e : JsError) : Bool :=
  mentions ["balance", "underflow", "insufficient", "trustline"] e.message

/-- What is thrown where the transfer cannot be built or sent. -/
def chargeError (requester feeAmount problem : String) (e : JsError) : JsError :=
  if isInsufficientBalanceError e then
    .insufficientBalance ("Requester " ++ requester ++ " has insufficient USDC balance for listing fee of "
      ++ feeAmount)
  else .other (problem ++ e.message)

section

variable (service : MppChargeService) (requester : String) (reservePriceStroops : Nat)

def chargeAttempt : ChargeProg (Except JsError ChargeResult) := do
  let feeStroops := calculateListingFeeStroops reservePriceStroops
  let feeAmount := formatUsdcStroopsToDecimal feeStroops
  match ← awaitCharge .contractClient with
  | .error e =>
    return .error (.other ("Failed to reach USDC contract at " ++ service.usdcSacContractId ++ ": " ++
      e.message))
  | .ok () =>
    match ← awaitCharge (.transfer requester service.marketplaceWallet feeStroops) with
    | .error e =>
      return .error (chargeError requester feeAmount "Failed to build listing fee transfer: " e)
    | .ok () =>
      match ← awaitCharge .signAndSend with
      | .error e =>
        return .error (chargeError requester feeAmount "Failed to submit listing fee transfer: " e)
      | .ok txHash => return .ok ⟨feeAmount, toString feeStroops, txHash⟩

def chargeListingFee : ChargeProg (Except JsError ChargeResult) :=
  withRetry (fun _ => chargeAttempt service requester reservePriceStroops) {
    shouldRetry := fun e => isTransientMessage e.message
    random := awaitCharge .random
    setTimeout := fun ms => awaitCharge (.setTimeout ms) }

end

/-- A transfer of this amount, if it is a transfer. -/
def ChargeOp.Transfers (feeStroops : Nat) : ChargeOp → Prop
  | .transfer _ _ amount => amount = feeStroops
  | _ => True

/-- **Every transfer is of the fee**, whatever happens. -/
theorem chargeListingFee_transfers (service : MppChargeService) (requester : String)
    (reservePriceStroops : Nat) (h : Past ChargeOp ChargeReply) :
    Follows (fun _ o => o.Transfers (calculateListingFeeStroops reservePriceStroops))
      (fun _ _ => True) (chargeListingFee service requester reservePriceStroops) h := by
  refine follows_withRetry (fun _ h => ?_) ?_ h
  swap
  · exact follows_pause (fun _ => ⟨trivial, fun _ => trivial⟩) (fun _ hnone => nomatch hnone)
      fun _ _ => ⟨trivial, fun _ => trivial⟩
  refine ⟨trivial, fun client => ?_⟩
  cases client with
  | error e => trivial
  | ok _ =>
      refine ⟨rfl, fun transfer => ?_⟩
      cases transfer with
      | error e => trivial
      | ok _ =>
          refine ⟨trivial, fun sent => ?_⟩
          cases sent with
          | error e => trivial
          | ok txHash => trivial

section

variable (service : MppChargeService) (requester : String) (reservePriceStroops : Nat)

/-- The log of an attempt that goes through: the transfer is built, sent and answered. -/
def sentLog (feeStroops : Nat) (txHash : String) : List (Done ChargeOp ChargeReply) :=
  [⟨.contractClient, .ok ()⟩,
    ⟨.transfer requester service.marketplaceWallet feeStroops, .ok ()⟩,
    ⟨.signAndSend, .ok txHash⟩]

/-- What a charge returns that goes through. -/
def chargeResult (feeStroops : Nat) (txHash : String) : ChargeResult :=
  ⟨formatUsdcStroopsToDecimal feeStroops, toString feeStroops, txHash⟩

variable {service requester reservePriceStroops}

theorem ends_chargeAttempt {log : List (Done ChargeOp ChargeReply)} {result : ChargeResult}
    (h : Ends (chargeAttempt service requester reservePriceStroops) log (.ok result)) :
    let feeStroops := calculateListingFeeStroops reservePriceStroops
    log = sentLog service requester feeStroops result.txHash ∧
      result = chargeResult feeStroops result.txHash := by
  obtain ⟨client, rest, rfl, hbuild⟩ := ends_ask_bind.mp h
  cases client with
  | error e => exact absurd hbuild.2 (by simp)
  | ok _ =>
      obtain ⟨built, rest, rfl, hsend⟩ := ends_ask_bind.mp hbuild
      cases built with
      | error e => exact absurd hsend.2 (by simp)
      | ok _ =>
          obtain ⟨sent, rest, rfl, hreturn⟩ := ends_ask_bind.mp hsend
          cases sent with
          | error e => exact absurd hreturn.2 (by simp)
          | ok txHash =>
              simp only [ends_pure, Except.ok.injEq] at hreturn
              obtain ⟨rfl, rfl⟩ := hreturn
              exact ⟨rfl, rfl⟩

/-- **A charge that succeeds** ends with a transfer of the fee that went through. -/
theorem chargeListingFee_sent {log : List (Done ChargeOp ChargeReply)} {result : ChargeResult}
    (h : Ends (chargeListingFee service requester reservePriceStroops) log (.ok result)) :
    let feeStroops := calculateListingFeeStroops reservePriceStroops
    result = chargeResult feeStroops result.txHash ∧
      ∃ before, log = before ++ sentLog service requester feeStroops result.txHash := by
  obtain ⟨-, before, last, rfl, hlast⟩ := ends_withRetry h
  obtain ⟨rfl, hresult⟩ := ends_chargeAttempt hlast
  exact ⟨hresult, before, rfl⟩

/-- The first attempt may go through. -/
theorem chargeListingFee_ok (txHash : String) :
    let feeStroops := calculateListingFeeStroops reservePriceStroops
    Ends (chargeListingFee service requester reservePriceStroops)
      (sentLog service requester feeStroops txHash) (.ok (chargeResult feeStroops txHash)) :=
  ⟨_, _, rfl, _, _, rfl, _, _, rfl, rfl, rfl⟩

end

end TrustGate.Api
