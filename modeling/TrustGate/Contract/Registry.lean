import TrustGate.Contract.Host
import TrustGate.Lib.Rollback

set_option autoImplicit false

/-! # The registry contract

`contracts/registry/src/lib.rs`. Nothing in it removes an executor. An archived entry cannot be
read as absent, the call traps, so times to live are left out. -/

namespace TrustGate.Contract

open Rollback

inductive RegistryError where
  | alreadyRegistered | notRegistered
  deriving DecidableEq, Repr

/-- How a call fails: with the contract's own error, or by a trap of the host. -/
inductive RegistryFailure where
  | err (e : RegistryError)
  | trap
  deriving DecidableEq, Repr

structure ExecutorInfo where
  metadataUri : String
  deriving DecidableEq, Repr

/-- The persistent entries `DataKey::Executor(executor)`. -/
abbrev Registry := Address → Option ExecutorInfo

/-- A call of `register_executor`, with the addresses that authorised it. -/
structure RegisterCall where
  auths : List Address
  executor : Address
  metadataUri : String
  deriving DecidableEq, Repr

def registerExecutor (call : RegisterCall) (reg : Registry) :
    Except RegistryFailure (Unit × Registry) :=
  if call.executor ∉ call.auths then .error .trap
  else if (reg call.executor).isSome then .error (.err .alreadyRegistered)
  else .ok ((), Function.update reg call.executor (some ⟨call.metadataUri⟩))

def isRegistered (reg : Registry) (executor : Address) : Bool := (reg executor).isSome

def getExecutor (reg : Registry) (executor : Address) : Except RegistryError ExecutorInfo :=
  match reg executor with
  | some info => .ok info
  | none => .error .notRegistered

theorem getExecutor_eq_ok {reg : Registry} {executor : Address} {info : ExecutorInfo} :
    getExecutor reg executor = .ok info ↔ reg executor = some info := by
  unfold getExecutor
  cases reg executor <;> simp

/-- `is_registered` and `get_executor` agree. -/
theorem isRegistered_iff (reg : Registry) (executor : Address) :
    isRegistered reg executor = true ↔ ∃ info, getExecutor reg executor = .ok info := by
  simp only [isRegistered, getExecutor_eq_ok, Option.isSome_iff_exists]

/-- The registry after some calls. -/
def Registry.after (reg : Registry) (calls : List RegisterCall) : Registry :=
  (runCalls registerExecutor reg calls).2

/-- Whoever is registered stays so, with the same information. -/
theorem getExecutor_after {reg : Registry} {executor : Address} {info : ExecutorInfo}
    (h : getExecutor reg executor = .ok info) (calls : List RegisterCall) :
    getExecutor (reg.after calls) executor = .ok info := by
  refine runCalls_invariant (P := fun _ reg => getExecutor reg executor = .ok info) ?_ ?_ calls [] reg h
  · intro _ reg call _ reg' hreg hcall
    unfold registerExecutor at hcall
    split_ifs at hcall with hauth hnew
    cases hcall
    rw [getExecutor_eq_ok] at hreg ⊢
    have hother : executor ≠ call.executor := by
      rintro rfl
      rw [hreg] at hnew
      exact hnew rfl
    rw [Function.update_of_ne hother]
    exact hreg
  · exact fun _ _ _ _ hreg _ => hreg

theorem isRegistered_after {reg : Registry} {executor : Address}
    (h : isRegistered reg executor = true) (calls : List RegisterCall) :
    isRegistered (reg.after calls) executor = true := by
  obtain ⟨info, hinfo⟩ := (isRegistered_iff reg executor).mp h
  exact (isRegistered_iff _ _).mpr ⟨info, getExecutor_after hinfo calls⟩

end TrustGate.Contract
