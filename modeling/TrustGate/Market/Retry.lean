import TrustGate.Lib.Replies
import TrustGate.Market.Values

set_option autoImplicit false

/-! # Retries

`src/src/utils/retry.ts`. Delays are milliseconds. A number is a rational: a delay that a timer can
wait for is far below where `number` starts to round. -/

namespace TrustGate.Market

open Resumption

/-- What `Math.random()` returns. -/
abbrev RandomNumber := {r : Rat // 0 ≤ r ∧ r < 1}

/-- `Math.max(0, Math.trunc(ms))`. -/
def truncMs (ms : Rat) : Nat := ⌊ms⌋.toNat

/-- The message has one of the words in it, in capitals or not. -/
def mentions (words : List String) (message : String) : Bool :=
  let lower (s : String) : List Char := s.toList.map Char.toLower
  words.any fun word => (lower message).tails.any fun rest => (lower word).isPrefixOf rest

/-- `TRANSIENT_ERROR_PATTERN`. -/
def isTransientMessage (message : String) : Bool :=
  mentions ["account not found", "timeout", "timed out", "ECONNRESET", "ETIMEDOUT", "network"]
    message

structure RetryInfo (ε : Type) where
  attempt : Nat
  totalAttempts : Nat
  lastError : ε
  computedDelayMs : Nat

/-- `RetryOptions`, and what `withRetry` uses of the runtime. -/
structure RetryOptions (Op : Type) (Reply : Op → Type) (ε : Type) where
  retries : Nat := 3
  baseDelayMs : Rat := 500
  shouldRetry : ε → Bool
  jitterPct : Rat := 0
  onRetry : Option (RetryInfo ε → Prog Op Reply (Option Rat)) := none
  /-- The `retryAfterSeconds` of an error, where it is a number. -/
  retryAfterSeconds : ε → Option Rat := fun _ => none
  random : Prog Op Reply RandomNumber
  setTimeout : Nat → Prog Op Reply Unit

section

variable {Op : Type} {Reply : Op → Type} {ε α : Type}

namespace RetryOptions

variable (options : RetryOptions Op Reply ε)

def rawDelay (attempt : Nat) : Rat := options.baseDelayMs * 2 ^ attempt

def jitterMs (attempt : Nat) : Prog Op Reply Rat := do
  if 0 < options.jitterPct then
    let r ← options.random
    return (r.val * 2 - 1) * options.rawDelay attempt * options.jitterPct
  else return 0

def extractRetryAfterMs (err : ε) : Nat :=
  match options.retryAfterSeconds err with
  | some s => if 0 < s then truncMs (s * 1000) else 0
  | none => 0

def sleepMs (computedDelayMs : Nat) (override : Option Rat) (err : ε) : Nat :=
  let sleepMs := match override with
    | some ms => if (computedDelayMs : Rat) < ms then truncMs ms else computedDelayMs
    | none => computedDelayMs
  let retryAfterMs := options.extractRetryAfterMs err
  if sleepMs < retryAfterMs then retryAfterMs else sleepMs

/-- What stands between a failed attempt and the next. -/
def pause (attempt : Nat) (err : ε) : Prog Op Reply Unit := do
  let jitterMs ← options.jitterMs attempt
  let computedDelayMs := truncMs (options.rawDelay attempt + jitterMs)
  let override ← match options.onRetry with
    | some onRetry => onRetry ⟨attempt, options.retries + 1, err, computedDelayMs⟩
    | none => pure none
  options.setTimeout (options.sleepMs computedDelayMs override err)

/-- The loop from `attempt` on, where `left` attempts may follow it. -/
def retryLoop (fn : Nat → Prog Op Reply (Except ε α)) :
    (left attempt : Nat) → Prog Op Reply (Except ε α)
  | 0, attempt => fn attempt
  | left + 1, attempt => do
      match ← fn attempt with
      | .ok a => return .ok a
      | .error err =>
        if ¬ options.shouldRetry err then return .error err
        else
          options.pause attempt err
          retryLoop fn left (attempt + 1)

end RetryOptions

/-- `withRetry`; `fn n` is what `fn` does when it is called for the time number `n`. -/
def withRetry (fn : Nat → Prog Op Reply (Except ε α)) (options : RetryOptions Op Reply ε) :
    Prog Op Reply (Except ε α) :=
  options.retryLoop fn options.retries 0

theorem follows_pause {P : Past Op Reply → Op → Prop} {options : RetryOptions Op Reply ε}
    (hrandom : ∀ h, Follows P (fun _ _ => True) options.random h)
    (honRetry : ∀ onRetry ∈ options.onRetry, ∀ info h, Follows P (fun _ _ => True) (onRetry info) h)
    (hsetTimeout : ∀ ms h, Follows P (fun _ _ => True) (options.setTimeout ms) h)
    (n : Nat) (err : ε) (h : Past Op Reply) :
    Follows P (fun _ _ => True) (options.pause n err) h := by
  have hjitter : Follows P (fun _ _ => True) (options.jitterMs n) h := by
    unfold RetryOptions.jitterMs
    split_ifs
    · exact (follows_bind _ _ _).mpr ((hrandom h).mono (fun _ _ hp => hp) fun _ _ _ => trivial)
    · trivial
  refine (follows_bind _ _ _).mpr (hjitter.mono (fun _ _ hp => hp) fun h₁ jitterMs _ => ?_)
  dsimp only
  split
  · rename_i onRetry heq
    exact (follows_bind _ _ _).mpr ((honRetry onRetry heq _ h₁).mono (fun _ _ hp => hp)
      fun h₂ _ _ => hsetTimeout _ h₂)
  · exact hsetTimeout _ h₁

/-- **The retry rule.** What every attempt and every pause issues, the whole call issues. -/
theorem follows_withRetry {P : Past Op Reply → Op → Prop}
    {fn : Nat → Prog Op Reply (Except ε α)} {options : RetryOptions Op Reply ε}
    (hfn : ∀ n h, Follows P (fun _ _ => True) (fn n) h)
    (hpause : ∀ n err h, Follows P (fun _ _ => True) (options.pause n err) h) (h : Past Op Reply) :
    Follows P (fun _ _ => True) (withRetry fn options) h := by
  unfold withRetry
  suffices ∀ left n h, Follows P (fun _ _ => True) (options.retryLoop fn left n) h from this _ _ _
  intro left
  induction left with
  | zero => exact hfn
  | succ left ih =>
      intro n h
      refine (follows_bind _ _ _).mpr ((hfn n h).mono (fun _ _ hp => hp) ?_)
      rintro h' (err | a) -
      · dsimp only
        split_ifs
        · exact (follows_bind _ _ _).mpr ((hpause n err h').mono (fun _ _ hp => hp)
            fun h'' _ _ => ih (n + 1) h'')
        · trivial
      · trivial

/-- **What a call returns** is what its last attempt returned. -/
theorem ends_withRetry {fn : Nat → Prog Op Reply (Except ε α)} {options : RetryOptions Op Reply ε}
    {log : List (Done Op Reply)} {r : Except ε α} (h : Ends (withRetry fn options) log r) :
    ∃ n before last, log = before ++ last ∧ Ends (fn n) last r := by
  unfold withRetry at h
  suffices ∀ left n log, Ends (options.retryLoop fn left n) log r →
      ∃ n before last, log = before ++ last ∧ Ends (fn n) last r from this _ _ _ h
  intro left
  induction left with
  | zero => exact fun n log hends => ⟨n, [], log, rfl, hends⟩
  | succ left ih =>
      intro n log hends
      obtain ⟨log₁, outcome, log₂, hfn, hrest, rfl⟩ := ends_bind.mp hends
      cases outcome with
      | ok a =>
          obtain ⟨rfl, rfl⟩ := hrest
          exact ⟨n, [], log₁, List.append_nil _, hfn⟩
      | error err =>
          dsimp only at hrest
          split_ifs at hrest
          · obtain ⟨pause, _, log₃, -, hnext, rfl⟩ := ends_bind.mp hrest
            obtain ⟨k, before, last, rfl, hlast⟩ := ih (n + 1) log₃ hnext
            exact ⟨k, log₁ ++ (pause ++ before), last, by simp, hlast⟩
          · obtain ⟨rfl, rfl⟩ := hrest
            exact ⟨n, [], log₁, List.append_nil _, hfn⟩

end

end TrustGate.Market
