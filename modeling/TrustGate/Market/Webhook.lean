import TrustGate.Market.Retry

set_option autoImplicit false

/-! # The webhook

`src/src/services/webhookService.ts`: one `postJson` call, with its HTTP attempts, the hook that
counts them and the waits between them. What the body and the log lines say is left out. -/

namespace TrustGate.Market

open Resumption

/-! ## Errors -/

/-- What `fetch` or `res.text()` throws. -/
structure Thrown where
  name : String
  message : String
  type : Option String := none
  deriving DecidableEq, Repr

inductive WebhookError where
  /-- `WebhookHttpError`. -/
  | http (status : Nat) (bodyText : String) (retryAfterSeconds : Option Nat)
  | thrown (e : Thrown)
  deriving DecidableEq, Repr

/-- `'2xx'` and so on. -/
inductive StatusClass where
  | c2xx | c3xx | c4xx | c5xx | network | timeout
  deriving DecidableEq, Repr

def classifyStatus (status : Nat) : StatusClass :=
  if 500 ≤ status then .c5xx
  else if 400 ≤ status then .c4xx
  else if 300 ≤ status then .c3xx
  else .c2xx

def Thrown.isAbort (e : Thrown) : Bool := e.name = "AbortError"

def isWebhookRetryableError : WebhookError → Bool
  | .http status _ _ => status = 408 || status = 429 || (500 ≤ status && status < 600)
  | .thrown e =>
      e.isAbort || e.type.any (mentions ["network", "timeout", "fetch"]) ||
        mentions ["fetch failed", "econnreset", "etimedout", "dns", "enotfound", "tls", "socket",
          "aborted", "timeout", "timed out"] e.message

/-- The `statusClass` of `classifyWebhookError`. -/
def classifyWebhookError : WebhookError → StatusClass
  | .http status _ _ => classifyStatus status
  | .thrown e => if e.isAbort then .timeout else .network

def WebhookError.httpStatus : WebhookError → Option Nat
  | .http status _ _ => some status
  | .thrown _ => none

def WebhookError.retryAfterSeconds : WebhookError → Option Nat
  | .http _ _ retryAfterSeconds => retryAfterSeconds
  | .thrown _ => none

/-! ## Operations -/

/-- An answer whose headers have arrived. -/
structure HttpResponse where
  status : Nat
  /-- The header `Retry-After`. -/
  retryAfter : Option String := none
  deriving DecidableEq, Repr

/-- What `hooks.onAttempt` is told. -/
structure AttemptInfo where
  attemptIndex : Nat
  totalAttempts : Nat
  statusClass : StatusClass
  httpStatus : Option Nat := none
  willRetry : Bool
  sleepMs : Option Nat := none
  err : Option WebhookError := none
  deriving DecidableEq, Repr

inductive HttpOp where
  | fetch
  | text
  | onAttempt (info : AttemptInfo)
  | random
  | setTimeout (ms : Nat)
  deriving DecidableEq

/-- The reply to `setTimeout` is the time that has passed. -/
abbrev HttpReply : HttpOp → Type
  | .fetch => Except Thrown HttpResponse
  | .text => Except Thrown String
  | .onAttempt _ => Unit
  | .random => RandomNumber
  | .setTimeout _ => Nat

abbrev HttpProg (α : Type) := Prog HttpOp HttpReply α

abbrev awaitHttp (o : HttpOp) : HttpProg (HttpReply o) := ask o

/-- What an HTTP call is replied, oldest first. -/
abbrev HttpLog := List (Done HttpOp HttpReply)

/-! ## WebhookService -/

/-- `WebhookServiceOptions`, and `Number` where it is finite. -/
structure WebhookServiceOptions where
  maxRetries : Nat
  baseBackoffMs : Rat
  number : String → Option Rat

structure PostJsonResult where
  status : Nat
  bodyText : String
  attempts : Nat
  deriving DecidableEq, Repr

section

variable (options : WebhookServiceOptions)

def parseRetryAfterSeconds (retryAfter : Option String) : Option Nat :=
  match retryAfter with
  | none => none
  | some raw =>
    let trimmed := String.ofList (jsTrim raw.toList)
    if trimmed = "" then none
    else (options.number trimmed).bind fun n =>
      if 0 ≤ n ∧ n.den = 1 then some n.num.toNat else none

variable (hooked : Bool)

/-- `hooks?.onAttempt?.(info)`. -/
def report (info : AttemptInfo) : HttpProg Unit :=
  if hooked then awaitHttp (.onAttempt info) else pure ()

/-- What the hook is told of an attempt that failed with `err`. -/
def failureInfo (n : Nat) (statusClass : StatusClass) (err : WebhookError) : AttemptInfo where
  attemptIndex := n
  totalAttempts := options.maxRetries + 1
  statusClass := statusClass
  httpStatus := err.httpStatus
  willRetry := isWebhookRetryableError err && n + 1 ≤ options.maxRetries
  err := some err

/-- The attempt number `n`. Once there is an answer, an error while its body is read is passed on
without a word to the hook. -/
def postAttempt (n : Nat) : HttpProg (Except WebhookError PostJsonResult) := do
  match ← awaitHttp .fetch with
  | .error e =>
    report hooked (failureInfo options n (if e.isAbort then .timeout else .network) (.thrown e))
    return .error (.thrown e)
  | .ok res =>
    match ← awaitHttp .text with
    | .error e => return .error (.thrown e)
    | .ok bodyText =>
      if 200 ≤ res.status ∧ res.status < 300 then
        report hooked {
          attemptIndex := n
          totalAttempts := options.maxRetries + 1
          statusClass := classifyStatus res.status
          httpStatus := some res.status
          willRetry := false }
        return .ok ⟨res.status, bodyText, n + 1⟩
      else
        let err := WebhookError.http res.status bodyText
          (parseRetryAfterSeconds options res.retryAfter)
        report hooked (failureInfo options n (classifyStatus res.status) err)
        return .error err

/-- What the hook is told before the wait. -/
def retryInfo (info : RetryInfo WebhookError) : AttemptInfo where
  attemptIndex := info.attempt + 1
  totalAttempts := info.totalAttempts
  statusClass := classifyWebhookError info.lastError
  httpStatus := info.lastError.httpStatus
  willRetry := true
  sleepMs := some info.computedDelayMs
  err := some info.lastError

def retryOptions : RetryOptions HttpOp HttpReply WebhookError where
  retries := options.maxRetries
  baseDelayMs := max 50 options.baseBackoffMs
  jitterPct := 1 / 2
  shouldRetry := isWebhookRetryableError
  onRetry := some fun info => do
    report hooked (retryInfo info)
    return none
  retryAfterSeconds err := err.retryAfterSeconds.map fun s : Nat => (s : Rat)
  random := awaitHttp .random
  setTimeout ms := do
    let _ ← awaitHttp (.setTimeout ms)

def postJson : HttpProg (Except WebhookError PostJsonResult) :=
  withRetry (postAttempt options hooked) (retryOptions options hooked)

end

/-! ## Attempts -/

/-- How an attempt goes. -/
inductive HttpOutcome where
  | refused (e : Thrown)
  | cut (res : HttpResponse) (e : Thrown)
  | answered (res : HttpResponse) (bodyText : String)
  deriving DecidableEq, Repr

namespace HttpOutcome

variable (options : WebhookServiceOptions)

/-- What the attempt throws. -/
def error : HttpOutcome → Option WebhookError
  | .refused e => some (.thrown e)
  | .cut _ e => some (.thrown e)
  | .answered res bodyText =>
      if 200 ≤ res.status ∧ res.status < 300 then none
      else some (.http res.status bodyText (parseRetryAfterSeconds options res.retryAfter))

/-- The attempt is one that `withRetry` would repeat. -/
def retryable (outcome : HttpOutcome) : Bool := (outcome.error options).any isWebhookRetryableError

/-- The replies that make up the outcome. -/
def replies : HttpOutcome → HttpLog
  | .refused e => [⟨.fetch, .error e⟩]
  | .cut res e => [⟨.fetch, .ok res⟩, ⟨.text, .error e⟩]
  | .answered res bodyText => [⟨.fetch, .ok res⟩, ⟨.text, .ok bodyText⟩]

/-- What the hook is told of the attempt number `n`, where it is told anything. -/
def info (n : Nat) : HttpOutcome → Option AttemptInfo
  | .refused e =>
      some (failureInfo options n (if e.isAbort then .timeout else .network) (.thrown e))
  | .cut _ _ => none
  | .answered res bodyText =>
      if 200 ≤ res.status ∧ res.status < 300 then
        some {
          attemptIndex := n
          totalAttempts := options.maxRetries + 1
          statusClass := classifyStatus res.status
          httpStatus := some res.status
          willRetry := false }
      else
        some (failureInfo options n (classifyStatus res.status)
          (.http res.status bodyText (parseRetryAfterSeconds options res.retryAfter)))

/-- All that the attempt number `n` does. -/
def log (hooked : Bool) (n : Nat) (outcome : HttpOutcome) : HttpLog :=
  outcome.replies ++
    if hooked then (outcome.info options n).toList.map fun info => ⟨.onAttempt info, ()⟩ else []

end HttpOutcome

/-- The outcome that the first replies make up. -/
def firstOutcome : HttpLog → Option HttpOutcome
  | ⟨.fetch, .error e⟩ :: _ => some (.refused e)
  | ⟨.fetch, .ok res⟩ :: ⟨.text, .error e⟩ :: _ => some (.cut res e)
  | ⟨.fetch, .ok res⟩ :: ⟨.text, .ok bodyText⟩ :: _ => some (.answered res bodyText)
  | _ => none

@[simp] theorem firstOutcome_log (options : WebhookServiceOptions) (hooked : Bool) (n : Nat)
    (outcome : HttpOutcome) (rest : HttpLog) :
    firstOutcome (outcome.log options hooked n ++ rest) = some outcome := by
  cases outcome <;> rfl

/-- The replies between a failed attempt and the next. -/
def jitteredMs (options : WebhookServiceOptions) (n : Nat) (random : RandomNumber) : Nat :=
  let rawDelay := max 50 options.baseBackoffMs * 2 ^ n
  truncMs (rawDelay + (random.val * 2 - 1) * rawDelay * (1 / 2))

def asked (options : WebhookServiceOptions) (hooked : Bool) (n : Nat) (err : WebhookError)
    (random : RandomNumber) : HttpLog :=
  ⟨.random, random⟩ :: if hooked then [⟨.onAttempt (retryInfo {
    attempt := n
    totalAttempts := options.maxRetries + 1
    lastError := err
    computedDelayMs := jitteredMs options n random }), ()⟩] else []

/-- How long `withRetry` asks the timer to wait. -/
def waitMs (options : WebhookServiceOptions) (hooked : Bool) (n : Nat) (err : WebhookError)
    (random : RandomNumber) : Nat :=
  (retryOptions options hooked).sleepMs (jitteredMs options n random) none err

/-- **The calls of `postJson`**, from the attempt number `n` on where `left` may follow it: the last
attempt is the last allowed or does not call for another. -/
inductive Attempts (options : WebhookServiceOptions) (hooked : Bool) : Nat → Nat → HttpLog → Prop
  | stop (left n : Nat) (outcome : HttpOutcome)
      (last : left = 0 ∨ outcome.retryable options = false) :
      Attempts options hooked left n (outcome.log options hooked n)
  | again (left n : Nat) (outcome : HttpOutcome) (err : WebhookError)
      (failed : outcome.error options = some err) (retry : isWebhookRetryableError err = true)
      (random : RandomNumber) (w : Nat) (rest : HttpLog)
      (next : Attempts options hooked left (n + 1) rest) :
      Attempts options hooked (left + 1) n (outcome.log options hooked n ++
        (asked options hooked n err random ++
          ⟨.setTimeout (waitMs options hooked n err random), w⟩ :: rest))

section

variable {options : WebhookServiceOptions} {hooked : Bool} {log : HttpLog}

theorem ends_report {info : AttemptInfo} {u : Unit} : Ends (report hooked info) log u ↔
    log = if hooked then [⟨.onAttempt info, ()⟩] else [] := by
  cases hooked with
  | false => exact and_iff_left rfl
  | true =>
      constructor
      · rintro ⟨r, rest, rfl, rfl, -⟩
        rfl
      · rintro rfl
        exact ⟨(), [], rfl, rfl, rfl⟩

/-- An attempt has an outcome. -/
theorem ends_postAttempt {n : Nat} {r : Except WebhookError PostJsonResult}
    (h : Ends (postAttempt options hooked n) log r) :
    ∃ outcome : HttpOutcome, log = outcome.log options hooked n ∧
      ∀ err, r = .error err ↔ outcome.error options = some err := by
  obtain ⟨fetched, log₁, rfl, hfetched⟩ := ends_ask_bind.mp h
  rcases fetched with e | res
  · obtain ⟨log₂, u, log₃, hreport, ⟨rfl, rfl⟩, rfl⟩ := ends_bind.mp hfetched
    refine ⟨.refused e, ?_, by simp [HttpOutcome.error, eq_comm]⟩
    rw [ends_report.mp hreport, List.append_nil]
    cases hooked <;> rfl
  obtain ⟨body, log₂, rfl, hbody⟩ := ends_ask_bind.mp hfetched
  rcases body with e | bodyText
  · obtain ⟨rfl, rfl⟩ := hbody
    refine ⟨.cut res e, ?_, by simp [HttpOutcome.error, eq_comm]⟩
    cases hooked <;> rfl
  refine ⟨.answered res bodyText, ?_⟩
  dsimp only at hbody
  unfold HttpOutcome.log HttpOutcome.info HttpOutcome.error
  by_cases hstatus : 200 ≤ res.status ∧ res.status < 300
  · rw [if_pos hstatus] at hbody
    obtain ⟨log₃, u, log₄, hreport, ⟨rfl, rfl⟩, rfl⟩ := ends_bind.mp hbody
    rw [ends_report.mp hreport, List.append_nil]
    dsimp only
    rw [if_pos hstatus, if_pos hstatus]
    exact ⟨rfl, by simp⟩
  · rw [if_neg hstatus] at hbody
    obtain ⟨log₃, u, log₄, hreport, ⟨rfl, rfl⟩, rfl⟩ := ends_bind.mp hbody
    rw [ends_report.mp hreport, List.append_nil]
    dsimp only
    rw [if_neg hstatus, if_neg hstatus]
    exact ⟨rfl, by simp [eq_comm]⟩

/-- What stands between two attempts. -/
theorem ends_pause {n : Nat} {err : WebhookError} {u : Unit}
    (h : Ends ((retryOptions options hooked).pause n err) log u) :
    ∃ (random : RandomNumber) (w : Nat), log = asked options hooked n err random ++
      [⟨.setTimeout (waitMs options hooked n err random), w⟩] := by
  obtain ⟨log₁, jitterMs, log₂, hjitter, h, rfl⟩ := ends_bind.mp h
  have hpositive : 0 < (retryOptions options hooked).jitterPct := by
    show (0 : Rat) < 1 / 2
    norm_num
  unfold RetryOptions.jitterMs at hjitter
  rw [if_pos hpositive] at hjitter
  obtain ⟨random, rest, rfl, rfl, rfl⟩ := ends_ask_bind.mp hjitter
  obtain ⟨log₁, override, log₃, hretry, hwait, rfl⟩ := ends_bind.mp h
  obtain ⟨log₄, u', rest, hreport, ⟨rfl, rfl⟩, rfl⟩ := ends_bind.mp hretry
  obtain ⟨w, rest, rfl, rfl, -⟩ := ends_ask_bind.mp hwait
  refine ⟨random, w, ?_⟩
  rw [ends_report.mp hreport, List.append_nil]
  rfl

theorem attempts_of_ends {r : Except WebhookError PostJsonResult} (left : Nat) : ∀ n log,
    Ends ((retryOptions options hooked).retryLoop (postAttempt options hooked) left n) log r →
      Attempts options hooked left n log := by
  induction left with
  | zero =>
      intro n log h
      obtain ⟨outcome, rfl, -⟩ := ends_postAttempt h
      exact .stop 0 n outcome (.inl rfl)
  | succ left ih =>
      intro n log h
      obtain ⟨log₁, r₁, log₂, hattempt, h, rfl⟩ := ends_bind.mp h
      obtain ⟨outcome, rfl, herror⟩ := ends_postAttempt hattempt
      have hstop (hdone : outcome.retryable options = false) (hnil : log₂ = []) :
          Attempts options hooked (left + 1) n (outcome.log options hooked n ++ log₂) := by
        rw [hnil, List.append_nil]
        exact .stop (left + 1) n outcome (.inr hdone)
      rcases r₁ with err | a
      · have herr := (herror err).mp rfl
        change Ends (if ¬ isWebhookRetryableError err = true then _ else _) log₂ r at h
        by_cases hretry : isWebhookRetryableError err = true
        · rw [if_neg (not_not.mpr hretry)] at h
          obtain ⟨log₃, u, log₄, hpause, hnext, rfl⟩ := ends_bind.mp h
          obtain ⟨random, w, rfl⟩ := ends_pause hpause
          rw [List.append_assoc, List.singleton_append]
          exact .again left n outcome err herr hretry random w log₄ (ih (n + 1) log₄ hnext)
        · rw [if_pos hretry] at h
          refine hstop ?_ h.1
          rw [HttpOutcome.retryable, herr]
          simpa using hretry
      · refine hstop ?_ h.1
        have hnone : outcome.error options = none := by
          by_contra hsome
          obtain ⟨err, herr⟩ := Option.ne_none_iff_exists'.mp hsome
          cases (herror err).mpr herr
        rw [HttpOutcome.retryable, hnone]
        rfl

/-- **Every call of `postJson` is a sequence of attempts.** -/
theorem attempts_of_postJson {r : Except WebhookError PostJsonResult}
    (h : Ends (postJson options hooked) log r) :
    Attempts options hooked options.maxRetries 0 log :=
  attempts_of_ends _ _ _ h

/-- Every outcome is possible. -/
theorem postAttempt_ends (n : Nat) (outcome : HttpOutcome) :
    ∃ r, Ends (postAttempt options hooked n) (outcome.log options hooked n) r ∧
      ∀ err, r = .error err ↔ outcome.error options = some err := by
  have hreported {info : AttemptInfo} {r : Except WebhookError PostJsonResult} :
      Ends (do report hooked info; return r) (if hooked then [⟨.onAttempt info, ()⟩] else []) r :=
    ends_bind.mpr ⟨_, (), [], ends_report.mpr rfl, ⟨rfl, rfl⟩, (List.append_nil _).symm⟩
  cases outcome with
  | refused e =>
      refine ⟨.error (.thrown e), ⟨.error e, _, rfl, ?_⟩, by simp [HttpOutcome.error, eq_comm]⟩
      cases hooked <;> exact hreported
  | cut res e =>
      refine ⟨.error (.thrown e), ⟨.ok res, _, rfl, .error e, _, rfl, ?_, rfl⟩,
        by simp [HttpOutcome.error, eq_comm]⟩
      cases hooked <;> rfl
  | answered res bodyText =>
      unfold HttpOutcome.log HttpOutcome.info HttpOutcome.error
      dsimp only
      by_cases hstatus : 200 ≤ res.status ∧ res.status < 300
      · rw [if_pos hstatus, if_pos hstatus]
        refine ⟨.ok ⟨res.status, bodyText, n + 1⟩, ⟨.ok res, _, rfl, .ok bodyText, _, rfl, ?_⟩,
          by simp⟩
        change Ends (if 200 ≤ res.status ∧ res.status < 300 then _ else _) _ _
        rw [if_pos hstatus]
        exact hreported
      · rw [if_neg hstatus, if_neg hstatus]
        refine ⟨.error (.http res.status bodyText (parseRetryAfterSeconds options res.retryAfter)),
          ⟨.ok res, _, rfl, .ok bodyText, _, rfl, ?_⟩, by simp⟩
        change Ends (if 200 ≤ res.status ∧ res.status < 300 then _ else _) _ _
        rw [if_neg hstatus]
        exact hreported

theorem pause_ends (n : Nat) (err : WebhookError) (random : RandomNumber) (w : Nat) :
    Ends ((retryOptions options hooked).pause n err) (asked options hooked n err random ++
      [⟨.setTimeout (waitMs options hooked n err random), w⟩]) () := by
  have hjitter : Ends ((retryOptions options hooked).jitterMs n) [⟨.random, random⟩]
      ((random.val * 2 - 1) * (max 50 options.baseBackoffMs * 2 ^ n) * (1 / 2)) := by
    have hpositive : 0 < (retryOptions options hooked).jitterPct := by
      show (0 : Rat) < 1 / 2
      norm_num
    unfold RetryOptions.jitterMs
    rw [if_pos hpositive]
    exact ⟨random, [], rfl, rfl, rfl⟩
  refine ends_bind.mpr ⟨_, _, _, hjitter, ?_, rfl⟩
  refine ends_bind.mpr ⟨_, none, _, ends_bind.mpr ⟨_, (), [], ends_report.mpr rfl, ⟨rfl, rfl⟩,
    (List.append_nil _).symm⟩, ⟨w, [], rfl, rfl, rfl⟩, rfl⟩

/-- Every sequence of attempts is a call. -/
theorem ends_of_attempts {left n : Nat} (h : Attempts options hooked left n log) :
    ∃ r, Ends ((retryOptions options hooked).retryLoop (postAttempt options hooked) left n) log
      r := by
  induction h with
  | stop left n outcome last =>
      obtain ⟨r, hends, herror⟩ := postAttempt_ends n outcome
      refine ⟨r, ?_⟩
      cases left with
      | zero => exact hends
      | succ left =>
          refine ends_bind.mpr ⟨_, r, [], hends, ?_, (List.append_nil _).symm⟩
          rcases r with err | a
          · have hstop := last.resolve_left (Nat.succ_ne_zero left)
            rw [HttpOutcome.retryable, (herror err).mp rfl, Option.any_some] at hstop
            dsimp only
            change Ends (if ¬ isWebhookRetryableError err = true then _ else _) [] _
            rw [hstop, if_pos Bool.false_ne_true]
            exact ⟨rfl, rfl⟩
          · exact ⟨rfl, rfl⟩
  | again left n outcome err failed retry random w rest next ih =>
      obtain ⟨r, hrest⟩ := ih
      obtain ⟨r₁, hends, herror⟩ := postAttempt_ends n outcome
      rw [(herror err).mpr failed] at hends
      refine ⟨r, ends_bind.mpr ⟨_, _, _, hends, ?_, rfl⟩⟩
      change Ends (if ¬ isWebhookRetryableError err = true then _ else _) _ _
      rw [if_neg (not_not.mpr retry)]
      refine ends_bind.mpr ⟨_, (), rest, pause_ends n err random w, hrest, ?_⟩
      rw [List.append_assoc, List.singleton_append]

/-- Both ways. -/
theorem postJson_of_attempts (h : Attempts options hooked options.maxRetries 0 log) :
    ∃ r, Ends (postJson options hooked) log r :=
  ends_of_attempts h

end

end TrustGate.Market
