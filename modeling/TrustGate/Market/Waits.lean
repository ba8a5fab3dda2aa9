import TrustGate.Market.Hooked

set_option autoImplicit false

/-! # Waiting between webhook attempts

`withRetry` waits for the longer of the jittered backoff and what the answer asked for with
`Retry-After`. A timer keeps a delay in 32 bits, and takes a longer one for a millisecond, so a server
that asks for more than 24 days is tried again at once. -/

namespace TrustGate.Market

open Resumption

/-- `2^31 - 1`, the longest delay that `setTimeout` keeps. -/
def maxTimeoutMs : Nat := 2147483647

/-- After `setTimeout(.., ms)`, `w` milliseconds may have passed. -/
def TimerWaits (ms w : Nat) : Prop := (if ms ≤ maxTimeoutMs then ms else 1) ≤ w

/-- Between the attempts `k` and `k + 1`, `w` milliseconds are no less than asked for: what
`Retry-After` said, and half the backoff. -/
def WaitsEnough (options : WebhookServiceOptions) (k retryAfter w : Nat) : Prop :=
  1000 * retryAfter ≤ w ∧ truncMs (options.baseBackoffMs * 2 ^ k / 2) ≤ w

def isTimeout (d : Done HttpOp HttpReply) : Bool :=
  match d.op with
  | .setTimeout _ => true
  | _ => false

section

variable {α : Type} {p : α → Bool}

/-- Where the first element of a kind stands, the elements before it are not of the kind. -/
theorem split_first {a b l₁ l₂ : List α} {x y : α} (ha : ∀ c ∈ a, p c = false) (hy : p y = true)
    (h : a ++ x :: b = l₁ ++ y :: l₂) :
    (l₁ = a ∧ y = x) ∨ ∃ l₃, l₁ = a ++ x :: l₃ ∧ b = l₃ ++ y :: l₂ := by
  induction a generalizing l₁ with
  | nil =>
      cases l₁ with
      | nil =>
          cases h
          exact .inl ⟨rfl, rfl⟩
      | cons c l₁ =>
          cases h
          exact .inr ⟨l₁, rfl, rfl⟩
  | cons c a ih =>
      cases l₁ with
      | nil =>
          have heq : c = y := (List.cons.inj h).1
          rw [← heq, ha c List.mem_cons_self] at hy
          cases hy
      | cons d l₁ =>
          rw [List.cons_append, List.cons_append, List.cons.injEq] at h
          obtain ⟨rfl, h⟩ := h
          rcases ih (fun e he => ha e (List.mem_cons_of_mem c he)) h with ⟨rfl, hxy⟩ | ⟨l₃, rfl, hb⟩
          · exact .inl ⟨rfl, hxy⟩
          · exact .inr ⟨l₃, rfl, hb⟩

end

section

variable {options : WebhookServiceOptions} {hooked : Bool}

theorem log_no_timeout (n : Nat) (outcome : HttpOutcome) :
    ∀ d ∈ outcome.log options hooked n, isTimeout d = false := by
  intro d hd
  rcases List.mem_append.mp hd with hd | hd
  · cases outcome <;> simp [HttpOutcome.replies] at hd
    · rw [hd]; rfl
    · rcases hd with rfl | rfl <;> rfl
    · rcases hd with rfl | rfl <;> rfl
  · split_ifs at hd
    · obtain ⟨info, -, rfl⟩ := List.mem_map.mp hd
      rfl
    · cases hd

theorem asked_no_timeout (n : Nat) (err : WebhookError) (random : RandomNumber) :
    ∀ d ∈ asked options hooked n err random, isTimeout d = false := by
  intro d hd
  rcases List.mem_cons.mp hd with rfl | hd
  · rfl
  · split_ifs at hd
    · rw [List.mem_singleton.mp hd]
      rfl
    · cases hd

theorem fetches_asked (n : Nat) (err : WebhookError) (random : RandomNumber) :
    fetches (asked options hooked n err random) = 0 := by
  cases hooked <;> rfl

/-- What stands before a wait: the attempt that failed, and the draw. -/
theorem Attempts.before_wait {left n : Nat} {log : HttpLog}
    (h : Attempts options hooked left n log) {l₁ l₂ : HttpLog} {ms w : Nat}
    (hlog : log = l₁ ++ ⟨.setTimeout ms, w⟩ :: l₂) :
    ∃ (before : HttpLog) (outcome : HttpOutcome) (err : WebhookError) (random : RandomNumber),
      l₁ = before ++ (outcome.log options hooked (n + fetches before) ++
        asked options hooked (n + fetches before) err random) ∧
      outcome.error options = some err ∧ isWebhookRetryableError err = true ∧
      ms = waitMs options hooked (n + fetches before) err random := by
  induction h generalizing l₁ with
  | stop left n outcome last =>
      have hmem : (⟨.setTimeout ms, w⟩ : Done HttpOp HttpReply) ∈
          outcome.log options hooked n := hlog ▸ List.mem_append_right _ List.mem_cons_self
      cases log_no_timeout n outcome _ hmem
  | again left n outcome err failed retry random w' rest next ih =>
      rw [← List.append_assoc] at hlog
      have hnone : ∀ d ∈ outcome.log options hooked n ++ asked options hooked n err random,
          isTimeout d = false := by
        intro d hd
        rcases List.mem_append.mp hd with hd | hd
        · exact log_no_timeout n outcome d hd
        · exact asked_no_timeout n err random d hd
      rcases split_first hnone rfl hlog with ⟨rfl, heq⟩ | ⟨l₃, rfl, hrest⟩
      · cases heq
        exact ⟨[], outcome, err, random, rfl, failed, retry, rfl⟩
      · obtain ⟨before, outcome', err', random', rfl, hfailed, hretry, hms⟩ := ih hrest
        have hfetches : n + 1 + fetches before = n + fetches (outcome.log options hooked n ++
            asked options hooked n err random ++
              ⟨.setTimeout (waitMs options hooked n err random), w'⟩ :: before) := by
          rw [fetches_append, fetches_append, fetches_log, fetches_asked]
          show n + 1 + fetches before = n + (1 + 0 + fetches before)
          omega
        rw [hfetches] at hms ⊢
        exact ⟨_, outcome', err', random', by simp, hfailed, hretry, hms⟩

theorem truncMs_mono {a b : Rat} (h : a ≤ b) : truncMs a ≤ truncMs b :=
  Int.toNat_le_toNat (Int.floor_le_floor h)

/-- The delay is the longer of the two. -/
theorem waitMs_eq (n : Nat) (err : WebhookError) (random : RandomNumber) :
    waitMs options hooked n err random =
      max (jitteredMs options n random) (1000 * err.retryAfterSeconds.getD 0) := by
  have hasked : (retryOptions options hooked).extractRetryAfterMs err =
      1000 * err.retryAfterSeconds.getD 0 := by
    unfold RetryOptions.extractRetryAfterMs retryOptions
    dsimp only
    cases err.retryAfterSeconds with
    | none => rfl
    | some s =>
        dsimp only [Option.map_some, Option.getD_some]
        split_ifs with hpos
        · have hcast : (s : Rat) * 1000 = ((1000 * s : Nat) : Rat) := by
            push_cast
            ring
          rw [hcast, truncMs, Int.floor_natCast, Int.toNat_natCast]
        · have : s = 0 := by
            by_contra hne
            exact hpos (by exact_mod_cast Nat.pos_of_ne_zero hne)
          rw [this]
  unfold waitMs RetryOptions.sleepMs
  simp only [hasked]
  split_ifs with h
  · rw [Nat.max_eq_right h.le]
  · rw [Nat.max_eq_left (not_lt.mp h)]

/-- The jitter takes away half the backoff at most. -/
theorem half_le_jittered (hbase : 50 ≤ options.baseBackoffMs) (n : Nat) (random : RandomNumber) :
    truncMs (options.baseBackoffMs * 2 ^ n / 2) ≤ jitteredMs options n random := by
  unfold jitteredMs
  dsimp only
  rw [max_eq_right hbase]
  refine truncMs_mono ?_
  have hraw : 0 ≤ options.baseBackoffMs * 2 ^ n := by positivity
  have hjitter := mul_nonneg random.2.1 hraw
  linarith

/-- Half of any backoff is more than a millisecond. -/
theorem one_lt_half (hbase : 50 ≤ options.baseBackoffMs) (n : Nat) :
    1 < truncMs (options.baseBackoffMs * 2 ^ n / 2) := by
  have hpow : (1 : Rat) ≤ 2 ^ n := one_le_pow₀ (by norm_num)
  have hle : (25 : Rat) ≤ options.baseBackoffMs * 2 ^ n / 2 := by nlinarith
  have := truncMs_mono hle
  have h25 : truncMs 25 = 25 := by
    have := Int.floor_natCast (R := Rat) 25
    rw [truncMs, show (25 : Rat) = ((25 : Nat) : Rat) by norm_num, Int.floor_natCast]
    rfl
  omega

end

/-- **A wait is long enough** on every timer if and only if neither the jittered backoff nor what
`Retry-After` asks for is beyond what a timer keeps. -/
theorem wait_enough_iff (options : WebhookServiceOptions) (hooked : Bool) (log l₁ l₂ : HttpLog)
    (r : Except WebhookError PostJsonResult) (ms w : Nat) (hbase : 50 ≤ options.baseBackoffMs)
    (hends : Ends (postJson options hooked) log r)
    (hlog : log = l₁ ++ ⟨.setTimeout ms, w⟩ :: l₂) :
    ∃ (before : HttpLog) (outcome : HttpOutcome) (err : WebhookError) (random : RandomNumber),
      l₁ = before ++ (outcome.log options hooked (fetches before) ++
        asked options hooked (fetches before) err random) ∧
      outcome.error options = some err ∧ isWebhookRetryableError err = true ∧
      ((∀ w, TimerWaits ms w →
          WaitsEnough options (fetches before) (err.retryAfterSeconds.getD 0) w) ↔
        1000 * err.retryAfterSeconds.getD 0 ≤ maxTimeoutMs ∧
          jitteredMs options (fetches before) random ≤ maxTimeoutMs) := by
  obtain ⟨before, outcome, err, random, hl₁, hfailed, hretry, rfl⟩ :=
    (attempts_of_postJson hends).before_wait hlog
  simp only [Nat.zero_add] at hl₁ ⊢
  refine ⟨before, outcome, err, random, hl₁, hfailed, hretry, ?_⟩
  rw [waitMs_eq]
  unfold TimerWaits WaitsEnough
  have hhalf := half_le_jittered hbase (fetches before) random
  have hone := one_lt_half hbase (fetches before)
  generalize fetches before = k at *
  generalize jitteredMs options k random = jittered at *
  generalize 1000 * err.retryAfterSeconds.getD 0 = asks at *
  constructor
  · intro hall
    by_contra hlong
    have hlate : ¬ max jittered asks ≤ maxTimeoutMs := fun hle =>
      hlong ⟨(le_max_right _ _).trans hle, (le_max_left _ _).trans hle⟩
    -- the timer may be back after a millisecond
    have := (hall 1 (by rw [if_neg hlate])).2
    omega
  · rintro ⟨hasks, hjittered⟩ w hw
    rw [if_pos (max_le hjittered hasks)] at hw
    exact ⟨(le_max_right _ _).trans hw, hhalf.trans ((le_max_left _ _).trans hw)⟩

/-- Reads decimal numerals, for runs on fixed inputs. -/
def decimalNumber (s : String) : Option Rat :=
  if s ≠ "" ∧ s.toList.all Char.isDigit then some (digitsValue s.toList) else none

/-- The worker's defaults. -/
def decimalWebhook : WebhookServiceOptions := ⟨3, 1000, decimalNumber⟩

theorem parse_decimal (s : String) (n : Nat) (htrim : String.ofList (jsTrim s.toList) = s)
    (hdigits : s ≠ "" ∧ s.toList.all Char.isDigit = true) (hvalue : digitsValue s.toList = n) :
    parseRetryAfterSeconds decimalWebhook (some s) = some n := by
  unfold parseRetryAfterSeconds decimalWebhook
  dsimp only
  rw [htrim, if_neg hdigits.1, decimalNumber, if_pos hdigits, hvalue, Option.bind_some]
  rw [if_pos ⟨Nat.cast_nonneg n, Rat.den_natCast n⟩, Rat.num_natCast, Int.toNat_natCast]

theorem unavailable_error (s : String) (n : Nat)
    (hparse : parseRetryAfterSeconds decimalWebhook (some s) = some n) :
    (HttpOutcome.answered ⟨503, some s⟩ "").error decimalWebhook = some (.http 503 "" (some n)) := by
  rw [HttpOutcome.error, hparse]
  exact if_neg (fun h : 200 ≤ 503 ∧ 503 < 300 => absurd h.2 (by decide))

/-- What comes before the wait for a server that is down and asks for `n` seconds, as `s`. -/
def unavailable (s : String) (n : Nat) : HttpLog :=
  (HttpOutcome.answered ⟨503, some s⟩ "").log decimalWebhook true 0 ++
    asked decimalWebhook true 0 (.http 503 "" (some n)) ⟨1 / 2, half_random⟩

/-- The server is tried again `w` milliseconds later, and answers. -/
theorem retried_after (s : String) (n w : Nat)
    (hparse : parseRetryAfterSeconds decimalWebhook (some s) = some n) :
    ∃ (l₂ : HttpLog) (r : Except WebhookError PostJsonResult) (ms : Nat),
      Ends (postJson decimalWebhook true) (unavailable s n ++ ⟨.setTimeout ms, w⟩ :: l₂) r ∧
      ms = max (jitteredMs decimalWebhook 0 ⟨1 / 2, half_random⟩) (1000 * n) := by
  have hattempts : Attempts decimalWebhook true 3 0 _ :=
    .again 2 0 (.answered ⟨503, some s⟩ "") _ (unavailable_error s n hparse) rfl
      ⟨1 / 2, half_random⟩ w _ (.stop 2 1 (.answered ⟨200, none⟩ "") (.inr rfl))
  obtain ⟨r, hends⟩ := postJson_of_attempts hattempts
  rw [← List.append_assoc] at hends
  exact ⟨_, r, _, hends, waitMs_eq _ _ _⟩

/-- A server that asks for 2147484 seconds is tried again after a millisecond. -/
theorem retried_at_once : ¬ ∀ options hooked l₁ l₂ r ms w before outcome err random,
    50 ≤ options.baseBackoffMs →
    Ends (postJson options hooked) (l₁ ++ ⟨.setTimeout ms, w⟩ :: l₂) r → TimerWaits ms w →
    l₁ = before ++ (HttpOutcome.log options hooked (fetches before) outcome ++
      asked options hooked (fetches before) err random) →
    outcome.error options = some err → isWebhookRetryableError err = true →
    WaitsEnough options (fetches before) (err.retryAfterSeconds.getD 0) w := by
  intro hclaim
  have hparse := parse_decimal "2147484" 2147484 (by decide +kernel) (by decide) (by decide +kernel)
  obtain ⟨l₂, r, ms, hends, hms⟩ := retried_after "2147484" 2147484 1 hparse
  have hlate : ¬ ms ≤ maxTimeoutMs := by
    rw [hms]
    have := le_max_right (jitteredMs decimalWebhook 0 ⟨1 / 2, half_random⟩) (1000 * 2147484)
    unfold maxTimeoutMs
    omega
  have hwait : TimerWaits ms 1 := by
    unfold TimerWaits
    rw [if_neg hlate]
  have henough := hclaim decimalWebhook true _ l₂ r ms 1 [] (.answered ⟨503, some "2147484"⟩ "")
    (.http 503 "" (some 2147484)) ⟨1 / 2, half_random⟩ (by norm_num [decimalWebhook]) hends hwait
    rfl (unavailable_error _ _ hparse) rfl
  have : 1000 * 2147484 ≤ 1 := henough.1
  omega

theorem jittered_le (random : RandomNumber) : jitteredMs decimalWebhook 0 random ≤ maxTimeoutMs := by
  have hle : jitteredMs decimalWebhook 0 random ≤ truncMs ((1500 : Nat) : Rat) := by
    unfold jitteredMs decimalWebhook
    refine truncMs_mono ?_
    have := random.2.2
    norm_num
    linarith
  rw [truncMs, Int.floor_natCast, Int.toNat_natCast] at hle
  unfold maxTimeoutMs
  omega

/-- One that asks for 2 seconds gets them. -/
theorem retried_in_time : ∃ l₂ r ms,
    Ends (postJson decimalWebhook true) (unavailable "2" 2 ++ ⟨.setTimeout ms, 2000⟩ :: l₂) r ∧
      ∀ w, TimerWaits ms w → WaitsEnough decimalWebhook 0 2 w := by
  have hparse := parse_decimal "2" 2 (by decide +kernel) (by decide) (by decide +kernel)
  obtain ⟨l₂, r, ms, hends, hms⟩ := retried_after "2" 2 2000 hparse
  obtain ⟨before, outcome, err, random, hbefore, -, -, hiff⟩ :=
    wait_enough_iff decimalWebhook true _ _ l₂ r ms 2000 (by norm_num [decimalWebhook]) hends rfl
  have hfirst : fetches before = 0 := by
    have := congrArg fetches hbefore
    rw [unavailable] at this
    simp only [fetches_append, fetches_log, fetches_asked] at this
    omega
  have herr : err = .http 503 "" (some 2) := by
    have := congrArg List.getLast? hbefore
    rw [unavailable, asked, asked, if_pos rfl, if_pos rfl] at this
    simp only [List.getLast?_append, List.getLast?_cons, List.getLast?_nil, Option.getD_none,
      Option.getD_some, Option.some_or, Option.some.injEq, Done.mk.injEq, HttpOp.onAttempt.injEq,
      retryInfo, AttemptInfo.mk.injEq] at this
    exact this.1.2.2.2.2.2.2.symm
  rw [hfirst, herr] at hiff
  refine ⟨l₂, r, ms, hends, hiff.mpr ⟨?_, jittered_le random⟩⟩
  show 1000 * 2 ≤ maxTimeoutMs
  decide

end TrustGate.Market
