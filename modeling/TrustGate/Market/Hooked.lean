import TrustGate.Market.Webhook

set_option autoImplicit false

/-! # Counting webhook attempts

The hook is told of an attempt by the attempt itself and, before the wait, a second time under the
next attempt's number. An answer whose body does not arrive is not told at all. So attempts are counted
once each only where there is one, and it is told. -/

namespace TrustGate.Market

open Resumption

def isFetch (d : Done HttpOp HttpReply) : Bool := d.op = .fetch

/-- How many HTTP attempts were made. -/
def fetches (log : HttpLog) : Nat := log.countP isFetch

/-- What the hook was told, in order. -/
def hookCalls (log : HttpLog) : List AttemptInfo :=
  log.filterMap fun d => match d.op with
    | .onAttempt info => some info
    | _ => none

/-- The hook was told of each attempt once, in order, and of each that another follows that it
will be retried. -/
structure CountedOnce (log : HttpLog) : Prop where
  indices : (hookCalls log).map AttemptInfo.attemptIndex = List.range (fetches log)
  willRetry : (hookCalls log).map AttemptInfo.willRetry =
    (List.range (fetches log)).map fun i => decide (i + 1 < fetches log)

/-- The body of the answer, if there was one, was read. -/
def HttpOutcome.isRead : HttpOutcome → Bool
  | .cut _ _ => false
  | _ => true

@[simp] theorem fetches_append (log log' : HttpLog) :
    fetches (log ++ log') = fetches log + fetches log' := List.countP_append

@[simp] theorem hookCalls_append (log log' : HttpLog) :
    hookCalls (log ++ log') = hookCalls log ++ hookCalls log' := List.filterMap_append

section

variable {options : WebhookServiceOptions}

theorem fetches_log (hooked : Bool) (n : Nat) (outcome : HttpOutcome) :
    fetches (outcome.log options hooked n) = 1 := by
  unfold HttpOutcome.log
  have hhook : fetches (if hooked then (outcome.info options n).toList.map fun info =>
      ⟨.onAttempt info, ()⟩ else []) = 0 := by
    refine List.countP_eq_zero.mpr fun d hd => ?_
    split_ifs at hd
    · obtain ⟨info, -, rfl⟩ := List.mem_map.mp hd
      simp [isFetch]
    · cases hd
  rw [fetches_append, hhook]
  cases outcome <;> rfl

theorem hookCalls_log (n : Nat) (outcome : HttpOutcome) :
    hookCalls (outcome.log options true n) = (outcome.info options n).toList := by
  unfold HttpOutcome.log
  rw [hookCalls_append]
  cases outcome with
  | refused e => rfl
  | cut res e => rfl
  | answered res bodyText => cases HttpOutcome.info options n (.answered res bodyText) <;> rfl

/-- The last thing told before the last of several attempts is under that attempt's number, and
says that it will be retried. -/
theorem Attempts.told {left n : Nat} {log : HttpLog} (h : Attempts options true left n log) :
    1 ≤ fetches log ∧ (2 ≤ fetches log → ∃ info ∈ hookCalls log,
      info.attemptIndex + 1 = n + fetches log ∧ info.willRetry = true) := by
  induction h with
  | stop left n outcome last =>
      rw [fetches_log]
      exact ⟨le_refl 1, fun h => absurd h (by omega)⟩
  | again left n outcome err failed retry random w rest next ih =>
      obtain ⟨hone, hmore⟩ := ih
      have hfetches : fetches (outcome.log options true n ++ (asked options true n err random ++
          ⟨.setTimeout (waitMs options true n err random), w⟩ :: rest)) = 1 + fetches rest := by
        rw [fetches_append, fetches_log]
        rfl
      rw [hfetches]
      refine ⟨by omega, fun _ => ?_⟩
      by_cases hlast : 2 ≤ fetches rest
      · obtain ⟨info, hmem, hindex, hwill⟩ := hmore hlast
        refine ⟨info, ?_, by omega, hwill⟩
        rw [hookCalls_append]
        exact List.mem_append_right _ (List.mem_cons_of_mem _ hmem)
      · refine ⟨retryInfo ⟨n, options.maxRetries + 1, err, jitteredMs options n random⟩, ?_, ?_, rfl⟩
        · rw [hookCalls_append]
          exact List.mem_append_right _ List.mem_cons_self
        · show n + 1 + 1 = n + (1 + fetches rest)
          omega

/-- Nothing told of the last attempt says that it will be retried. -/
theorem CountedOnce.last {log : HttpLog} (h : CountedOnce log) {info : AttemptInfo}
    (hmem : info ∈ hookCalls log) (hindex : info.attemptIndex + 1 = fetches log) :
    info.willRetry = false := by
  obtain ⟨i, hi⟩ := List.mem_iff_getElem?.mp hmem
  have hindices := congrArg (·[i]?) h.indices
  have hwill := congrArg (·[i]?) h.willRetry
  simp only [List.getElem?_map, hi, Option.map_some] at hindices hwill
  obtain ⟨_, hat⟩ := List.getElem?_eq_some_iff.mp hindices.symm
  rw [List.getElem_range] at hat
  rw [List.getElem?_range (by omega), Option.map_some, Option.some.injEq] at hwill
  rw [hwill]
  exact decide_eq_false (by omega)

/-- **Webhook attempts are counted once** exactly where the first attempt is the only one and its
answer, if there is one, is read to the end. -/
theorem attempts_counted_iff (options : WebhookServiceOptions) (log : HttpLog)
    (r : Except WebhookError PostJsonResult) (hends : Ends (postJson options true) log r) :
    CountedOnce log ↔ ∃ outcome, firstOutcome log = some outcome ∧ outcome.isRead = true ∧
      (options.maxRetries = 0 ∨ outcome.retryable options = false) := by
  have hattempts := attempts_of_postJson hends
  generalize hleft : options.maxRetries = left at hattempts
  generalize hn : 0 = n at hattempts
  cases hattempts with
  | stop _ _ outcome last =>
      subst hn
      have hfirst : firstOutcome (outcome.log options true 0) = some outcome := by
        have := firstOutcome_log options true 0 outcome []
        rwa [List.append_nil] at this
      have hretry : (isRetried : Bool) → isRetried = outcome.retryable options →
          (isRetried && decide (0 + 1 ≤ options.maxRetries)) = false := by
        rintro _ rfl
        rcases last with h0 | hstop
        · simp [hleft, h0]
        · simp [hstop]
      constructor
      · intro hcounted
        refine ⟨outcome, hfirst, ?_, last⟩
        have hindices := hcounted.indices
        rw [hookCalls_log, fetches_log] at hindices
        cases outcome with
        | cut res e => cases hindices
        | refused e => rfl
        | answered res bodyText => rfl
      · rintro ⟨outcome', heq, hread, -⟩
        rw [hfirst] at heq
        cases heq
        have hinfo : ∃ info, outcome.info options 0 = some info ∧ info.attemptIndex = 0 ∧
            info.willRetry = false := by
          cases outcome with
          | cut res e => cases hread
          | refused e => exact ⟨_, rfl, rfl, hretry _ rfl⟩
          | answered res bodyText =>
              unfold HttpOutcome.info
              unfold HttpOutcome.retryable HttpOutcome.error at hretry
              dsimp only at hretry ⊢
              split_ifs at hretry ⊢
              · exact ⟨_, rfl, rfl, rfl⟩
              · exact ⟨_, rfl, rfl, hretry _ rfl⟩
        obtain ⟨info, hinfo, hindex, hwill⟩ := hinfo
        constructor
        · rw [hookCalls_log, fetches_log, hinfo]
          simp [hindex]
        · rw [hookCalls_log, fetches_log, hinfo]
          simp [hwill]
  | again left _ outcome err failed retry random w rest next =>
      subst hn
      have htold := (Attempts.again left 0 outcome err failed retry random w rest next).told
      have hmore := next.told.1
      generalize hlog : outcome.log options true 0 ++ (asked options true 0 err random ++
        ⟨.setTimeout (waitMs options true 0 err random), w⟩ :: rest) = log at htold
      have htwo : 2 ≤ fetches log := by
        rw [← hlog, fetches_append, fetches_log]
        show 2 ≤ 1 + fetches rest
        omega
      refine iff_of_false (fun hcounted => ?_) ?_
      · obtain ⟨info, hmem, hindex, hwill⟩ := htold.2 htwo
        rw [hcounted.last hmem (by omega)] at hwill
        cases hwill
      · rintro ⟨outcome', heq, -, h0 | hstop⟩
        · cases h0
        · rw [← hlog, firstOutcome_log] at heq
          cases heq
          rw [HttpOutcome.retryable, failed] at hstop
          simp [retry] at hstop

end

/-- The worker's defaults. -/
def defaultWebhook : WebhookServiceOptions := ⟨3, 1000, fun _ => none⟩

theorem half_random : (0 : Rat) ≤ 1 / 2 ∧ (1 / 2 : Rat) < 1 := by norm_num

/-- An answer of 503, and at the second attempt one of 200. -/
theorem second_attempt_counted_twice : ¬ ∀ options log r,
    Ends (postJson options true) log r → CountedOnce log := by
  intro hclaim
  have hattempts : Attempts defaultWebhook true 3 0 _ :=
    .again 2 0 (.answered ⟨503, none⟩ "") (.http 503 "" none) rfl rfl ⟨1 / 2, half_random⟩ 1000 _
      (.stop 2 1 (.answered ⟨200, none⟩ "") (.inr rfl))
  obtain ⟨r, hends⟩ := postJson_of_attempts hattempts
  cases (hclaim _ _ r hends).indices

theorem delivered_counted_once :
    CountedOnce ((HttpOutcome.answered ⟨200, none⟩ "ok").log defaultWebhook true 0) := by
  have hattempts : Attempts defaultWebhook true 3 0 _ :=
    .stop 3 0 (.answered ⟨200, none⟩ "ok") (.inr rfl)
  obtain ⟨r, hends⟩ := postJson_of_attempts hattempts
  exact (attempts_counted_iff defaultWebhook _ r hends).mpr
    ⟨.answered ⟨200, none⟩ "ok", rfl, rfl, .inr rfl⟩

end TrustGate.Market
