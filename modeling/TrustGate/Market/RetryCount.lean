import Mathlib.Data.ENat.Lattice
import TrustGate.Market.Retry

set_option autoImplicit false

/-! # How often `withRetry` calls

The function is called until it succeeds, fails with an error that is not to be retried, or has been
called `retries + 1` times. Between two calls the hook is told once and the timer is waited for once. -/

namespace TrustGate.Market

open Resumption

/-- What `withRetry` awaits; `fn n` is the call with the number `n`. -/
inductive RetryOp (ε : Type) where
  | fn (n : Nat)
  | onRetry (info : RetryInfo ε)
  | random
  | setTimeout (ms : Nat)

abbrev RetryReply (ε α : Type) : RetryOp ε → Type
  | .fn _ => Except ε α
  | .onRetry _ => Option Rat
  | .random => RandomNumber
  | .setTimeout _ => Unit

abbrev RetryLog (ε α : Type) := List (Done (RetryOp ε) (RetryReply ε α))

/-- The options that are values; `hooked` says whether there is an `onRetry`. -/
structure RetrySettings (ε : Type) where
  retries : Nat
  baseDelayMs : Rat
  shouldRetry : ε → Bool
  jitterPct : Rat
  retryAfterSeconds : ε → Option Rat
  hooked : Bool

section

variable {ε α : Type}

abbrev awaitRetry (o : RetryOp ε) : Prog (RetryOp ε) (RetryReply ε α) (RetryReply ε α o) := ask o

def RetrySettings.options (settings : RetrySettings ε) :
    RetryOptions (RetryOp ε) (RetryReply ε α) ε where
  retries := settings.retries
  baseDelayMs := settings.baseDelayMs
  shouldRetry := settings.shouldRetry
  jitterPct := settings.jitterPct
  onRetry := if settings.hooked then some fun info => awaitRetry (.onRetry info) else none
  retryAfterSeconds := settings.retryAfterSeconds
  random := awaitRetry .random
  setTimeout := fun ms => awaitRetry (.setTimeout ms)

def callFn (n : Nat) : Prog (RetryOp ε) (RetryReply ε α) (Except ε α) :=
  awaitRetry (.fn n)

/-- `withRetry` of a function that is awaited. -/
def retried (settings : RetrySettings ε) : Prog (RetryOp ε) (RetryReply ε α) (Except ε α) :=
  withRetry callFn settings.options

/-! ## What a call does -/

/-- What can be seen of a call. -/
inductive RetryStep where
  | called (n : Nat)
  | told (attempt : Nat)
  | slept
  deriving DecidableEq, Repr

def stepOf (d : Done (RetryOp ε) (RetryReply ε α)) : Option RetryStep :=
  match d.op with
  | .fn n => some (.called n)
  | .onRetry info => some (.told info.attempt)
  | .random => none
  | .setTimeout _ => some .slept

def steps (log : RetryLog ε α) : List RetryStep := log.filterMap stepOf

/-- Between two calls. -/
def RetrySettings.between (settings : RetrySettings ε) (n : Nat) : List RetryStep :=
  if settings.hooked then [.told n, .slept] else [.slept]

/-- The calls `n` to `n + k`. -/
def RetrySettings.schedule (settings : RetrySettings ε) (n : Nat) : Nat → List RetryStep
  | 0 => [.called n]
  | k + 1 => .called n :: (settings.between n ++ settings.schedule (n + 1) k)

/-- The function's answers are these. -/
def Answers (outcomes : Nat → Except ε α) (log : RetryLog ε α) : Prop :=
  ∀ n r, ⟨.fn n, r⟩ ∈ log → r = outcomes n

/-- The position of the first number with the property, counted from 1. -/
noncomputable def firstPosition (p : Nat → Prop) : ℕ∞ := ⨅ (n : Nat) (_ : p n), ((n + 1 : Nat) : ℕ∞)

theorem firstPosition_le {p : Nat → Prop} {n : Nat} (h : p n) :
    firstPosition p ≤ ((n + 1 : Nat) : ℕ∞) := iInf₂_le n h

theorem le_firstPosition {p : Nat → Prop} {k : Nat} (h : ∀ n < k, ¬ p n) :
    ((k + 1 : Nat) : ℕ∞) ≤ firstPosition p := by
  refine le_iInf₂ fun n hn => ?_
  have hle : k ≤ n := not_lt.mp fun hlt => h n hlt hn
  exact_mod_cast Nat.succ_le_succ hle

@[simp] theorem steps_append (log log' : RetryLog ε α) :
    steps (log ++ log') = steps log ++ steps log' := List.filterMap_append

theorem steps_pause {settings : RetrySettings ε} {n : Nat} {err : ε} {log : RetryLog ε α}
    (h : Ends (settings.options.pause n err) log ()) : steps log = settings.between n := by
  obtain ⟨log₁, jitter, log₂, hjitter, hpause, rfl⟩ := ends_bind.mp h
  have hdraw : steps log₁ = [] := by
    unfold RetryOptions.jitterMs at hjitter
    split_ifs at hjitter
    · obtain ⟨random, rest, rfl, rfl, -⟩ := ends_ask_bind.mp hjitter
      rfl
    · obtain ⟨rfl, -⟩ := hjitter
      rfl
  rw [steps_append, hdraw, List.nil_append]
  obtain ⟨retries, baseDelayMs, shouldRetry, jitterPct, retryAfterSeconds, hooked⟩ := settings
  cases hooked with
  | true =>
      obtain ⟨override, rest, rfl, hwait⟩ := ends_ask_bind.mp hpause
      obtain ⟨u, rest, rfl, rfl, -⟩ := ends_ask_bind.mp hwait
      rfl
  | false =>
      obtain ⟨u, rest, rfl, rfl, -⟩ := ends_ask_bind.mp hpause
      rfl

/-- The call with the number `n` failed, and is to be repeated. -/
def Again (settings : RetrySettings ε) (outcomes : Nat → Except ε α) (n : Nat) : Prop :=
  ∃ e, outcomes n = .error e ∧ settings.shouldRetry e = true

/-- **The loop from `n` on** calls as long as it is to go on, and returns what the last call did. -/
theorem ends_retryLoop {settings : RetrySettings ε} {outcomes : Nat → Except ε α} (left : Nat) :
    ∀ n log r, Ends (settings.options.retryLoop callFn left n) log r → Answers outcomes log →
      ∃ k ≤ left, steps log = settings.schedule n k ∧ r = outcomes (n + k) ∧
        (∀ m < k, Again settings outcomes (n + m)) ∧
        (k = left ∨ ¬ Again settings outcomes (n + k)) := by
  induction left with
  | zero =>
      intro n log r h hanswers
      obtain ⟨r', rest, rfl, rfl, rfl⟩ := h
      exact ⟨0, le_refl 0, rfl, hanswers n _ List.mem_cons_self, fun m hm => (nomatch hm), .inl rfl⟩
  | succ left ih =>
      intro n log r h hanswers
      obtain ⟨outcome, rest, rfl, hrest⟩ := ends_ask_bind.mp h
      have houtcome : outcome = outcomes n := hanswers n _ List.mem_cons_self
      have hstop (hdone : ¬ Again settings outcomes n) (hnil : rest = []) (hr : r = outcome) :
          ∃ k ≤ left + 1, steps (⟨.fn n, outcome⟩ :: rest : RetryLog ε α) = settings.schedule n k ∧
            r = outcomes (n + k) ∧ (∀ m < k, Again settings outcomes (n + m)) ∧
            (k = left + 1 ∨ ¬ Again settings outcomes (n + k)) := by
        subst hnil
        exact ⟨0, Nat.zero_le _, rfl, hr.trans houtcome, fun m hm => (nomatch hm), .inr hdone⟩
      rcases outcome with err | a
      · change Ends (if ¬ settings.shouldRetry err = true then _ else _) rest r at hrest
        by_cases hretry : settings.shouldRetry err = true
        · rw [if_neg (not_not.mpr hretry)] at hrest
          obtain ⟨log₁, u, log₂, hpause, hnext, rfl⟩ := ends_bind.mp hrest
          obtain ⟨k, hk, hsteps, hr, hagain, hend⟩ := ih (n + 1) log₂ r hnext fun m r hmem =>
            hanswers m r (List.mem_cons_of_mem _ (List.mem_append_right _ hmem))
          refine ⟨k + 1, by omega, ?_, ?_, ?_, ?_⟩
          · show _ :: steps (log₁ ++ log₂) = _
            rw [steps_append, steps_pause hpause, hsteps]
            rfl
          · rw [hr, Nat.add_right_comm, Nat.add_assoc]
          · intro m hm
            cases m with
            | zero => exact ⟨err, houtcome.symm, hretry⟩
            | succ m =>
                have := hagain m (by omega)
                rwa [Nat.add_right_comm, Nat.add_assoc] at this
          · rw [Nat.add_right_comm, Nat.add_assoc] at hend
            exact hend.imp_left fun heq => by rw [heq]
        · rw [if_pos hretry] at hrest
          refine hstop ?_ hrest.1 hrest.2
          rintro ⟨e, he, hshould⟩
          cases houtcome.trans he
          exact hretry hshould
      · refine hstop ?_ hrest.1 hrest.2
        rintro ⟨e, he, -⟩
        cases houtcome.trans he

/-! ## The number of calls -/

def RetryStep.number : RetryStep → Option Nat
  | .called n => some n
  | _ => none

/-- The numbers of the calls, in order. -/
def calls (log : RetryLog ε α) : List Nat := (steps log).filterMap RetryStep.number

theorem calls_schedule (settings : RetrySettings ε) (k : Nat) : ∀ n,
    (settings.schedule n k).filterMap RetryStep.number = List.range' n (k + 1) := by
  induction k with
  | zero => exact fun n => rfl
  | succ k ih =>
      intro n
      have hbetween : (settings.between n).filterMap RetryStep.number = [] := by
        unfold RetrySettings.between
        split_ifs <;> rfl
      rw [RetrySettings.schedule, List.filterMap_cons, List.filterMap_append, hbetween, ih]
      rfl

/-- Any answers can be had. -/
theorem exists_answers (settings : RetrySettings ε) (outcomes : Nat → Except ε α) :
    ∃ log r, Ends (retried settings) log r ∧ Answers outcomes log := by
  let reply : ∀ o, RetryReply ε α o := fun
    | .fn n => outcomes n
    | .onRetry _ => none
    | .random => ⟨0, by norm_num⟩
    | .setTimeout _ => ()
  obtain ⟨log, r, hends, hreplies⟩ := exists_ends_of reply (retried settings)
  exact ⟨log, r, hends, fun n r hmem => hreplies _ hmem⟩

/-- **`withRetry` runs the right number of attempts**, for every sequence of outcomes. -/
theorem withRetry_attempts (settings : RetrySettings ε) (outcomes : Nat → Except ε α) :
    let i := firstPosition fun n => ∃ a, outcomes n = .ok a
    let j := firstPosition fun n => ∃ e, outcomes n = .error e ∧ settings.shouldRetry e = false
    (∃ log r, Ends (retried settings) log r ∧ Answers outcomes log) ∧
    ∀ log r, Ends (retried settings) log r → Answers outcomes log →
      ∃ k : Nat, ((k + 1 : Nat) : ℕ∞) = min i (min j ((settings.retries + 1 : Nat) : ℕ∞)) ∧
        calls log = List.range (k + 1) ∧ steps log = settings.schedule 0 k ∧
        (i ≤ ((k + 1 : Nat) : ℕ∞) →
          ∃ (n : Nat) (a : α), i = ((n + 1 : Nat) : ℕ∞) ∧ outcomes n = .ok a ∧ r = .ok a) ∧
        (((k + 1 : Nat) : ℕ∞) < i → ∃ e, outcomes k = .error e ∧ r = .error e) := by
  intro i j
  refine ⟨exists_answers settings outcomes, fun log r hends hanswers => ?_⟩
  obtain ⟨k, hk, hsteps, hr, hagain, hend⟩ := ends_retryLoop settings.retries 0 log r hends hanswers
  simp only [Nat.zero_add] at hr hagain hend
  have hi : ((k + 1 : Nat) : ℕ∞) ≤ i := by
    refine le_firstPosition fun n hn ⟨a, ha⟩ => ?_
    obtain ⟨e, he, -⟩ := hagain n hn
    rw [ha] at he
    cases he
  have hj : ((k + 1 : Nat) : ℕ∞) ≤ j := by
    refine le_firstPosition fun n hn ⟨e, he, hreject⟩ => ?_
    obtain ⟨e', he', hretry⟩ := hagain n hn
    rw [he] at he'
    cases he'
    rw [hreject] at hretry
    cases hretry
  refine ⟨k, le_antisymm (le_min hi (le_min hj ?_)) ?_, ?_, hsteps, fun hle => ?_, fun hlt => ?_⟩
  · exact_mod_cast Nat.succ_le_succ hk
  · rcases hend with rfl | hstop
    · exact (min_le_right _ _).trans (min_le_right _ _)
    · cases houtcome : outcomes k with
      | ok a => exact (min_le_left _ _).trans (firstPosition_le ⟨a, houtcome⟩)
      | error e =>
          refine (min_le_right _ _).trans ((min_le_left _ _).trans (firstPosition_le ⟨e, houtcome, ?_⟩))
          exact eq_false_of_ne_true fun hretry => hstop ⟨e, houtcome, hretry⟩
  · unfold calls
    rw [hsteps, calls_schedule, List.range_eq_range']
  · cases houtcome : outcomes k with
    | ok a => exact ⟨k, a, le_antisymm hle hi, houtcome, hr.trans houtcome⟩
    | error e =>
        -- no call has succeeded yet
        have hlater : ((k + 1 + 1 : Nat) : ℕ∞) ≤ i := by
          refine le_firstPosition fun n hn ⟨a, ha⟩ => ?_
          rcases Nat.lt_succ_iff_lt_or_eq.mp hn with hlt | rfl
          · obtain ⟨e', he', -⟩ := hagain n hlt
            rw [ha] at he'
            cases he'
          · rw [ha] at houtcome
            cases houtcome
        have hbad : k + 1 + 1 ≤ k + 1 := by exact_mod_cast hlater.trans hle
        omega
  · cases houtcome : outcomes k with
    | ok a => exact absurd (firstPosition_le ⟨a, houtcome⟩) (not_le.mpr hlt)
    | error e => exact ⟨e, rfl, hr.trans houtcome⟩

end

end TrustGate.Market
