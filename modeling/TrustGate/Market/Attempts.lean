import TrustGate.Market.Handled

set_option autoImplicit false

/-! # The attempt budget

Three paths lead to `tryStart`, and any number of workers take them at once. The row of a handler and
an event counts the dispatches that were started, up to the common maximum, and says when the next
one is due. A mark overwrites what an earlier one stored: of the backoffs of dispatches that overlap,
the last one counts. -/

namespace TrustGate.Market

open Resumption

/-! ## What a row counts -/

/-- The attempts that the row of `x` counts. -/
def Store.attempts (m : Store) (x : String × String) : Nat :=
  (m.row x).elim 0 EventConsumptionRecord.attempts

/-- Each handler and event has one row at most: the primary key of the table. -/
def Store.RowsUnique (m : Store) : Prop :=
  (m.consumptions.map fun r => (r.handlerName, r.eventId)).Nodup

instance (m : Store) : Decidable m.RowsUnique := inferInstanceAs (Decidable (List.Nodup _))

section

variable {x : String × String} {o : Op} {c : Outcome} {m m' : Store} {r : Reply o} {pid : Nat}

theorem RowStep.attempts_le (h : RowStep x c m m' o) : m.attempts x ≤ m'.attempts x := by
  unfold Store.attempts
  cases h with
  | same _ row => rw [row]
  | first args key absent row => simp [absent]
  | again args r key found due row => simp [found, row, EventConsumptionRecord.again]
  | succeeded row =>
      rw [row]
      cases m.row x <;> simp [EventConsumptionRecord.succeed]
  | failed error nextRetryAt row =>
      rw [row]
      cases m.row x <;> simp [EventConsumptionRecord.fail]

/-- An attempt is started below the maximum only. -/
theorem RowStep.attempts_bound {N : Nat} (h : RowStep x c m m' o) (hN : 1 ≤ N)
    (hmax : ∀ args, o = .tryStart args → args.maxAttempts = N) (hle : m.attempts x ≤ N) :
    m'.attempts x ≤ N := by
  unfold Store.attempts at *
  cases h with
  | same _ row => rwa [row]
  | first args key absent row => simpa [row, EventConsumptionRecord.first] using hN
  | again args r key found due row =>
      -- a row that is due has attempts left
      have hlt : r.attempts < N := by
        simp only [Store.refuses, Bool.or_eq_false_iff, decide_eq_false_iff_not] at due
        rw [← hmax args rfl]
        exact Nat.lt_of_not_le due.1.2
      simpa [row, EventConsumptionRecord.again] using hlt
  | succeeded row =>
      rw [row]
      cases hrow : m.row x with
      | none => exact Nat.zero_le N
      | some r => simpa [hrow, EventConsumptionRecord.succeed] using hle
  | failed error nextRetryAt row =>
      rw [row]
      cases hrow : m.row x with
      | none => exact Nat.zero_le N
      | some r => simpa [hrow, EventConsumptionRecord.fail] using hle

/-- The call that starts a dispatch of `x`. -/
theorem of_starts (h : starts x ⟨pid, o, r⟩ = true) (hx : exec o c m = some (r, m')) :
    ∃ args s, o = .tryStart args ∧ args.key = x ∧ s.started = true ∧
      exec (.tryStart args) c m = some (.ok s, m') := by
  unfold starts flight at h
  rw [decide_eq_true_eq] at h
  cases o with
  | tryStart args =>
      cases r with
      | error e => cases h
      | ok s =>
          dsimp only at h
          split_ifs at h with hs
          exact ⟨args, s, rfl, Option.some.inj (Option.some.inj h), hs, hx⟩
  | _ => cases r <;> cases h

/-- A dispatch that is started is counted. -/
theorem attempts_of_starts (h : starts x ⟨pid, o, r⟩ = true) (hx : exec o c m = some (r, m')) :
    m'.attempts x = m.attempts x + 1 := by
  obtain ⟨args, s, rfl, rfl, hs, hx⟩ := of_starts h hx
  obtain ⟨hrow, ⟨hnone, hrecord⟩ | ⟨r, hsome, -, hrecord⟩⟩ := started_cases hx hs
  · simp [Store.attempts, hrow, hnone, hrecord, EventConsumptionRecord.first]
  · simp [Store.attempts, hrow, hsome, hrecord, EventConsumptionRecord.again]

theorem updateConsumption_unique (m : Store) (h e : String)
    (f : EventConsumptionRecord → EventConsumptionRecord)
    (hf : ∀ r, (f r).handlerName = r.handlerName ∧ (f r).eventId = r.eventId)
    (hm : m.RowsUnique) : (m.updateConsumption h e f).RowsUnique := by
  unfold Store.RowsUnique Store.updateConsumption updateWhere at *
  rw [List.map_map]
  refine (List.map_congr_left fun r _ => ?_) ▸ hm
  dsimp only [Function.comp]
  split_ifs
  · rw [(hf r).1, (hf r).2]
  · rfl

theorem Store.row_eq_none {m : Store} {x : String × String} :
    m.row x = none ↔ x ∉ m.consumptions.map fun r => (r.handlerName, r.eventId) := by
  obtain ⟨h, e⟩ := x
  unfold Store.row Store.findConsumption
  rw [List.find?_eq_none, List.mem_map]
  simp [EventConsumptionRecord.isFor]

/-- The primary key holds after every call. -/
theorem rowsUnique_exec (hx : exec o c m = some (r, m')) (hm : m.RowsUnique) : m'.RowsUnique := by
  rcases exec_cases hx with ⟨-, rfl, -⟩ | ⟨-, v, hp, -⟩
  · exact hm
  cases o with
  | tryStart args =>
      have hm' : (m.tryStart args c.now).2 = m' := congrArg Prod.snd (Option.some.inj hp)
      rcases m.tryStart_cases args c.now with ⟨hrow, heq⟩ | ⟨r, -, -, heq⟩ | ⟨r, -, -, heq⟩
      · rw [heq] at hm'
        subst hm'
        unfold Store.RowsUnique at *
        rw [List.map_append, List.nodup_append]
        -- `INSERT` runs only when no row has the key
        refine ⟨hm, List.nodup_singleton _, ?_⟩
        rintro _ hold _ hnew rfl
        have hkey := List.mem_singleton.mp hnew
        rw [hkey] at hold
        exact Store.row_eq_none.mp hrow hold
      · rw [heq] at hm'
        exact hm' ▸ hm
      · rw [heq] at hm'
        subst hm'
        exact updateConsumption_unique m _ _ _ (fun _ => ⟨rfl, rfl⟩) hm
  | markSucceeded h e =>
      cases hp
      exact updateConsumption_unique m h e (.succeed c.now) (fun _ => ⟨rfl, rfl⟩) hm
  | markFailed h e error nextRetryAt =>
      cases hp
      exact updateConsumption_unique m h e (.fail error nextRetryAt c.now) (fun _ => ⟨rfl, rfl⟩) hm
  | _ =>
      unfold Store.RowsUnique
      rw [(perform_frame hp).consumptions (by simp) (by simp) (by simp)]
      exact hm

end

/-! ## Backoffs -/

/-- The backoff that the call has stored for `x`. -/
def storedBackoff (x : String × String) (c : Call Op Reply) : Option Nat :=
  match c.op, c.reply with
  | .markFailed h e _ nextRetryAt, .ok _ => if (h, e) = x then some nextRetryAt else none
  | _, _ => none

/-- The time at which the call has started a dispatch of `x`. -/
def startedAt (x : String × String) (c : Call Op Reply) : Option Nat :=
  match c.op, c.reply with
  | .tryStart args, .ok s => if args.key = x ∧ s.started = true then some s.record.updatedAt else none
  | _, _ => none

/-- The call marks a dispatch of `x`, or tries to. -/
def marksRow (x : String × String) (o : Op) : Bool :=
  match o with
  | .markSucceeded h e => (h, e) = x
  | .markFailed h e _ _ => (h, e) = x
  | _ => false

/-- The backoff that the last mark of `x` has stored. -/
def lastBackoff (x : String × String) : Trace Op Reply → Option Nat
  | [] => none
  | c :: t => if marksRow x c.op then storedBackoff x c else lastBackoff x t

/-- No dispatch of `x` was started before the time that the last mark had stored. -/
def WaitsForLast (x : String × String) : Trace Op Reply → Prop :=
  EachCall fun earlier c => ∀ now ∈ startedAt x c, ∀ due ∈ lastBackoff x earlier, due ≤ now

/-- No dispatch of `x` was started before a time that some mark had stored. -/
def WaitsForAll (x : String × String) (t : Trace Op Reply) : Prop :=
  t.Pairwise fun later earlier =>
    ∀ now ∈ startedAt x later, ∀ due ∈ storedBackoff x earlier, due ≤ now

instance (x : String × String) (t : Trace Op Reply) : Decidable (WaitsForAll x t) :=
  inferInstanceAs (Decidable (List.Pairwise _ t))

/-! ## Runs -/

/-- A worker that allows `N` attempts, or any other job. -/
def Job.allows (N : Nat) : Job → Bool
  | .tick cfg _ => cfg.maxAttempts = N
  | _ => true

/-- All jobs, the workers with one maximum, with any faults and crashes. -/
abbrev sharedMaximum (N : Nat) : Regime Op Reply Job Outcome Store :=
  ⟨fun j => j.allows N = true, fun _ _ _ _ _ => True, True⟩

/-- The rows since the start in `m₀`. -/
structure Budget (N : Nat) (m₀ m : Store) (t : Trace Op Reply) : Prop where
  unique : m.RowsUnique
  counted : ∀ x, t.countP (starts x) + m₀.attempts x ≤ m.attempts x
  bounded : ∀ x, m.attempts x ≤ N
  tried : ∀ pid x, inFlight (own pid t) = some x → m.Tried x
  deferred : ∀ x due, lastBackoff x t = some due → ∃ r, m.row x = some r ∧ r.nextRetryAt = some due
  waits : ∀ x, WaitsForLast x t

theorem Budget.initial {N : Nat} {m : Store} (unique : m.RowsUnique)
    (fresh : ∀ x, m.attempts x ≤ N) : Budget N m m [] where
  unique := unique
  counted := fun x => by simp
  bounded := fresh
  tried := fun _ _ h => nomatch h
  deferred := fun _ _ h => nomatch h
  waits := fun _ => trivial

section

variable {N : Nat} {x : String × String} {o : Op} {c : Outcome} {m₀ m m' : Store} {r : Reply o}
  {t : Trace Op Reply} {pid : Nat} {j : Job}

/-- Every attempt asked for is asked for with the common maximum. -/
theorem Job.asksFor {h : Hist} {args : StartArgs} (hj : j.allows N = true)
    (hc : j.Calls h (.tryStart args)) : args.maxAttempts = N := by
  obtain ⟨cfg, cursor, rfl, hc⟩ := Job.tick_of_worker hc rfl
  cases hc with
  | start _ _ max => exact max.trans (by simpa [Job.allows] using hj)
  | dispatch _ _ y hc => exact nomatch hc.2.worker rfl

/-- A dispatch in flight has a row. -/
theorem Budget.tried_call (h : Budget N m₀ m t) (hx : exec o c m = some (r, m')) (p : Nat)
    (x : String × String) (hf : inFlight (own p (⟨pid, o, r⟩ :: t)) = some x) : m'.Tried x := by
  rw [inFlight_call] at hf
  split_ifs at hf with hp
  · cases hfl : flight ⟨o, r⟩ with
    | none =>
        rw [hfl] at hf
        exact (rows_exec hx x).1 (h.tried pid x hf)
    | some y =>
        rw [hfl, Option.getD_some] at hf
        subst hf
        have hstarts : starts x ⟨pid, o, r⟩ = true := by simp [starts, hfl]
        obtain ⟨args, s, rfl, rfl, hs, hx⟩ := of_starts hstarts hx
        exact Option.isSome_iff_exists.mpr ⟨_, (started_cases hx hs).1⟩
  · exact (rows_exec hx x).1 (h.tried p x hf)

/-- The row remembers the last backoff. -/
theorem Budget.deferred_call (h : Budget N m₀ m t) (hc : j.Calls (own pid t) o)
    (hx : exec o c m = some (r, m')) {x : String × String} {due : Nat}
    (hdue : lastBackoff x (⟨pid, o, r⟩ :: t) = some due) :
    ∃ r, m'.row x = some r ∧ r.nextRetryAt = some due := by
  unfold lastBackoff at hdue
  split_ifs at hdue with hmark
  · cases o with
    | markFailed hn e error nextRetryAt =>
        cases r with
        | error y => cases hdue
        | ok v =>
            have hkey : (hn, e) = x := by simpa [marksRow] using hmark
            subst hkey
            simp only [storedBackoff, if_true, Option.some.injEq] at hdue
            -- the dispatch was in flight, so the mark finds a row
            obtain ⟨row, hrow⟩ := Option.isSome_iff_exists.mp
              (h.tried pid _ (Job.marks_inFlight.2 error nextRetryAt hc))
            cases exec_ok hx
            refine ⟨row.fail error nextRetryAt c.now, ?_, congrArg some hdue⟩
            exact (m.row_markFailed (hn, e) error nextRetryAt c.now).trans
              (congrArg (Option.map _) hrow)
    | _ => cases r <;> cases hdue
  · obtain ⟨row, hrow, hnext⟩ := h.deferred x due hdue
    cases rowStep hx x with
    | same _ heq => exact ⟨row, heq.trans hrow, hnext⟩
    | first args key absent _ => cases absent.symm.trans hrow
    | again args r key found _ heq =>
        cases found.symm.trans hrow
        exact ⟨_, heq, hnext⟩
    | succeeded _ => simp [marksRow] at hmark
    | failed _ _ _ => simp [marksRow] at hmark

/-- A dispatch that is started was due. -/
theorem started_due {args : StartArgs} {s : Started}
    (hx : exec (.tryStart args) c m = some (.ok s, m')) (hs : s.started = true)
    {row : EventConsumptionRecord} (hrow : m.row args.key = some row) {due : Nat}
    (hdue : row.nextRetryAt = some due) : due ≤ c.now := by
  obtain ⟨-, ⟨hnone, -⟩ | ⟨r, hr, hrefuses, -⟩⟩ := started_cases hx hs
  · cases hnone.symm.trans hrow
  · cases hr.symm.trans hrow
    simp only [Store.refuses, hdue, Bool.or_eq_false_iff, Option.any_some,
      decide_eq_false_iff_not] at hrefuses
    exact Nat.le_of_not_lt hrefuses.2

theorem Budget.waits_call (h : Budget N m₀ m t) (hx : exec o c m = some (r, m'))
    (x : String × String) : WaitsForLast x (⟨pid, o, r⟩ :: t) := by
  refine ⟨fun now hnow due hdue => ?_, h.waits x⟩
  cases o with
  | tryStart args =>
      cases r with
      | error e => cases hnow
      | ok s =>
          simp only [startedAt, Option.mem_def] at hnow
          split_ifs at hnow with hkey
          obtain ⟨rfl, hs⟩ := hkey
          obtain ⟨row, hrow, hnext⟩ := h.deferred args.key due hdue
          have htime : s.record.updatedAt = c.now := by
            obtain ⟨-, ⟨-, hrecord⟩ | ⟨r, -, -, hrecord⟩⟩ := started_cases hx hs <;> rw [hrecord] <;>
              rfl
          cases hnow
          rw [htime]
          exact started_due hx hs hrow hnext
  | _ => cases r <;> cases hnow

theorem Budget.call (h : Budget N m₀ m t) (hN : 1 ≤ N) (hj : j.allows N = true)
    (hc : j.Calls (own pid t) o) (hx : exec o c m = some (r, m')) :
    Budget N m₀ m' (⟨pid, o, r⟩ :: t) where
  unique := rowsUnique_exec hx h.unique
  counted := by
    intro x
    have hcounted := h.counted x
    rw [List.countP_cons]
    split_ifs with hs
    · have := attempts_of_starts hs hx
      omega
    · have := (rowStep hx x).attempts_le
      omega
  bounded := fun x => (rowStep hx x).attempts_bound hN (fun args heq => by
    subst heq
    exact Job.asksFor hj hc) (h.bounded x)
  tried := h.tried_call hx
  deferred := fun _ _ => h.deferred_call hc hx
  waits := h.waits_call hx

end

/-- **The attempt budget.** In every run of workers that share the maximum `N`, with any faults and
crashes: each handler and event has one row, which counts all dispatches that were started and
neither exceeds `N` nor ever decreases; a dispatch is started only when the retry its row tells of is
due, and so not before the time that the last mark has stored. -/
theorem attempts_within_budget (N : Nat) (hN : 1 ≤ N) (m : Store) (unique : m.RowsUnique)
    (fresh : ∀ x, m.attempts x ≤ N) (sched : List (Act Job Outcome))
    (shared : Meets market (sharedMaximum N) (.initial m) sched) :
    let cfg := runSched market (.initial m) sched
    cfg.state.RowsUnique ∧
    (∀ x, cfg.trace.countP (starts x) + m.attempts x ≤ cfg.state.attempts x ∧
      cfg.state.attempts x ≤ N) ∧
    (∀ x, (states market (.initial m) sched).Pairwise fun s s' => s.attempts x ≤ s'.attempts x) ∧
    (∀ args c s m', exec (.tryStart args) c cfg.state = some (.ok s, m') → s.started = true →
      ∀ row ∈ cfg.state.row args.key, ∀ due ∈ row.nextRetryAt, due ≤ c.now) ∧
    ∀ x, WaitsForLast x cfg.trace := by
  intro cfg
  have h : Budget N m cfg.state cfg.trace :=
    (runSched_rule (I := Budget N m) (Q := Job.Ended) (R := sharedMaximum N)
      (fun j _ => body_follows j) (fun _ _ _ _ _ _ _ _ h hj hc _ hx => h.call hN hj hc hx)
      sched _ (.initial unique fresh) (.initial m) shared).1
  refine ⟨h.unique, fun x => ⟨h.counted x, h.bounded x⟩, fun x => ?_, ?_, h.waits⟩
  -- no step decreases the attempts, and `≤` is transitive
  · have : IsTrans Store fun s s' => s.attempts x ≤ s'.attempts x :=
      ⟨fun _ _ _ => Nat.le_trans⟩
    rw [← List.isChain_iff_pairwise]
    refine states_chain (I := fun _ _ => True) (Q := Job.Ended) (R := sharedMaximum N)
      (fun j _ => body_follows j) ?_ (fun _ _ _ => Nat.le_refl _) sched _ trivial (.initial m) shared
    intro m t pid j o c r m' _ _ _ _ hx
    exact ⟨trivial, RowStep.attempts_le (rowStep hx x)⟩
  · exact fun args c s m' hx hs row hrow due hdue => started_due hx hs hrow hdue

/-- The webhook of the one published event does not answer, and the retry comes up. -/
def failsAndRetries : List (Act Job Outcome) :=
  .spawn webhookTick :: List.replicate 4 (goes 0) ++
    [.run 0 { fault := .refused (.other "timeout") }, .run 0 { now := 1000 }, .run 0 { now := 1000 }] ++
    List.replicate 4 (.run 0 { now := 3000 })

theorem retried_event_within_budget :
    let cfg := runSched market (.initial publishedStore) failsAndRetries
    cfg.state.RowsUnique ∧
    (∀ x, cfg.trace.countP (starts x) + publishedStore.attempts x ≤ cfg.state.attempts x ∧
      cfg.state.attempts x ≤ 10) ∧
    (∀ x, (states market (.initial publishedStore) failsAndRetries).Pairwise
      fun s s' => s.attempts x ≤ s'.attempts x) ∧
    (∀ args c s m', exec (.tryStart args) c cfg.state = some (.ok s, m') → s.started = true →
      ∀ row ∈ cfg.state.row args.key, ∀ due ∈ row.nextRetryAt, due ≤ c.now) ∧
    ∀ x, WaitsForLast x cfg.trace :=
  attempts_within_budget 10 (by decide) publishedStore (by decide) (fun _ => Nat.zero_le 10)
    failsAndRetries (by decide +kernel)

/-- The second worker claims the entry while the first one waits for the webhook. Both dispatches
fail; the backoff of the second one, until 35000, is overwritten by the shorter one of the first, and
the event is dispatched again at 33000. -/
def overlappingFailures : List (Act Job Outcome) :=
  .spawn webhookTick :: List.replicate 4 (goes 0) ++
  .spawn webhookTick :: List.replicate 2 (.run 1 { now := 30000, idle := [1] }) ++
    [.run 1 { now := 30000 }, .run 1 { fault := .refused (.other "timeout") }] ++
    List.replicate 2 (.run 1 { now := 31000 }) ++
  .run 0 { fault := .refused (.other "timeout") } :: List.replicate 2 (.run 0 { now := 31000 }) ++
  List.replicate 4 (.run 0 { now := 33000 })

theorem overlapping_failures_retried_early :
    ¬ WaitsForAll ("event:result_published", "v")
      (runSched market (.initial publishedStore) overlappingFailures).trace := by
  decide +kernel

end TrustGate.Market
