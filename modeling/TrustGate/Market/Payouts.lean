import TrustGate.Market.Recorded

set_option autoImplicit false

/-! # An escrow is paid out once, and one way

Three guarantees about settlements, each under the condition that makes up for what the code does
not do: ask, at the moment of the external call, whether the escrow is already settled or being
settled by somebody else. -/

namespace TrustGate.Market

open Resumption

/-! ## Books of a run -/

/-- The invariant of the runs of completions, ticks and sweeps, for one kind of settlement. -/
structure Kept (S : Settling) (m : Store) (t : Trace Op Reply) : Prop where
  seen : Seen m t
  recorded : Recorded S m t
  once : ∀ e, times S e t ≤ 1

theorem Kept.initial (S : Settling) (m : Store) : Kept S m [] :=
  ⟨.initial m, .initial S m, fun _ => Nat.zero_le _⟩

/-- A call that settles an escrow succeeded. -/
theorem settled_exec {S : Settling} {o : Op} {c : Outcome} {m m' : Store} {r : Reply o} {e : String}
    (hx : exec o c m = some (r, m')) (h : S.settled ⟨o, r⟩ = some e) :
    S.escrow o = some e ∧ c.fault = .none := by
  rcases exec_cases hx with ⟨-, -, x, rfl⟩ | ⟨-, v, -, ⟨rfl, hf⟩ | ⟨x, rfl, -⟩⟩
  · cases h
  · exact ⟨h, hf⟩
  · cases h

/-- A call that settles only an escrow which is free keeps the books. -/
theorem Kept.call {S : Settling} {m m' : Store} {t : Trace Op Reply} {pid : Nat} {j : Job} {o : Op}
    {c : Outcome} {r : Reply o} (hk : Kept S m t) (hj : j.settles = true)
    (hc : j.Calls (own pid t) o) (hx : exec o c m = some (r, m'))
    (hfree : ∀ e, S.escrow o = some e → c.fault = .none → Free S m t e)
    (hkeep : ∀ row, o = .saveTask row → c.fault.applies = true →
      m.statusOf row.id = some S.final → row.status = S.final) :
    Kept S m' (⟨pid, o, r⟩ :: t) := by
  refine ⟨hk.seen.call hj hc hx, ?_, ?_⟩
  · exact hk.recorded.call hk.seen hj hc hx fun row ho hf hs => .inl (hkeep row ho hf hs)
  · intro e
    rw [times_cons]
    split_ifs with hset
    · obtain ⟨ho, hf⟩ := settled_exec hx hset
      rw [times_eq_zero ((hfree e ho hf).not_settled hk.recorded)]
    · exact hk.once e

/-! ## Sweeps only: confiscation is at most once -/

/-- A confiscation that succeeds finds the escrow free of confiscations. -/
def ConfiscatesFree (m : Store) (t : Trace Op Reply) (_ : Nat) (o : Op) (c : Outcome) : Prop :=
  match o with
  | .confiscate e _ => c.fault = .none → Free .confiscation m t e
  | _ => True

instance (m : Store) (t : Trace Op Reply) (pid : Nat) (o : Op) (c : Outcome) :
    Decidable (ConfiscatesFree m t pid o c) := by
  apply Op.casesOn (motive := fun o => Decidable (ConfiscatesFree m t pid o c)) o <;> intros <;>
    unfold ConfiscatesFree <;> infer_instance

def Job.sweeps : Job → Bool
  | .runOnce _ => true
  | _ => false

/-- Sweeps, with any faults and crashes. -/
abbrev sweeping : Regime Op Reply Job Outcome Store :=
  ⟨fun j => j.sweeps = true, ConfiscatesFree, True⟩

/-- A sweep saves nothing but expired tasks. -/
theorem Job.sweeps_status {j : Job} {h : Hist} {row : Task} (hj : j.sweeps = true)
    (hc : j.Calls h (.saveTask row)) : row.status = .expired := by
  cases Job.commits hc rfl with
  | expired => rfl
  | _ => cases hj

/-- **Confiscation is at most once** in a run of sweeps each of which finds the escrow free. -/
theorem confiscated_once (m : Store) (sched : List (Act Job Outcome))
    (free : Meets market sweeping (.initial m) sched) (e : String) :
    times .confiscation e (runSched market (.initial m) sched).trace ≤ 1 := by
  refine (runSched_rule (I := Kept .confiscation) (Q := Job.Ended) (fun j _ => body_follows j) ?_
    sched _ (.initial .confiscation m) (.initial m) free).1.once e
  intro m t pid j o c r m' hk hj hc hcall hx
  have hsettles : j.settles = true := by
    cases j <;> first | rfl | cases hj
  refine hk.call hsettles hc hx ?_ ?_
  · intro e ho hf
    cases o with
    | confiscate e' amount =>
        cases ho
        exact hcall hf
    | _ => cases ho
  · rintro row rfl - -
    exact Job.sweeps_status hj hc

theorem late_task_confiscated_once :
    times .confiscation "e" (runSched market (.initial lateStore)
      (.spawn (.runOnce {}) :: sweeps 0 ++ .spawn (.runOnce {}) :: sweeps 1)).trace ≤ 1 :=
  confiscated_once lateStore _ (by decide +kernel) "e"

/-- Both sweeps list the task before either of them expires it. -/
def overlappingSweeps : List (Act Job Outcome) :=
  [.spawn (.runOnce {}), .run 0 { now := 1 }, goes 0, .spawn (.runOnce {}), .run 1 { now := 1 },
    goes 1, goes 0, goes 0, goes 1, goes 1]

theorem overlapping_sweeps_confiscate_twice :
    ¬ times .confiscation "e" (runSched market (.initial lateStore) overlappingSweeps).trace ≤ 1 := by
  decide +kernel

/-! ## Completions and ticks: release is at most once -/

/-- A release that succeeds finds the escrow free of releases, and `COMPLETING` is not saved over
`COMPLETED`. -/
def ReleasesFree (m : Store) (t : Trace Op Reply) (_ : Nat) (o : Op) (c : Outcome) : Prop :=
  match o with
  | .releaseMilestone e => c.fault = .none → Free .release m t e
  | .saveTask row =>
      c.fault.applies → row.status = .completing → m.statusOf row.id ≠ some .completed
  | _ => True

instance (m : Store) (t : Trace Op Reply) (pid : Nat) (o : Op) (c : Outcome) :
    Decidable (ReleasesFree m t pid o c) := by
  apply Op.casesOn (motive := fun o => Decidable (ReleasesFree m t pid o c)) o <;> intros <;>
    unfold ReleasesFree <;> infer_instance

def Job.completes : Job → Bool
  | .complete _ _ _ => true
  | .tick _ _ => true
  | _ => false

/-- Completion requests and workers, with any faults and crashes. -/
abbrev completing : Regime Op Reply Job Outcome Store :=
  ⟨fun j => j.completes = true, ReleasesFree, True⟩

/-- Completions and ticks save nothing but completing and completed tasks. -/
theorem Job.completes_status {j : Job} {h : Hist} {row : Task} (hj : j.completes = true)
    (hc : j.Calls h (.saveTask row)) : row.status = .completing ∨ row.status = .completed := by
  cases Job.commits hc rfl with
  | completed => exact .inr rfl
  | completing => exact .inl rfl
  | handlerCompleted => exact .inr rfl
  | _ => cases hj

/-- **Release is at most once** in a run of completions and workers that find the escrow free. -/
theorem released_once (m : Store) (sched : List (Act Job Outcome))
    (free : Meets market completing (.initial m) sched) (e : String) :
    times .release e (runSched market (.initial m) sched).trace ≤ 1 := by
  refine (runSched_rule (I := Kept .release) (Q := Job.Ended) (fun j _ => body_follows j) ?_
    sched _ (.initial .release m) (.initial m) free).1.once e
  intro m t pid j o c r m' hk hj hc hcall hx
  have hsettles : j.settles = true := by
    cases j <;> first | rfl | cases hj
  refine hk.call hsettles hc hx ?_ ?_
  · intro e ho hf
    cases o with
    | releaseMilestone e' =>
        cases ho
        exact hcall hf
    | _ => cases ho
  · rintro row rfl happ hstatus
    rcases Job.completes_status hj hc with hcompleting | hcompleted
    · exact absurd hstatus (hcall happ hcompleting)
    · exact hcompleted

/-- The task of `lateStore` with its completion requested: the event is in the stream. -/
def completingStore : Store where
  backend := .postgres
  tasks := [{ lateTask with status := .completing }]
  bids := lateStore.bids
  results := []
  outbox := []
  consumptions := []
  stream := {
    entries := [⟨1, "v", "task_completion_requested", "task", "t",
      .obj [("taskId", .str "t"), ("escrowId", .str "e")]⟩]
    lastId := 1
    lastDelivered := 0
    pending := [] }
  issued := ["t", "b", "v"]

/-- A tick of the worker `pid`, from a look at the outbox to the release of the escrow. -/
def releases (pid : Nat) : List (Act Job Outcome) :=
  [.spawn (.tick {} 0), goes pid, .run pid { idle := [1] }, goes pid, goes pid, goes pid, goes pid]

theorem completing_task_released_once :
    times .release "e" (runSched market (.initial completingStore)
      (releases 0 ++ [goes 0, goes 0])).trace ≤ 1 :=
  released_once completingStore _ (by decide +kernel) "e"

/-- A worker crashes after the release; another one claims the entry and starts over. -/
theorem crashed_worker_releases_twice :
    ¬ times .release "e" (runSched market (.initial completingStore)
      (releases 0 ++ goes 0 :: .crash 0 :: releases 1)).trace ≤ 1 := by
  decide +kernel

/-! ## All three: release and confiscation agree -/

/-- An escrow that is released is free of confiscations and one that is confiscated free of
releases, and `COMPLETING` is not saved over a final status. -/
def SettlesFree (m : Store) (t : Trace Op Reply) (_ : Nat) (o : Op) (c : Outcome) : Prop :=
  match o with
  | .releaseMilestone e => c.fault = .none → Free .confiscation m t e
  | .confiscate e _ => c.fault = .none → Free .release m t e
  | .saveTask row =>
      c.fault.applies → row.status = .completing →
        m.statusOf row.id ≠ some .completed ∧ m.statusOf row.id ≠ some .expired
  | _ => True

instance (m : Store) (t : Trace Op Reply) (pid : Nat) (o : Op) (c : Outcome) :
    Decidable (SettlesFree m t pid o c) := by
  apply Op.casesOn (motive := fun o => Decidable (SettlesFree m t pid o c)) o <;> intros <;>
    unfold SettlesFree <;> infer_instance

/-- Completion requests, workers and sweeps, with any faults and crashes. -/
abbrev settling : Regime Op Reply Job Outcome Store :=
  ⟨fun j => j.settles = true, SettlesFree, True⟩

structure OneWay (m : Store) (t : Trace Op Reply) : Prop where
  seen : Seen m t
  released : Recorded .release m t
  confiscated : Recorded .confiscation m t
  apart : ∀ e, ¬ (Settled .release e t ∧ Settled .confiscation e t)

theorem OneWay.initial (m : Store) : OneWay m [] :=
  ⟨.initial m, .initial _ m, .initial _ m, fun _ ⟨⟨_, hc, _⟩, _⟩ => nomatch hc⟩

theorem settled_cons {S : Settling} {e : String} {c : Call Op Reply} {t : Trace Op Reply}
    (h : Settled S e (c :: t)) : S.settled ⟨c.op, c.reply⟩ = some e ∨ Settled S e t := by
  obtain ⟨c', hc', hset⟩ := h
  rcases List.mem_cons.mp hc' with rfl | hc'
  · exact .inl hset
  · exact .inr ⟨c', hc', hset⟩

/-- A save over the record of one kind of settlement does not happen: the escrow would be settled
both ways. -/
theorem OneWay.keeps {m : Store} {t : Trace Op Reply} {pid : Nat} {j : Job} {row : Task}
    {c : Outcome} (h : OneWay m t) (hj : j.settles = true) (hc : j.Calls (own pid t) (.saveTask row))
    (hcall : SettlesFree m t pid (.saveTask row) c) (S : Settling) (hf : c.fault.applies = true)
    (hstatus : m.statusOf row.id = some S.final) :
    row.status = S.final ∨ ∀ e, m.stake row.id = some e → ¬ Settled S e t := by
  rcases Job.savesSettled hj hc with ⟨hcompleting, -⟩ | ⟨S', e', hset⟩
  · obtain ⟨hne, hne'⟩ := hcall hf hcompleting
    cases S with
    | release => exact absurd hstatus hne
    | confiscation => exact absurd hstatus hne'
  · obtain ⟨hstake, hsettled⟩ := hset.stake h.seen
    by_cases heq : S' = S
    · exact .inl (heq ▸ hset.status)
    · refine .inr fun e he hsettled' => ?_
      rw [hstake, Option.some.injEq] at he
      subst he
      cases S <;> cases S' <;> first
        | exact absurd rfl heq
        | exact h.apart e' ⟨hsettled', hsettled⟩
        | exact h.apart e' ⟨hsettled, hsettled'⟩

theorem OneWay.call {m m' : Store} {t : Trace Op Reply} {pid : Nat} {j : Job} {o : Op} {c : Outcome}
    {r : Reply o} (h : OneWay m t) (hj : j.settles = true) (hc : j.Calls (own pid t) o)
    (hcall : SettlesFree m t pid o c) (hx : exec o c m = some (r, m')) :
    OneWay m' (⟨pid, o, r⟩ :: t) := by
  refine ⟨h.seen.call hj hc hx, ?_, ?_, ?_⟩
  · refine h.released.call h.seen hj hc hx ?_
    rintro row rfl hf hstatus
    exact h.keeps hj hc hcall .release hf hstatus
  · refine h.confiscated.call h.seen hj hc hx ?_
    rintro row rfl hf hstatus
    exact h.keeps hj hc hcall .confiscation hf hstatus
  · rintro e ⟨hrel, hcon⟩
    -- one call settles in one way, so the other settlement is an earlier one
    rcases settled_cons hrel with hr | hr <;> rcases settled_cons hcon with hcn | hcn
    · exact nomatch (Settling.settled_unique hr hcn).1
    · obtain ⟨ho, hf⟩ := settled_exec hx hr
      cases o with
      | releaseMilestone e' =>
          cases ho
          exact (hcall hf).not_settled h.confiscated hcn
      | _ => cases ho
    · obtain ⟨ho, hf⟩ := settled_exec hx hcn
      cases o with
      | confiscate e' amount =>
          cases ho
          exact (hcall hf).not_settled h.released hr
      | _ => cases ho
    · exact h.apart e ⟨hr, hcn⟩

/-- **No escrow is both released and confiscated** in a run whose settlements find the escrow
free of the other kind. -/
theorem settled_one_way (m : Store) (sched : List (Act Job Outcome))
    (free : Meets market settling (.initial m) sched) (e : String) :
    times .release e (runSched market (.initial m) sched).trace = 0 ∨
      times .confiscation e (runSched market (.initial m) sched).trace = 0 := by
  have h := (runSched_rule (I := OneWay) (Q := Job.Ended) (fun j _ => body_follows j)
    (fun _ _ _ _ _ _ _ _ h hj hc hcall hx => h.call hj hc hcall hx)
    sched _ (.initial m) (.initial m) free).1.apart e
  rcases not_and_or.mp h with hr | hcn
  · exact .inl (times_eq_zero hr)
  · exact .inr (times_eq_zero hcn)

/-- A completion without an outbox, which releases the escrow itself. -/
def completeAtOnce : Job := .complete { hasOutbox := false } "t" (.ok ⟨"R", ""⟩)

theorem late_task_settled_one_way :
    let t := (runSched market (.initial lateStore)
      (.spawn (.runOnce {}) :: sweeps 0 ++ [.spawn completeAtOnce, goes 1])).trace
    times .release "e" t = 0 ∨ times .confiscation "e" t = 0 :=
  settled_one_way lateStore _ (by decide +kernel) "e"

/-- The completion reads the task and its bids, the sweep confiscates, the completion releases. -/
theorem late_task_settled_both_ways :
    let t := (runSched market (.initial lateStore)
      (.spawn completeAtOnce :: goes 0 :: goes 0 :: .spawn (.runOnce {}) :: sweeps 1 ++
        [goes 0])).trace
    ¬ (times .release "e" t = 0 ∨ times .confiscation "e" t = 0) := by
  decide +kernel

end TrustGate.Market
