import TrustGate.Market.Picked

set_option autoImplicit false

/-! # Delivered work and the sweep

An executor delivers by storing a result, which changes no status. A sweep looks at the status and
the deadline of the tasks it lists, and at their bids, and never at the results: it spares delivered
work if there is none among the tasks it lists, and none comes in before it is done with them. -/

namespace TrustGate.Market

open Resumption

/-! ## What a sweep has before it -/

/-- The tasks that a sweep is about: the expired ones of its list. -/
def sweepList : Hist → List Task
  | ⟨.listTasks, .ok tasks⟩ :: ⟨.dateNow, .ok now⟩ :: _ => expiredAssignedTasks now tasks
  | _ :: h => sweepList h
  | [] => []

def readsBids (d : Done Op Reply) : Bool :=
  match d.op with
  | .findBids _ => true
  | _ => false

/-- The tasks that a sweep has not come to yet, or the collateral of which it is about to confiscate
now that it has read the bids. -/
def ahead : Hist → List Task
  | ⟨.findBids _, .ok _⟩ :: h => (sweepList h).drop (h.countP readsBids)
  | h => (sweepList h).drop (h.countP readsBids)

theorem sweepList_cons {d : Done Op Reply} (h : Hist) (hd : d.op ≠ .listTasks) :
    sweepList (d :: h) = sweepList h := by
  obtain ⟨o, r⟩ := d
  cases o <;> first | rfl | exact absurd rfl hd

/-- Reading the bids of a task does not end the concern with it. -/
theorem drop_subset_ahead (h : Hist) : (sweepList h).drop (h.countP readsBids) ⊆ ahead h := by
  intro task htask
  unfold ahead
  split
  · rename_i taskId bids h
    rw [sweepList_cons h (by simp), List.countP_cons_of_pos rfl] at htask
    exact List.drop_subset_drop_left _ (Nat.le_succ _) htask
  · exact htask

/-- What a sweep has before it after a call was before it already, or the call has just listed it. -/
theorem mem_ahead_cons {d : Done Op Reply} {h : Hist} {task : Task} (ht : task ∈ ahead (d :: h)) :
    task ∈ ahead h ∨ ∃ tasks now h', d = ⟨.listTasks, .ok tasks⟩ ∧
      h = ⟨.dateNow, .ok now⟩ :: h' ∧ task ∈ expiredAssignedTasks now tasks := by
  have further : task ∈ (sweepList h).drop ((d :: h).countP readsBids) → task ∈ ahead h := fun ht =>
    drop_subset_ahead h (List.drop_subset_drop_left _ (by simp [List.countP_cons]) ht)
  obtain ⟨o, r⟩ := d
  cases o with
  | findBids taskId =>
      cases r with
      | error e => exact .inl (further ht)
      | ok bids => exact .inl (drop_subset_ahead h ht)
  -- a list that is read right after the clock replaces the one before
  | listTasks =>
      have hrest : sweepList (⟨.listTasks, r⟩ :: h) = sweepList h → task ∈ ahead h := fun heq => by
        refine further ?_
        rw [← heq]
        exact ht
      match r, h with
      | .error e, h => exact .inl (hrest rfl)
      | .ok tasks, [] => exact .inl (hrest rfl)
      | .ok tasks, ⟨o, r⟩ :: h' =>
          cases o with
          | dateNow =>
              cases r with
              | ok now => exact .inr ⟨tasks, now, h', rfl, rfl, List.mem_of_mem_drop ht⟩
              | error e => exact .inl (hrest rfl)
          | _ => exact .inl (hrest rfl)
  | _ => exact .inl (further ht)

/-! ## A sweep takes its tasks in turn -/

/-- A collateral is confiscated for a task the sweep has before it, whose bids it has just read. -/
def ConfiscatesAhead (h : Hist) (o : Op) : Prop :=
  ∀ e amount, o = .confiscate e amount → ∃ task bids winner h',
    h = ⟨.findBids task.id, .ok bids⟩ :: h' ∧ task ∈ ahead h ∧ winningBid bids = some winner ∧
      winner.escrowId = e

/-- The sweep has come as far as `rest`. -/
def UpTo (rest : List Task) (h : Hist) : Prop :=
  (sweepList h).drop (h.countP readsBids) = rest

theorem UpTo.cons {rest : List Task} {h : Hist} (hu : UpTo rest h) {d : Done Op Reply}
    (hlist : d.op ≠ .listTasks) (hbids : readsBids d = false) : UpTo rest (d :: h) := by
  unfold UpTo
  rw [sweepList_cons h hlist, List.countP_cons_of_neg (by simp [hbids])]
  exact hu

theorem UpTo.append {rest : List Task} {h : Hist} (hu : UpTo rest h) {l : Hist}
    (hl : ∀ d ∈ l, d.op.emits = true) : UpTo rest (l ++ h) := by
  induction l with
  | nil => exact hu
  | cons d l ih =>
      have hd := hl d List.mem_cons_self
      refine (ih fun d hm => hl d (List.mem_cons_of_mem _ hm)).cons ?_ ?_
      · intro heq
        rw [heq] at hd
        cases hd
      · obtain ⟨o, r⟩ := d
        cases o <;> first | rfl | cases hd

theorem expireTask_ahead (cfg : Settings) {task : Task} {rest : List Task} {h : Hist}
    (hu : UpTo (task :: rest) h) :
    Ensures ConfiscatesAhead (fun h r => match r with
      | .ok _ => UpTo rest h
      | .error _ => True) (expireTask cfg task) h := by
  unfold expireTask
  rw [ensures_call_bind]
  refine ⟨nofun, ?_, fun _ => trivial⟩
  intro bids
  have hahead : task ∈ ahead (⟨.findBids task.id, .ok bids⟩ :: h) := by
    show task ∈ (sweepList h).drop (h.countP readsBids)
    rw [hu]
    exact List.mem_cons_self
  -- the bids of the first task are read, so the sweep has come to the rest
  have hnext : UpTo rest (⟨.findBids task.id, .ok bids⟩ :: h) := by
    unfold UpTo
    rw [sweepList_cons h (by simp), List.countP_cons_of_pos rfl, ← List.drop_drop, hu]
    rfl
  cases hwin : winningBid bids with
  | none => exact hnext
  | some winner =>
      dsimp only
      rw [ensures_attempt_call_bind]
      refine ⟨?_, ?_⟩
      · rintro e amount heq
        cases heq
        exact ⟨task, bids, winner, h, rfl, hahead, hwin, rfl⟩
      · rintro (e | result)
        · exact hnext.cons (by simp) rfl
        · dsimp only
          rw [ensures_call_bind]
          refine ⟨nofun, ?_, fun _ => trivial⟩
          intro _
          rw [ensures_bind]
          refine outboxEmit_calls cfg (fun l o _ hc => ?_) ?_
          · rintro e amount rfl
            cases hc.emits
          · rintro l (_ | _) hl
            · trivial
            · exact ((hnext.cons (by simp) rfl).cons (by simp) rfl).append hl

theorem expireTasks_ahead (cfg : Settings) (rest : List Task) :
    ∀ (expired : List String) (h : Hist), UpTo rest h →
      Ensures ConfiscatesAhead (fun _ _ => True) (expireTasks cfg expired rest) h := by
  induction rest with
  | nil => exact fun _ _ _ => trivial
  | cons task rest ih =>
      intro expired h hu
      unfold expireTasks
      rw [ensures_bind]
      refine (expireTask_ahead cfg hu).mono (fun _ _ hc => hc) ?_
      rintro h (e | done) hu
      · trivial
      · exact ih _ h hu

theorem runOnce_ahead (cfg : Settings) : Ensures ConfiscatesAhead (fun _ _ => True) (runOnce cfg) [] := by
  unfold runOnce
  rw [ensures_call_bind]
  refine ⟨nofun, ?_, fun _ => trivial⟩
  intro now
  rw [ensures_call_bind]
  refine ⟨nofun, ?_, fun _ => trivial⟩
  intro tasks
  exact expireTasks_ahead cfg _ _ _ rfl

theorem body_ahead (j : Job) : Follows ConfiscatesAhead (fun _ _ => True) j.body [] := by
  have others : (∀ cfg, j ≠ .runOnce cfg) → Follows ConfiscatesAhead (fun _ _ => True) j.body [] :=
    fun hj => (body_follows j).mono (fun h o hc e amount heq => by
      subst heq
      obtain ⟨⟨cfg, hrun⟩, -⟩ := Job.confiscates hc
      exact absurd hrun (hj cfg)) fun _ _ _ => trivial
  cases j with
  | runOnce cfg => exact toEnd_follows (runOnce_ahead cfg)
  | _ => exact others (by simp)

/-! ## Runs -/

/-- A result is stored for the task. -/
def Store.delivered (m : Store) (taskId : String) : Bool := (m.findResult taskId).isSome

/-- The time a sweep has just read. -/
def timeInHand : Hist → Option Nat
  | ⟨.dateNow, .ok now⟩ :: _ => some now
  | _ => none

/-- When a sweep lists the tasks, no expired one is delivered, and none is delivered while a sweep
has it before it. -/
def KeepsApart (m : Store) (t : Trace Op Reply) (pid : Nat) (o : Op) (c : Outcome) : Prop :=
  match o with
  | .listTasks => c.fault = .none → ∀ now ∈ timeInHand (own pid t),
      ∀ task ∈ expiredAssignedTasks now m.listTasks, m.delivered task.id = false
  | .upsertResult taskId _ _ => c.fault.applies = true → ∀ call ∈ t,
      ∀ task ∈ ahead (own call.pid t), task.id ≠ taskId
  | _ => True

instance (m : Store) (t : Trace Op Reply) (pid : Nat) (o : Op) (c : Outcome) :
    Decidable (KeepsApart m t pid o c) := by
  apply Op.casesOn (motive := fun o => Decidable (KeepsApart m t pid o c)) o <;> intros <;>
    unfold KeepsApart <;> infer_instance

/-- All jobs, with any faults and crashes; deliveries keep clear of the sweeps. -/
abbrev timelyDeliveries : Regime Op Reply Job Outcome Store := ⟨fun _ => True, KeepsApart, True⟩

/-- No task that a sweep has before it is delivered. -/
structure Spared (m : Store) (t : Trace Op Reply) : Prop where
  answered : Answered t
  undelivered : ∀ pid, ∀ task ∈ ahead (own pid t), m.delivered task.id = false

theorem Spared.initial (m : Store) : Spared m [] where
  answered := ⟨fun _ _ _ h => absurd h List.not_mem_nil, fun _ _ _ h => absurd h List.not_mem_nil⟩
  undelivered := fun _ _ h => absurd h List.not_mem_nil

section

variable {o : Op} {c : Outcome} {m m' : Store} {r : Reply o} {t : Trace Op Reply} {pid : Nat}

/-- A call delivers no other task than the one it stores the result of. -/
theorem delivered_exec (hx : exec o c m = some (r, m')) {taskId : String}
    (ho : ∀ payload hash, o = .upsertResult taskId payload hash → c.fault.applies = false) :
    m'.delivered taskId = m.delivered taskId := by
  have hfind : m'.findResult taskId = m.findResult taskId := by
    by_cases hstore : ∃ taskId' payload hash, o = .upsertResult taskId' payload hash
    · obtain ⟨taskId', payload, hash, rfl⟩ := hstore
      rcases exec_cases hx with ⟨-, rfl, -⟩ | ⟨hf, v, hp, -⟩
      · rfl
      · have hne : taskId ≠ taskId' := by
          rintro rfl
          exact absurd (ho payload hash rfl) (by simp [hf])
        cases hp
        unfold Store.upsertResult Store.findResult
        rw [find?_upsert fun old new => by cases m.backend <;> rfl, if_neg hne]
    · unfold Store.findResult
      rw [exec_results hx fun taskId payload hash heq => hstore ⟨taskId, payload, hash, heq⟩]
  rw [Store.delivered, Store.delivered, hfind]

/-- A sweep that has tasks before it has made a call. -/
theorem exists_call_of_ahead {task : Task} (ht : task ∈ ahead (own pid t)) :
    ∃ call ∈ t, call.pid = pid := by
  refine exists_call_of_ne_nil fun hown => ?_
  rw [hown] at ht
  cases ht

theorem Spared.call (h : Spared m t) (hcall : KeepsApart m t pid o c)
    (hx : exec o c m = some (r, m')) : Spared m' (⟨pid, o, r⟩ :: t) := by
  -- a task that was ahead of a sweep is still not delivered
  have still : ∀ p, ∀ task ∈ ahead (own p t), m'.delivered task.id = false := by
    intro p task ht
    rw [delivered_exec hx]
    · exact h.undelivered p task ht
    · rintro payload hash rfl
      rw [Bool.eq_false_iff]
      intro happlies
      obtain ⟨call, hmem, rfl⟩ := exists_call_of_ahead ht
      exact hcall happlies call hmem task ht rfl
  refine ⟨h.answered.call hx, fun p task ht => ?_⟩
  by_cases hp : pid = p
  · subst hp
    rw [own_cons_self] at ht
    rcases mem_ahead_cons ht with ht | ⟨tasks, now, h', hd, hown, hexpired⟩
    · exact still pid task ht
    · cases hd
      cases exec_ok hx
      exact hcall (fault_of_ok hx) now (by rw [hown]; rfl) task hexpired
  · rw [own_cons_ne hp] at ht
    exact still p task ht

end

/-- If the call confiscates a collateral, it is the one of the bid in hand, and no result is stored
for the task of that bid. -/
def SparesDelivered (m : Store) (h : Hist) : Op → Prop
  | .confiscate e _ => ∃ bid ∈ bidInHand h, bid.escrowId = e ∧ m.delivered bid.taskId = false
  | _ => True

instance (m : Store) (h : Hist) : DecidablePred (SparesDelivered m h) := by
  intro o
  apply Op.casesOn (motive := fun o => Decidable (SparesDelivered m h o)) o <;> intros <;>
    unfold SparesDelivered <;> infer_instance

/-- Nobody is about to confiscate the collateral for a delivered task. -/
def DeliveredSpared (cfg : Config Op Reply Job Store) : Prop :=
  ∀ pid, ∀ o ∈ cfg.pending pid, SparesDelivered cfg.state (own pid cfg.trace) o

/-- **Delivered work is never confiscated** in a run whose deliveries keep clear of the sweeps, from
any store, with any faults and crashes. -/
theorem delivered_spared (m : Store) (sched : List (Act Job Outcome))
    (timely : Meets market timelyDeliveries (.initial m) sched) :
    DeliveredSpared (runSched market (.initial m) sched) := by
  obtain ⟨h, he⟩ := runSched_rule (I := Spared) (R := timelyDeliveries)
    (P := fun _ => ConfiscatesAhead) (Q := fun _ _ => True) (fun j _ => body_ahead j)
    (fun _ _ _ _ _ _ _ _ h _ _ hcall hx => h.call hcall hx) sched _ (.initial m) (.initial m) timely
  intro pid o ho
  obtain ⟨j, -, hahead⟩ := he.issued ho
  cases o with
  | confiscate e amount =>
      obtain ⟨task, bids, winner, h', hown, ht, hwin, hescrow⟩ := hahead e amount rfl
      have hbids : (⟨.findBids task.id, .ok bids⟩ : Done Op Reply) ∈
          own pid (runSched market (.initial m) sched).trace := by
        rw [hown]
        exact List.mem_cons_self
      have htask : winner.taskId = task.id :=
        h.answered.bids pid task.id bids (mem_own.mp hbids) winner (List.mem_of_find?_eq_some hwin)
      refine ⟨winner, by rw [hown]; exact hwin, hescrow, ?_⟩
      rw [htask]
      exact h.undelivered pid task ht
  | _ => trivial

/-- The executor `E` delivers the task `t`. -/
def delivers (pid : Nat) : List (Act Job Outcome) :=
  .spawn (.publishResult { hasOutbox := false } "t" (some "E") (some .null)) ::
    List.replicate 4 (goes pid)

/-- A sweep at the time `now`, as far as the confiscation for the one expired task. -/
def sweepsUpTo (pid now : Nat) : List (Act Job Outcome) :=
  [.spawn (.runOnce { hasOutbox := false }), .run pid { now := now }, goes pid, goes pid]

theorem abandoned_task_confiscated :
    let cfg := runSched market (.initial emptyStore)
      (creates 0 "t" ++ bidsAt 1 "0.8" "b" "e" 1 ++ sweepsUpTo 2 12)
    (cfg.pending 2).isSome = true ∧ DeliveredSpared cfg :=
  ⟨by decide +kernel, delivered_spared emptyStore _ (by decide +kernel)⟩

/-- The task is delivered before the sweep, and its collateral is about to be confiscated. -/
theorem delivered_task_confiscated :
    ¬ DeliveredSpared (runSched market (.initial emptyStore)
      (creates 0 "t" ++ bidsAt 1 "0.8" "b" "e" 1 ++ delivers 2 ++ sweepsUpTo 3 12)) :=
  fun h => absurd (h 3) (by decide +kernel)

end TrustGate.Market
