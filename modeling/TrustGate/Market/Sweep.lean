import TrustGate.Market.Alone

set_option autoImplicit false

/-! # An expiry sweep by itself

`TimeoutService.runOnce` over any number of tasks, where the escrow provider rejects any set of the
confiscations: which tasks expire, what is asked of the provider, and what stays as it is. -/

namespace TrustGate.Market

open Resumption

/-- The call is a confiscation that the provider rejects. -/
def Op.rejectedBy (rejects : String → Bool) : Op → Bool
  | .confiscate escrowId _ => rejects escrowId
  | _ => false

/-- Just these confiscations fail. -/
def Rejecting (rejects : String → Bool) (o : Op) (c : Outcome) : Prop :=
  c.fault = .none ↔ o.rejectedBy rejects = false

instance (rejects : String → Bool) (o : Op) (c : Outcome) : Decidable (Rejecting rejects o c) :=
  inferInstanceAs (Decidable (_ ↔ _))

/-- The task has a winner, and its collateral can be confiscated. -/
def confiscable (rejects : String → Bool) (m : Store) (task : Task) : Bool :=
  (winningBid (m.findBids task.id)).any fun winner => !rejects winner.escrowId

/-- What a sweep asks of the provider for `task`. -/
def confiscationOf (m : Store) (task : Task) : Option (String × String) :=
  (winningBid (m.findBids task.id)).map fun winner =>
    (winner.escrowId, formatUsdcStroopsToDecimal winner.collateralStroops)

/-- The confiscations that were asked for, in order. -/
def confiscations (log : Record) : List (String × String) :=
  log.filterMap fun e => match e.op with
    | .confiscate escrowId amount => some (escrowId, amount)
    | _ => none

/-- The rows, those of the tasks `ids` expired. -/
def withExpired (ids : List String) (rows : List Task) : List Task :=
  rows.map fun task => if task.id ∈ ids then { task with status := .expired } else task

/-- The event of an expired task, as it is inserted. -/
structure IsExpiry (event : OutboxEvent) (taskId : String) : Prop where
  type : event.type = "task_expired"
  aggregateType : event.aggregateType = "task"
  aggregateId : event.aggregateId = taskId
  payload : event.payload = .obj [("taskId", .str taskId)]
  processedAt : event.processedAt = none
  attempts : event.attempts = 0

theorem confiscations_append (log log' : Record) :
    confiscations (log ++ log') = confiscations log ++ confiscations log' :=
  List.filterMap_append

section

variable {cfg : Settings} {rejects : String → Bool} {m : Store}

/-- Where the sweep has come to: it went through `past`, with these confiscations, and the store
`m` has become `m₁`. -/
structure Swept (cfg : Settings) (rejects : String → Bool) (m : Store) (past : List Task)
    (log : Record) (m₁ : Store) : Prop where
  tasks : m₁.tasks = withExpired ((past.filter (confiscable rejects m)).map Task.id) m.tasks
  outbox : ∃ events, m₁.outbox = m.outbox ++ events ∧ List.Forall₂ IsExpiry events
    (if cfg.hasOutbox then (past.filter (confiscable rejects m)).map Task.id else [])
  asked : confiscations log = past.filterMap (confiscationOf m)
  bids : m₁.bids = m.bids
  backend : m₁.backend = m.backend
  results : m₁.results = m.results
  consumptions : m₁.consumptions = m.consumptions
  stream : m₁.stream = m.stream

theorem withExpired_nil (rows : List Task) : withExpired [] rows = rows := by
  simp [withExpired]

theorem withExpired_ids (ids : List String) (rows : List Task) :
    (withExpired ids rows).map Task.id = rows.map Task.id := by
  unfold withExpired
  rw [List.map_map]
  apply List.map_congr_left
  intro task _
  simp only [Function.comp]
  split_ifs <;> rfl

/-- One more task is saved as expired. -/
theorem upsert_expired {rows : List Task} {ids : List String} {task : Task}
    (hids : (rows.map Task.id).Nodup) (htask : task ∈ rows) :
    upsert Task.id (fun _ new => new) { task with status := .expired } (withExpired ids rows) =
      withExpired (ids ++ [task.id]) rows := by
  have hkeys : ((withExpired ids rows).map Task.id).Nodup := by rwa [withExpired_ids]
  have hkey : ∃ old ∈ withExpired ids rows, old.id = task.id := by
    refine ⟨_, List.mem_map.mpr ⟨task, htask, rfl⟩, ?_⟩
    split_ifs <;> rfl
  obtain ⟨old, hold, hid⟩ := hkey
  have hupsert : upsert Task.id (fun _ new => new) { task with status := .expired }
      (withExpired ids rows) = _ := upsert_of_key hkeys hold hid
  rw [hupsert]
  unfold withExpired
  rw [List.map_map]
  apply List.map_congr_left
  intro row hrow
  simp only [Function.comp, List.mem_append, List.mem_singleton]
  by_cases hsame : row.id = task.id
  · have heq : row = task := List.inj_on_of_nodup_map hids hrow htask hsame
    subst heq
    simp
    split_ifs <;> simp
  · by_cases hpast : row.id ∈ ids <;> simp [hpast, hsame]

theorem Swept.start : Swept cfg rejects m [] [] m where
  tasks := (withExpired_nil m.tasks).symm
  outbox := ⟨[], (List.append_nil _).symm, by simp⟩
  asked := rfl
  bids := rfl
  backend := rfl
  results := rfl
  consumptions := rfl
  stream := rfl

theorem Swept.findBids {past : List Task} {log : Record} {m₁ : Store}
    (h : Swept cfg rejects m past log m₁) (taskId : String) :
    m₁.findBids taskId = m.findBids taskId := by
  unfold Store.findBids
  rw [h.bids, h.backend]

theorem Swept.asked_next {past : List Task} {log log' : Record} {m₁ : Store} {task : Task}
    (h : Swept cfg rejects m past log m₁)
    (hasked : confiscations log' = (confiscationOf m task).toList) :
    confiscations (log ++ log') = (past ++ [task]).filterMap (confiscationOf m) := by
  rw [confiscations_append, h.asked, hasked, List.filterMap_append]
  cases hof : confiscationOf m task <;> simp [hof]

/-- A task that is passed over. -/
theorem Swept.skip {past : List Task} {log log' : Record} {m₁ : Store} {task : Task}
    (h : Swept cfg rejects m past log m₁) (hno : confiscable rejects m task = false)
    (hasked : confiscations log' = (confiscationOf m task).toList) :
    Swept cfg rejects m (past ++ [task]) (log ++ log') m₁ where
  tasks := by
    rw [h.tasks]
    simp [hno]
  outbox := by
    obtain ⟨events, hevents, hall⟩ := h.outbox
    exact ⟨events, hevents, by simpa [hno] using hall⟩
  asked := h.asked_next hasked
  bids := h.bids
  backend := h.backend
  results := h.results
  consumptions := h.consumptions
  stream := h.stream

/-- What the sweep does to a task whose collateral was confiscated. -/
structure Expires (cfg : Settings) (task : Task) (m₁ m₂ : Store) : Prop where
  tasks : m₂.tasks = (m₁.saveTask { task with status := .expired }).tasks
  outbox : ∃ events, m₂.outbox = m₁.outbox ++ events ∧
    List.Forall₂ IsExpiry events (if cfg.hasOutbox then [task.id] else [])
  bids : m₂.bids = m₁.bids
  backend : m₂.backend = m₁.backend
  results : m₂.results = m₁.results
  consumptions : m₂.consumptions = m₁.consumptions
  stream : m₂.stream = m₁.stream

theorem Swept.expire {past : List Task} {log log' : Record} {m₁ m₂ : Store} {task : Task}
    (h : Swept cfg rejects m past log m₁) (hids : (m.tasks.map Task.id).Nodup)
    (htask : task ∈ m.tasks) (hyes : confiscable rejects m task = true)
    (hasked : confiscations log' = (confiscationOf m task).toList)
    (hexpires : Expires cfg task m₁ m₂) :
    Swept cfg rejects m (past ++ [task]) (log ++ log') m₂ where
  tasks := by
    rw [hexpires.tasks, Store.saveTask, h.tasks]
    simp only
    rw [upsert_expired hids htask]
    simp [hyes]
  outbox := by
    obtain ⟨events, hevents, hall⟩ := h.outbox
    obtain ⟨events', hevents', hall'⟩ := hexpires.outbox
    refine ⟨events ++ events', by rw [hevents', hevents, List.append_assoc], ?_⟩
    cases hout : cfg.hasOutbox with
    | false =>
        rw [hout] at hall hall'
        exact List.rel_append hall hall'
    | true =>
        rw [hout] at hall hall'
        have hboth := List.rel_append hall hall'
        simpa [hyes] using hboth
  asked := h.asked_next hasked
  bids := hexpires.bids.trans h.bids
  backend := hexpires.backend.trans h.backend
  results := hexpires.results.trans h.results
  consumptions := hexpires.consumptions.trans h.consumptions
  stream := hexpires.stream.trans h.stream

/-- Everything but a confiscation succeeds. -/
theorem Rejecting.calm {o : Op} {c : Outcome} (h : Rejecting rejects o c)
    (ho : ∀ escrowId amount, o ≠ .confiscate escrowId amount) : c.fault = .none := by
  refine h.mpr ?_
  cases o <;> first | rfl | exact absurd rfl (ho _ _)

/-- The event of an expired task, if there is an outbox. -/
theorem emitExpiry_solo (task : Task) (m₁ : Store) :
    Solo exec (Rejecting rejects) (outboxEmit cfg "task_expired" "task" task.id
      (.obj [("taskId", .str task.id)])) m₁ fun log r m₂ => r = .ok () ∧ confiscations log = [] ∧
        m₂.tasks = m₁.tasks ∧ (∃ events, m₂.outbox = m₁.outbox ++ events ∧
          List.Forall₂ IsExpiry events (if cfg.hasOutbox then [task.id] else [])) ∧
        m₂.bids = m₁.bids ∧ m₂.backend = m₁.backend ∧ m₂.results = m₁.results ∧
        m₂.consumptions = m₁.consumptions ∧ m₂.stream = m₁.stream := by
  unfold outboxEmit
  split_ifs with hout
  · unfold emit
    refine solo_await (fun _ h _ => h.calm (by simp)) ?_
    intro c id m₂ _ huuid
    have hframe := perform_frame huuid
    rw [solo_call]
    intro c' r m₃ hok hinsert
    obtain ⟨v, hp, rfl⟩ := exec_calm hinsert (hok.calm (by simp))
    cases hp
    refine ⟨rfl, rfl, hframe.tasks (by simp), ⟨[⟨id, "task_expired", "task", task.id,
      .obj [("taskId", .str task.id)], none, 0, none⟩], ?_, .cons ⟨rfl, rfl, rfl, rfl, rfl, rfl⟩ .nil⟩,
      hframe.bids (by simp), hframe.backend, hframe.results (by simp),
      hframe.consumptions (by simp) (by simp) (by simp), hframe.stream (by simp) (by simp) (by simp)
        (by simp)⟩
    rw [← hframe.outbox (by simp) (by simp) (by simp)]
    rfl
  · rw [solo_pure]
    exact ⟨rfl, rfl, rfl, ⟨[], (List.append_nil _).symm, .nil⟩, rfl, rfl, rfl, rfl, rfl⟩

/-- A confiscation changes nothing in the store. -/
theorem exec_confiscate {escrowId amount : String} {c : Outcome} {m₁ m₂ : Store}
    {r : Reply (.confiscate escrowId amount)}
    (h : exec (.confiscate escrowId amount) c m₁ = some (r, m₂)) : m₂ = m₁ := by
  rcases exec_cases h with ⟨-, rfl, -⟩ | ⟨-, v, hp, -⟩
  · rfl
  · cases hp
    rfl

/-- One round of the loop. -/
theorem expireTask_solo {past : List Task} {log : Record} {m₁ : Store} {task : Task}
    (h : Swept cfg rejects m past log m₁) (hids : (m.tasks.map Task.id).Nodup)
    (htask : task ∈ m.tasks) :
    Solo exec (Rejecting rejects) (expireTask cfg task) m₁ fun log' r m₂ =>
      r = .ok (confiscable rejects m task) ∧
      Swept cfg rejects m (past ++ [task]) (log ++ log') m₂ := by
  unfold expireTask
  refine solo_await (fun _ h _ => h.calm (by simp)) ?_
  rintro c bids m₂ - hp
  cases hp
  rw [h.findBids]
  cases hwin : winningBid (m.findBids task.id) with
  | none =>
      have hno : confiscable rejects m task = false := by simp [confiscable, hwin]
      rw [solo_pure, hno]
      exact ⟨rfl, h.skip hno (by simp [confiscationOf, hwin, confiscations])⟩
  | some winner =>
      have hasked : confiscationOf m task =
          some (winner.escrowId, formatUsdcStroopsToDecimal winner.collateralStroops) := by
        simp [confiscationOf, hwin]
      dsimp only
      rw [solo_attempt_call_bind]
      intro c r m₂ hok hconfiscate
      obtain rfl := exec_confiscate hconfiscate
      cases r with
      | error e =>
          have hno : confiscable rejects m task = false := by
            have hrejected : rejects winner.escrowId = true := by
              by_contra hfalse
              obtain ⟨v, -, hv⟩ := exec_calm hconfiscate (hok.mpr (Bool.eq_false_iff.mpr hfalse))
              cases hv
            simp [confiscable, hwin, hrejected]
          refine (solo_pure _).mpr ?_
          rw [hno]
          exact ⟨rfl, h.skip hno (by rw [hasked]; rfl)⟩
      | ok dispute =>
          have hyes : confiscable rejects m task = true := by
            have haccepted : rejects winner.escrowId = false := hok.mp (fault_of_ok hconfiscate)
            simp [confiscable, hwin, haccepted]
          dsimp only
          refine solo_await (fun _ h _ => h.calm (by simp)) ?_
          rintro c' _ m₃ - hp
          cases hp
          rw [solo_bind]
          refine (emitExpiry_solo task _).mono ?_
          rintro log' r m₃ ⟨rfl, hlog, htasks, houtbox, hbids, hbackend, hresults, hconsumptions, hstream⟩
          dsimp only
          rw [solo_pure, hyes]
          refine ⟨rfl, h.expire hids htask hyes ?_
            ⟨htasks, houtbox, hbids, hbackend, hresults, hconsumptions, hstream⟩⟩
          rw [hasked, List.append_nil]
          show (winner.escrowId, _) :: confiscations log' = _
          rw [hlog]
          rfl

/-- The loop. -/
theorem expireTasks_solo (hids : (m.tasks.map Task.id).Nodup) (tasks : List Task) :
    ∀ (past : List Task) (log : Record) (m₁ : Store) (expired : List String),
      Swept cfg rejects m past log m₁ → (∀ task ∈ tasks, task ∈ m.tasks) →
      Solo exec (Rejecting rejects) (expireTasks cfg expired tasks) m₁ fun log' r m₂ =>
        r = .ok (expired.reverse ++ (tasks.filter (confiscable rejects m)).map Task.id) ∧
        Swept cfg rejects m (past ++ tasks) (log ++ log') m₂ := by
  induction tasks with
  | nil =>
      intro past log m₁ expired h _
      unfold expireTasks
      rw [solo_pure]
      simpa using h
  | cons task tasks ih =>
      intro past log m₁ expired h hmem
      unfold expireTasks
      rw [solo_bind]
      refine (expireTask_solo h hids (hmem task List.mem_cons_self)).mono ?_
      rintro log₁ r m₂ ⟨rfl, h₂⟩
      refine (ih (past ++ [task]) _ m₂ _ h₂ fun t ht => hmem t (List.mem_cons_of_mem _ ht)).mono ?_
      rintro log₂ r m₃ ⟨rfl, h₃⟩
      refine ⟨?_, by simpa using h₃⟩
      cases hyes : confiscable rejects m task <;> simp [hyes]

end

/-- The sweep at time `now` is to expire the task. -/
def expires (rejects : String → Bool) (m : Store) (now : Nat) (task : Task) : Bool :=
  decide (task.status = .assigned ∧ task.deadline < now) && confiscable rejects m task

theorem rejecting_possible (rejects : String → Bool) (o : Op) (m : Store) :
    ∃ c, Rejecting rejects o c ∧ exec o c m ≠ none := by
  cases hrejected : o.rejectedBy rejects with
  | false =>
      obtain ⟨c, hcalm, hexec⟩ := exec_possible o m
      exact ⟨c, iff_of_true hcalm hrejected, hexec⟩
  | true =>
      refine ⟨{ fault := .refused (.other "") }, iff_of_false (by simp) (by simp [hrejected]), ?_⟩
      cases o <;> first | cases hrejected | simp [exec, Op.isLocal]

/-- **The sweep by itself.** A sweep comes to an end, whatever set of confiscations the provider
rejects. It expires, in the order of the repository, exactly the assigned tasks past their deadline
that have a winner whose collateral could be confiscated, with one event each; it asks exactly once
for the collateral of each assigned task past its deadline that has a winner; and it changes nothing
else. -/
theorem runOnce_correct (cfg : Settings) (rejects : String → Bool) (m : Store)
    (hids : (m.tasks.map Task.id).Nodup) :
    (∃ log r m', Runs exec (Rejecting rejects) (runOnce cfg).run m log r m') ∧
    ∀ log r m', Runs exec (Rejecting rejects) (runOnce cfg).run m log r m' →
      ∃ c rest, log = ⟨.dateNow, c, .ok c.now⟩ :: rest ∧
        let expired := m.listTasks.filter (expires rejects m c.now)
        r = .ok (expired.map Task.id) ∧
        m'.tasks = m.tasks.map (fun task =>
          if expires rejects m c.now task then { task with status := .expired } else task) ∧
        (∃ events, m'.outbox = m.outbox ++ events ∧ List.Forall₂ IsExpiry events
          (if cfg.hasOutbox then expired.map Task.id else [])) ∧
        confiscations log =
          (expiredAssignedTasks c.now m.listTasks).filterMap (confiscationOf m) ∧
        m'.bids = m.bids ∧ m'.results = m.results ∧ m'.consumptions = m.consumptions ∧
        m'.stream = m.stream := by
  refine ⟨exists_runs (rejecting_possible rejects) _ m, ?_⟩
  show Solo exec (Rejecting rejects) (runOnce cfg) m _
  unfold runOnce
  refine solo_await (fun _ h _ => h.calm (by simp)) ?_
  rintro c now m₁ - hp
  cases hp
  refine solo_await (fun _ h _ => h.calm (by simp)) ?_
  rintro c' tasks m₁ - hp
  cases hp
  have hlisted : ∀ task ∈ expiredAssignedTasks c.now m.listTasks, task ∈ m.tasks :=
    fun task htask => Store.mem_listTasks.mp (List.mem_filter.mp htask).1
  refine (expireTasks_solo hids _ [] [] m [] .start hlisted).mono ?_
  rintro log r m' ⟨rfl, hswept⟩
  rw [List.nil_append] at hswept
  have hfilter : (expiredAssignedTasks c.now m.listTasks).filter (confiscable rejects m) =
      m.listTasks.filter (expires rejects m c.now) := by
    unfold expiredAssignedTasks
    rw [List.filter_filter]
    apply List.filter_congr
    intro task _
    rw [expires, Bool.and_comm]
  have hexpired := hswept.tasks
  refine ⟨c, _, rfl, by rw [List.reverse_nil, List.nil_append, hfilter], ?_, ?_, hswept.asked,
    hswept.bids, hswept.results, hswept.consumptions, hswept.stream⟩
  · rw [hexpired, hfilter]
    unfold withExpired
    apply List.map_congr_left
    intro task htask
    have hmem : task.id ∈ (m.listTasks.filter (expires rejects m c.now)).map Task.id ↔
        expires rejects m c.now task = true := by
      rw [List.mem_map]
      constructor
      · rintro ⟨other, hother, hid⟩
        obtain ⟨hlist, hyes⟩ := List.mem_filter.mp hother
        rwa [List.inj_on_of_nodup_map hids (Store.mem_listTasks.mp hlist) htask hid] at hyes
      · intro hyes
        exact ⟨task, List.mem_filter.mpr ⟨Store.mem_listTasks.mpr htask, hyes⟩, rfl⟩
    simp only [hmem]
  · rw [← hfilter]
    exact hswept.outbox

/-- Two tasks that are overdue at time 10, each with its winner. -/
def twoOverdue : Store where
  backend := .inMemory
  tasks := [⟨"t1", "R", 100, "", 5, .assigned⟩, ⟨"t2", "R", 100, "", 6, .assigned⟩]
  bids := [⟨"b1", "t1", "E", 30, 1, "e1", .selected, 0⟩, ⟨"b2", "t2", "E", 20, 1, "e2", .selected, 1⟩]
  results := []
  outbox := []
  consumptions := []
  stream := ⟨[], 0, 0, []⟩
  issued := []

/-- The provider rejects the first confiscation, and the second task expires all the same. -/
theorem twoOverdue_swept : ∃ log r m',
    Runs exec (Rejecting fun escrowId => escrowId = "e1") (runOnce {}).run twoOverdue log r m' ∧
    r = .ok ["t2"] ∧ m'.tasks.map Task.status = [.assigned, .expired] := by
  have hreplay : replay exec [{ now := 10 }, {}, {}, { fault := .refused (.other "HTTP 500") }, {}, {},
      {}, { text := "v" }, {}] (runOnce {}).run twoOverdue = some (_, _, _) := rfl
  have hruns : Runs exec (Rejecting fun escrowId => escrowId = "e1") (runOnce {}).run twoOverdue
      _ _ _ := runs_of_replay hreplay (by decide)
  obtain ⟨c, rest, hlog, hr, htasks, -⟩ :=
    (runOnce_correct {} (fun escrowId => escrowId = "e1") twoOverdue (by decide)).2 _ _ _ hruns
  cases hlog
  exact ⟨_, _, _, hruns, hr, by rw [htasks]; rfl⟩

end TrustGate.Market
