import TrustGate.Market.Requested

set_option autoImplicit false

/-! # Every task is the one that was asked for

A task comes into being at one point only: a listing request saves it under the UUID it has just
drawn. Whatever is written back later, by whichever process and from however old a copy, the stored
task is what that request asked for, and on a local network the request has paid for it. So there
are no more tasks than paid fees, in any run. -/

namespace TrustGate.Market

open Resumption

/-! ## Listing requests -/

/-- The body asks for the task. -/
structure CreateTaskBody.Wants (b : CreateTaskBody) (task : Task) : Prop where
  requester : task.requesterPublicKey = b.requester
  reserve : parseUsdcDecimalToStroops b.reservePrice = .ok task.reservePriceStroops
  description : task.description = b.description
  deadline : task.deadline = b.deadline

/-- The job has come to the point where it saves the new task `row`. On a local network it has
proved to be the requester, and the fee was charged. -/
inductive Lists : Job → Hist → Task → Prop
  | charged (cfg : Settings) (b : CreateTaskBody) (row : Task) (wants : b.Wants row)
      (owner : cfg.publicKeyOf b.secret = some b.requester) :
      Lists (.createTask cfg (.ok b)) [⟨.randomUUID, .ok row.id⟩,
        ⟨.chargeListingFee row.requesterPublicKey row.reservePriceStroops, .ok ()⟩] row
  | gated (cfg : Settings) (b : CreateTaskBody) (row : Task) (wants : b.Wants row) :
      Lists (.createPaid cfg (.ok b)) [⟨.randomUUID, .ok row.id⟩] row

/-- A job has saved no task when it lists its own. -/
theorem Lists.first {j : Job} {h : Hist} {row : Task} (hl : Lists j h row) :
    ∀ d ∈ h, ∀ task, d.op ≠ .saveTask task := by
  cases hl <;> simp

/-- An open task that the job saves is one that it lists. -/
def OpensListed (j : Job) (h : Hist) (o : Op) : Prop :=
  ∀ row, o = .saveTask row → row.status = .open → Lists j h row

theorem opensListed_of_ne {j : Job} {h : Hist} {o : Op} (ho : ∀ row, o ≠ .saveTask row) :
    OpensListed j h o :=
  fun row heq => absurd heq (ho row)

theorem EmitCall.opensListed {j : Job} {h h' : Hist} {o : Op} (hc : EmitCall h' o) :
    OpensListed j h o := by
  cases hc <;> exact opensListed_of_ne (by simp)

theorem saveAndPublish_lists {j : Job} {requester reservePrice description : String}
    {deadline : Nat} {h : Hist} (cfg : Settings)
    (hlists : ∀ id reservePriceStroops,
      parseUsdcDecimalToStroops reservePrice = .ok reservePriceStroops →
      Lists j (⟨.randomUUID, .ok id⟩ :: h)
        ⟨id, requester, reservePriceStroops, description, deadline, .open⟩) :
    Ensures (OpensListed j) (fun _ _ => True)
      (saveAndPublish cfg requester reservePrice description deadline) h := by
  unfold saveAndPublish
  cases hparse : parseUsdcDecimalToStroops reservePrice with
  | error e => trivial
  | ok reservePriceStroops =>
      dsimp only
      rw [ensures_call_bind]
      refine ⟨opensListed_of_ne (by simp), ?_, fun _ => trivial⟩
      intro id
      rw [ensures_call_bind]
      refine ⟨?_, ?_, fun _ => trivial⟩
      · rintro row heq -
        cases heq
        exact hlists id reservePriceStroops hparse
      intro _
      rw [ensures_attempt_call_bind]
      refine ⟨opensListed_of_ne (by simp), ?_⟩
      intro _
      rw [ensures_bind]
      refine outboxEmit_calls cfg (fun l o _ hc => hc.opensListed) ?_
      rintro l (_ | _) _ <;> trivial

theorem createTask_lists (cfg : Settings) (body : Parsed CreateTaskBody) :
    Ensures (OpensListed (.createTask cfg body)) (fun _ _ => True) (createTask cfg body) [] := by
  unfold createTask
  split_ifs
  · trivial
  cases body with
  | error detail => trivial
  | ok b =>
      dsimp only
      cases hparse : parseUsdcDecimalToStroops b.reservePrice with
      | error e => trivial
      | ok reservePriceStroops =>
          cases hkey : cfg.publicKeyOf b.secret with
          | none => trivial
          | some key =>
              dsimp only
              split_ifs with hother
              · trivial
              rw [ne_eq, not_not] at hother
              subst hother
              rw [ensures_attempt_call_bind]
              refine ⟨opensListed_of_ne (by simp), ?_⟩
              rintro (e | _)
              · cases e <;> trivial
              · dsimp only
                rw [ensures_bind]
                refine (saveAndPublish_lists cfg fun id stroops hp => ?_).mono
                  (fun _ _ hc => hc) ?_
                · -- the price is parsed twice, to the same end
                  cases hparse.symm.trans hp
                  exact .charged cfg b ⟨id, b.requester, _, b.description, b.deadline, .open⟩
                    ⟨rfl, hparse, rfl, rfl⟩ hkey
                · rintro _ (_ | _) _ <;> trivial

theorem createPaid_lists (cfg : Settings) (body : Parsed CreateTaskBody) :
    Ensures (OpensListed (.createPaid cfg body)) (fun _ _ => True) (createPaid cfg body) [] := by
  unfold createPaid
  split_ifs
  · trivial
  cases body with
  | error detail => trivial
  | ok b =>
      dsimp only
      rw [ensures_bind]
      refine (saveAndPublish_lists cfg fun id stroops hp => ?_).mono (fun _ _ hc => hc) ?_
      · exact .gated cfg b ⟨id, b.requester, stroops, b.description, b.deadline, .open⟩
          ⟨rfl, hp, rfl, rfl⟩
      · rintro _ (_ | _) _ <;> trivial

/-- On a local network a task is saved once its fee was charged. -/
theorem createTask_charged (cfg : Settings) (body : Parsed CreateTaskBody) :
    Ensures (fun h o => ∀ row, o = .saveTask row →
        ⟨.chargeListingFee row.requesterPublicKey row.reservePriceStroops, .ok ()⟩ ∈ h)
      (fun _ _ => True) (createTask cfg body) [] := by
  refine Follows.mono ?_ (fun _ _ _ => trivial)
    (Follows.and (createTask_calls cfg body) (createTask_lists cfg body))
  rintro h o ⟨hcall, hlists⟩ row rfl
  have opened : row.status = .open := by
    cases hcall with
    | save _ _ opened => exact opened
    | emits _ _ emit => cases emit
  cases hlists row rfl opened with
  | charged b wants owner => exact List.mem_cons_of_mem _ List.mem_cons_self

/-- Of the other jobs, none saves an open task. -/
theorem Job.opensListed {j : Job} {h : Hist} {o : Op} (hc : j.Calls h o)
    (hj : ∀ cfg body, j ≠ .createTask cfg body) (hj' : ∀ cfg body, j ≠ .createPaid cfg body) :
    OpensListed j h o := by
  rintro row rfl hopen
  cases Job.commits hc rfl with
  | createTask cfg body => exact absurd rfl (hj cfg body)
  | createPaid cfg body => exact absurd rfl (hj' cfg body)
  | select cfg taskId h o call => cases call; cases hopen
  | bidSelect cfg b h o call => cases call; cases hopen
  | completed | completing | expired | handlerCompleted => cases hopen

def Job.Opens (j : Job) (h : Hist) (o : Op) : Prop := j.Calls h o ∧ OpensListed j h o

theorem body_opens (j : Job) : Follows j.Opens (fun h _ => j.Ended h) j.body [] := by
  have hopens : Follows (OpensListed j) (fun _ _ => True) j.body [] := by
    by_cases hj : ∃ cfg body, j = .createTask cfg body
    · obtain ⟨cfg, body, rfl⟩ := hj
      exact toEnd_follows (createTask_lists cfg body)
    by_cases hj' : ∃ cfg body, j = .createPaid cfg body
    · obtain ⟨cfg, body, rfl⟩ := hj'
      exact toEnd_follows (createPaid_lists cfg body)
    exact (body_follows j).mono (fun _ _ hc => Job.opensListed hc
      (fun cfg body heq => hj ⟨cfg, body, heq⟩) fun cfg body heq => hj' ⟨cfg, body, heq⟩)
      fun _ _ _ => trivial
  exact ((body_follows j).and hopens).mono (fun _ _ hp => hp) fun _ _ hq => hq.1

/-! ## Runs -/

/-- The process `pid` has listed the task, which had another status then. -/
def ListedBy (jobs : Nat → Option Job) (t : Trace Op Reply) (pid : Nat) (task : Task) : Prop :=
  ∃ j earlier r, jobs pid = some j ∧ ⟨pid, .saveTask task.asCreated, r⟩ :: earlier <:+ t ∧
    Lists j (own pid earlier) task.asCreated

theorem ListedBy.mono {jobs jobs' : Nat → Option Job} {t t' : Trace Op Reply} {pid : Nat}
    {task : Task} (hjobs : ∀ pid j, jobs pid = some j → jobs' pid = some j) (ht : t <:+ t')
    (h : ListedBy jobs t pid task) : ListedBy jobs' t' pid task := by
  obtain ⟨j, earlier, r, hj, hs, hl⟩ := h
  exact ⟨j, earlier, r, hjobs pid j hj, hs.trans ht, hl⟩

/-- A process lists one task. -/
theorem ListedBy.unique {jobs : Nat → Option Job} {t : Trace Op Reply} {pid : Nat} {a b : Task}
    (ha : ListedBy jobs t pid a) (hb : ListedBy jobs t pid b) : a.asCreated = b.asCreated := by
  obtain ⟨ja, earlier, r, -, hs, hl⟩ := ha
  obtain ⟨jb, earlier', r', -, hs', hl'⟩ := hb
  rcases suffix_cons_cases hs hs' with ⟨heq, -⟩ | hlater | hlater
  · exact Op.saveTask.inj (congrArg Call.op heq)
  -- what was done before the listing holds no save
  · exact absurd rfl
      (hl'.first ⟨_, r⟩ (mem_own.mpr (hlater.subset List.mem_cons_self)) a.asCreated)
  · exact absurd rfl
      (hl.first ⟨_, r'⟩ (mem_own.mpr (hlater.subset List.mem_cons_self)) b.asCreated)

/-- Every copy of a task was listed by somebody, and ids are distinct. -/
structure Listed (jobs : Nat → Option Job) (m : Store) (t : Trace Op Reply) : Prop where
  sound : Sound m t
  distinct : (m.tasks.map Task.id).Nodup
  copies : ∀ task ∈ taskCopies m t, ∃ pid, ListedBy jobs t pid task

theorem Listed.initial {jobs : Nat → Option Job} {m : Store} (tasks : m.tasks = [])
    (bids : m.bids = []) : Listed jobs m [] where
  sound := .initial tasks bids
  distinct := by simp [tasks]
  copies := by
    rintro task (ht | ⟨c, hc, -⟩)
    · simp [tasks] at ht
    · cases hc

section

variable {jobs jobs' : Nat → Option Job} {o : Op} {c : Outcome} {m m' : Store} {r : Reply o}
  {t : Trace Op Reply} {pid : Nat} {j : Job}

theorem Listed.more (hjobs : ∀ pid j, jobs pid = some j → jobs' pid = some j)
    (h : Listed jobs m t) : Listed jobs' m t := by
  refine ⟨h.sound, h.distinct, fun task ht => ?_⟩
  obtain ⟨pid, hl⟩ := h.copies task ht
  exact ⟨pid, hl.mono hjobs List.suffix_rfl⟩

theorem distinct_exec (hx : exec o c m = some (r, m')) (h : (m.tasks.map Task.id).Nodup) :
    (m'.tasks.map Task.id).Nodup := by
  by_cases ho : ∃ row, o = .saveTask row
  · obtain ⟨row, rfl⟩ := ho
    rcases exec_saveTask hx with ⟨-, rfl⟩ | ⟨-, rfl⟩
    · exact h
    · exact nodup_upsert (fun _ _ => rfl) row h
  · rw [exec_tasks hx fun row heq => ho ⟨row, heq⟩]
    exact h

theorem Listed.call (h : Listed jobs m t) (hjob : jobs pid = some j)
    (ho : j.Opens (own pid t) o) (hx : exec o c m = some (r, m')) :
    Listed jobs m' (⟨pid, o, r⟩ :: t) := by
  obtain ⟨hc, hlists⟩ := ho
  have hgrown : t <:+ ⟨pid, o, r⟩ :: t := List.suffix_cons _ _
  refine ⟨h.sound.call hc hx, distinct_exec hx h.distinct, fun task ht => ?_⟩
  have htwin : (∃ old ∈ taskCopies m t, old.asCreated = task.asCreated) ∨
      o = .saveTask task ∧ task.status = .open := by
    rcases taskCopies_call hx ht with hold | rfl
    · exact .inl ⟨task, hold, rfl⟩
    · rcases Job.saves hc with ⟨hopen, -⟩ | hback
      · exact .inr ⟨rfl, hopen⟩
      · obtain ⟨old, hold, -, heq⟩ := hback.copy (m := m)
        exact .inl ⟨old, hold, heq⟩
  rcases htwin with ⟨old, hold, heq⟩ | ⟨rfl, hopen⟩
  · obtain ⟨p, hl⟩ := h.copies old hold
    refine ⟨p, ?_⟩
    unfold ListedBy
    rw [← heq]
    exact hl.mono (fun _ _ hj => hj) hgrown
  · have hcreated : task.asCreated = task := by rw [Task.asCreated, ← hopen]
    refine ⟨pid, j, t, r, hjob, ?_, ?_⟩
    · rw [hcreated]
    · rw [hcreated]
      exact hlists task rfl hopen

end

theorem listed_run (m : Store) (tasks : m.tasks = []) (bids : m.bids = [])
    (sched : List (Act Job Outcome)) :
    Listed (runSched market (.initial m) sched).jobOf (runSched market (.initial m) sched).state
      (runSched market (.initial m) sched).trace :=
  (runSched_authored (I := Listed) (Q := Job.Ended) (R := .any) (fun j _ => body_opens j)
    (fun _ _ _ _ hjobs h => h.more hjobs)
    (fun _ _ _ _ _ _ _ _ _ h hjob _ ho _ hx => h.call hjob ho hx) sched _
    (.initial tasks bids) (.initial m) (meets_any _ sched _)).1

/-! ## Fees -/

/-- The call has charged the fee for a listing of `requester` at this reserve price. -/
def feePaid (requester : String) (reservePriceStroops : Nat) (d : Done Op Reply) : Bool :=
  match d.op, d.reply with
  | .chargeListingFee payer stroops, .ok _ => payer = requester && stroops = reservePriceStroops
  | _, _ => false

/-- The fee was charged to the process that listed the task, if it is one on a local network. -/
theorem ListedBy.paid {jobs : Nat → Option Job} {t : Trace Op Reply} {pid : Nat} {task : Task}
    (h : ListedBy jobs t pid task) (hlocal : ∀ cfg body, jobs pid ≠ some (.createPaid cfg body)) :
    ⟨pid, .chargeListingFee task.requesterPublicKey task.reservePriceStroops, .ok ()⟩ ∈ t := by
  obtain ⟨j, earlier, r, hj, hs, hl⟩ := h
  cases hown : own pid earlier with
  | nil => rw [hown] at hl; cases hl
  | cons d h =>
      rw [hown] at hl
      cases hl with
      | charged cfg b row wants owner =>
          have hcharge : (⟨.chargeListingFee task.requesterPublicKey task.reservePriceStroops,
              .ok ()⟩ : Done Op Reply) ∈ own pid earlier := by
            rw [hown]
            exact List.mem_cons_of_mem _ List.mem_cons_self
          exact hs.subset (List.mem_cons_of_mem _ (mem_own.mp hcharge))
      | gated cfg b row wants => exact absurd hj (hlocal cfg _)

/-- No task disappears, and of none anything but the status changes. -/
def Store.KeepsTasks (m m' : Store) : Prop :=
  ∀ task ∈ m.tasks, ∃ row ∈ m'.tasks, row.asCreated = task.asCreated

instance : IsTrans Store Store.KeepsTasks :=
  ⟨fun _ _ _ hab hbc task ht => by
    obtain ⟨row, hrow, heq⟩ := hab task ht
    obtain ⟨last, hlast, heq'⟩ := hbc row hrow
    exact ⟨last, hlast, heq'.trans heq⟩⟩

theorem Sound.keepsTasks {m m' : Store} {t : Trace Op Reply} {pid : Nat} {j : Job} {o : Op}
    {c : Outcome} {r : Reply o} (h : Sound m t) (hc : j.Calls (own pid t) o)
    (hx : exec o c m = some (r, m')) : m.KeepsTasks m' := by
  intro task ht
  obtain ⟨row, hrow, hid⟩ := exists_task_exec hx ht
  refine ⟨row, hrow, ?_⟩
  rcases task_twin hc hx (.inl hrow) with ⟨old, hold, hid', heq⟩ | ⟨-, hheld⟩
  · exact heq.symm.trans (h.task_eq hold (.inl ht) (hid'.trans hid))
  · exact absurd hid.symm (h.identified.taskCopies_ne hheld (.inl ht))

/-- Tasks with distinct authors who did something each are at most as many as the calls that did
it. -/
theorem countP_le_of_authors {tasks : List Task} {t : Trace Op Reply} {author : Task → Nat}
    {p : Task → Bool} {q : Call Op Reply → Bool} (hdistinct : (tasks.map Task.id).Nodup)
    (hinj : Set.InjOn author {task | task ∈ tasks})
    (hdone : ∀ task ∈ tasks, p task = true → ∃ c ∈ t, c.pid = author task ∧ q c = true) :
    tasks.countP p ≤ t.countP q := by
  have hpids : ((tasks.filter p).map author).Nodup := by
    refine List.Nodup.map_on ?_ (hdistinct.of_map.filter p)
    exact fun a ha b hb heq => hinj (List.mem_of_mem_filter ha) (List.mem_of_mem_filter hb) heq
  have hsub : (tasks.filter p).map author ⊆ (t.filter q).map Call.pid := by
    intro pid hpid
    obtain ⟨task, htask, rfl⟩ := List.mem_map.mp hpid
    obtain ⟨c, hc, heq, hq⟩ :=
      hdone task (List.mem_of_mem_filter htask) (List.mem_filter.mp htask).2
    exact List.mem_map.mpr ⟨c, List.mem_filter.mpr ⟨hc, hq⟩, heq⟩
  have hlength := (hpids.subperm hsub).length_le
  rwa [List.length_map, List.length_map, ← List.countP_eq_length_filter,
    ← List.countP_eq_length_filter] at hlength

/-- **Every task is the one that was asked for**, from empty tables, whatever runs, fails or
crashes. Stored tasks have distinct ids, and each was listed by a process of its own: a request
whose body asks for just this task, and which on a local network has proved to be the requester
and has paid the fee. So on a local network there are at most as many tasks of a requester at a
price as fees were charged to it at that price. From one state to the next no task disappears,
and nothing but its status changes. -/
theorem tasks_as_listed (m : Store) (tasks : m.tasks = []) (bids : m.bids = [])
    (sched : List (Act Job Outcome)) :
    let cfg := runSched market (.initial m) sched
    (cfg.state.tasks.map Task.id).Nodup ∧
    (∃ author : Task → Nat, Set.InjOn author {task | task ∈ cfg.state.tasks} ∧
      ∀ task ∈ cfg.state.tasks, ListedBy cfg.jobOf cfg.trace (author task) task) ∧
    ((∀ pid s body, cfg.jobOf pid ≠ some (.createPaid s body)) →
      ∀ requester stroops,
        (cfg.state.tasks.countP fun task =>
          task.requesterPublicKey = requester ∧ task.reservePriceStroops = stroops) ≤
        cfg.trace.countP fun c => feePaid requester stroops ⟨c.op, c.reply⟩) ∧
    (states market (.initial m) sched).Pairwise Store.KeepsTasks := by
  intro cfg
  have h : Listed cfg.jobOf cfg.state cfg.trace := listed_run m tasks bids sched
  have hlisted : ∀ task, ∃ pid, task ∈ cfg.state.tasks → ListedBy cfg.jobOf cfg.trace pid task := by
    intro task
    by_cases ht : task ∈ cfg.state.tasks
    · obtain ⟨pid, hl⟩ := h.copies task (.inl ht)
      exact ⟨pid, fun _ => hl⟩
    · exact ⟨0, fun hmem => absurd hmem ht⟩
  choose author hauthor using hlisted
  have hinj : Set.InjOn author {task | task ∈ cfg.state.tasks} := by
    intro a ha b hb heq
    have hcreated : a.asCreated = b.asCreated := by
      refine (hauthor a ha).unique (b := b) ?_
      rw [heq]
      exact hauthor b hb
    have hid : a.asCreated.id = b.asCreated.id := by rw [hcreated]
    exact List.inj_on_of_nodup_map h.distinct ha hb hid
  refine ⟨h.distinct, ⟨author, hinj, hauthor⟩, fun hlocal requester stroops => ?_, ?_⟩
  · refine countP_le_of_authors h.distinct hinj fun task ht hp => ?_
    obtain ⟨rfl, rfl⟩ := of_decide_eq_true hp
    exact ⟨_, (hauthor task ht).paid fun s body => hlocal _ s body, rfl, by simp [feePaid]⟩
  · rw [← List.isChain_iff_pairwise]
    refine states_chain (I := Sound) (Q := Job.Ended) (R := .any) (fun j _ => body_follows j) ?_ ?_
      sched _ (.initial tasks bids) (.initial m) (meets_any _ sched _)
    · exact fun m t pid j o c r m' hs _ hc _ hx => ⟨hs.call hc hx, hs.keepsTasks hc hx⟩
    · exact fun m t _ task ht => ⟨task, ht, rfl⟩

/-! ## Two listings on a local network -/

/-- Two tasks are listed side by side; the requester can pay for the first one only. -/
def listsTwice : List (Act Job Outcome) :=
  let cfg : Settings := { hasOutbox := false, networkLocal := true, publicKeyOf := some }
  [.spawn (.createTask cfg (.ok ⟨"R", "1", "first", 10, "R"⟩)),
    .spawn (.createTask cfg (.ok ⟨"R", "1", "second", 10, "R"⟩)), goes 0,
    .run 1 { fault := .refused (.insufficientBalance "no balance") }, .run 0 { text := "t" },
    goes 1, goes 0, goes 0]

theorem listsTwice_listed_once :
    let cfg := runSched market (.initial emptyStore) listsTwice
    cfg.state.tasks.map Task.description = ["first"] ∧
    (cfg.state.tasks.map Task.id).Nodup ∧
    ∃ author : Task → Nat, Set.InjOn author {task | task ∈ cfg.state.tasks} ∧
      ∀ task ∈ cfg.state.tasks, ListedBy cfg.jobOf cfg.trace (author task) task := by
  obtain ⟨hdistinct, hauthor, -⟩ := tasks_as_listed emptyStore rfl rfl listsTwice
  exact ⟨by decide +kernel, hdistinct, hauthor⟩

end TrustGate.Market
