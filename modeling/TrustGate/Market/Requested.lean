import TrustGate.Market.Copies

set_option autoImplicit false

/-! # No release without the requester

An escrow is released by a completion request itself, or long after it by a worker that finds the
task `COMPLETING`. Nobody but a completion request saves that status, so whoever releases an escrow
has, directly or through copies of the task, the word of its owner. -/

namespace TrustGate.Market

open Resumption

/-! ## Requests -/

/-- A completion request that speaks for `owner` has read the task as `ASSIGNED`. -/
def Requested (jobs : Nat → Option Job) (t : Trace Op Reply) (taskId owner : String) : Prop :=
  ∃ pid cfg body task, jobs pid = some (.complete cfg taskId body) ∧
    ⟨pid, .findTask taskId, .ok (some task)⟩ ∈ t ∧ task.status = .assigned ∧
    completeRequester cfg body = .ok owner

/-- The step of `pid` that releases the escrow `e`: it has read the task and a selected bid of it
with that escrow, and its owner had requested the completion. -/
def ReleasedFor (jobs : Nat → Option Job) (t : Trace Op Reply) (pid : Nat) (e : String) : Prop :=
  ∃ task bids winner h, own pid t = read task.id task bids h ∧ winner ∈ bids ∧
    winner.status = .selected ∧ winner.taskId = task.id ∧ winner.escrowId = e ∧
    Requested jobs t task.id task.requesterPublicKey

theorem Requested.mono {jobs jobs' : Nat → Option Job} {t t' : Trace Op Reply}
    {taskId owner : String} (hjobs : ∀ pid j, jobs pid = some j → jobs' pid = some j)
    (ht : ∀ c ∈ t, c ∈ t') (h : Requested jobs t taskId owner) : Requested jobs' t' taskId owner := by
  obtain ⟨pid, cfg, body, task, hj, hfind, hstatus, howner⟩ := h
  exact ⟨pid, cfg, body, task, hjobs _ _ hj, ht _ hfind, hstatus, howner⟩

theorem ReleasedFor.mono {jobs jobs' : Nat → Option Job} {t : Trace Op Reply} {pid : Nat}
    {e : String} (hjobs : ∀ pid j, jobs pid = some j → jobs' pid = some j)
    (h : ReleasedFor jobs t pid e) : ReleasedFor jobs' t pid e := by
  obtain ⟨task, bids, winner, h, hown, hmem, hsel, htask, he, hreq⟩ := h
  exact ⟨task, bids, winner, h, hown, hmem, hsel, htask, he, hreq.mono hjobs fun _ hc => hc⟩

/-! ## Calls -/

/-- **Who releases an escrow**, and what it has just read. -/
theorem Job.releases {j : Job} {h : Hist} {e : String} (hc : j.Calls h (.releaseMilestone e)) :
    ∃ taskId task bids winner h', h = read taskId task bids h' ∧ winningBid bids = some winner ∧
      winner.escrowId = e ∧ ((∃ cfg cursor, j = .tick cfg cursor ∧ task.status = .completing) ∨
        ∃ cfg body, j = .complete cfg taskId body ∧ Admitted cfg body task bids winner) := by
  cases Job.commits hc rfl with
  | select cfg taskId h o call => cases call
  | bidSelect cfg b h o call => cases call
  | release cfg taskId body task bids winner admitted =>
      exact ⟨taskId, task, bids, winner, [], rfl, admitted.selected, rfl,
        .inr ⟨cfg, body, rfl, admitted⟩⟩
  | handlerRelease cfg claimCursor taskId task bids winner h completing selected =>
      exact ⟨taskId, task, bids, winner, h, rfl, selected, rfl,
        .inl ⟨cfg, claimCursor, rfl, completing⟩⟩

/-- **Who saves a task as `COMPLETING`**: a request of its owner that read it as `ASSIGNED`. -/
theorem Job.savesCompleting {j : Job} {h : Hist} {row : Task} (hc : j.Calls h (.saveTask row))
    (hrow : row.status = .completing) :
    ∃ cfg taskId body task bids, j = .complete cfg taskId body ∧ h = read taskId task bids [] ∧
      task.status = .assigned ∧ completeRequester cfg body = .ok task.requesterPublicKey ∧
      row = { task with status := .completing } := by
  cases Job.commits hc rfl with
  | createTask cfg body row h opened => rw [opened] at hrow; cases hrow
  | createPaid cfg body row h opened => rw [opened] at hrow; cases hrow
  | select cfg taskId h o call => cases call; cases hrow
  | bidSelect cfg b h o call => cases call; cases hrow
  | completing cfg taskId body task bids winner admitted =>
      exact ⟨cfg, taskId, body, task, bids, rfl, rfl, admitted.assigned, admitted.requester, rfl⟩
  | completed | expired | handlerCompleted => cases hrow

/-! ## Runs -/

/-- Every copy of a task that is `COMPLETING` comes from a request of its owner, and so does every
release. -/
structure Asked (jobs : Nat → Option Job) (m : Store) (t : Trace Op Reply) : Prop where
  sound : Sound m t
  completing : ∀ task ∈ taskCopies m t, task.status = .completing →
    Requested jobs t task.id task.requesterPublicKey
  released : ∀ c earlier, c :: earlier <:+ t → ∀ e, c.op = .releaseMilestone e →
    ReleasedFor jobs earlier c.pid e

theorem Asked.initial {jobs : Nat → Option Job} {m : Store} (tasks : m.tasks = [])
    (bids : m.bids = []) : Asked jobs m [] where
  sound := .initial tasks bids
  completing := by
    rintro task (ht | ⟨c, hc, -⟩)
    · rw [tasks] at ht
      cases ht
    · cases hc
  released := fun c earlier hs => absurd (List.suffix_nil.mp hs) (List.cons_ne_nil c earlier)

section

variable {jobs jobs' : Nat → Option Job} {o : Op} {c : Outcome} {m m' : Store} {r : Reply o}
  {t : Trace Op Reply} {pid : Nat} {j : Job}

theorem Asked.more (hjobs : ∀ pid j, jobs pid = some j → jobs' pid = some j) (h : Asked jobs m t) :
    Asked jobs' m t where
  sound := h.sound
  completing := fun task ht hs => (h.completing task ht hs).mono hjobs fun _ hc => hc
  released := fun c earlier hsuffix e he => (h.released c earlier hsuffix e he).mono hjobs

/-- The word of the owner, at the release of an escrow. -/
theorem Asked.release (h : Asked jobs m t) (hjob : jobs pid = some j) {e : String}
    (hc : j.Calls (own pid t) (.releaseMilestone e)) : ReleasedFor jobs t pid e := by
  obtain ⟨taskId, task, bids, winner, h', hown, hwin, he, hauth⟩ := Job.releases hc
  have hfind : (⟨.findTask taskId, .ok (some task)⟩ : Done Op Reply) ∈ own pid t := by
    rw [hown]; simp [read]
  have hbids : (⟨.findBids taskId, .ok bids⟩ : Done Op Reply) ∈ own pid t := by
    rw [hown]; simp [read]
  have hid : task.id = taskId := h.sound.answered.task pid taskId task (mem_own.mp hfind)
  subst hid
  have hmem : winner ∈ bids := List.mem_of_find?_eq_some hwin
  refine ⟨task, bids, winner, h', hown, hmem, ?_, ?_, he, ?_⟩
  · simpa using List.find?_some hwin
  · exact h.sound.answered.bids pid task.id bids (mem_own.mp hbids) winner hmem
  · rcases hauth with ⟨cfg, cursor, rfl, hcompleting⟩ | ⟨cfg, body, rfl, admitted⟩
    · exact h.completing task (mem_taskCopies_of_find hfind) hcompleting
    · exact ⟨pid, cfg, body, task, hjob, mem_own.mp hfind, admitted.assigned, admitted.requester⟩

theorem Asked.call (h : Asked jobs m t) (hjob : jobs pid = some j) (hc : j.Calls (own pid t) o)
    (hx : exec o c m = some (r, m')) : Asked jobs m' (⟨pid, o, r⟩ :: t) := by
  refine ⟨h.sound.call hc hx, ?_, ?_⟩
  · intro task ht hstatus
    rcases taskCopies_call hx ht with hold | rfl
    · exact (h.completing task hold hstatus).mono (fun _ _ hj => hj) fun _ => List.mem_cons_of_mem _
    · -- the request that saves the task is the one asked for
      obtain ⟨cfg, taskId, body, task', bids, rfl, hown, hassigned, howner, rfl⟩ :=
        Job.savesCompleting hc hstatus
      have hfind : (⟨.findTask taskId, .ok (some task')⟩ : Done Op Reply) ∈ own pid t := by
        rw [hown]; simp [read]
      have hid : task'.id = taskId := h.sound.answered.task pid taskId task' (mem_own.mp hfind)
      subst hid
      exact ⟨pid, cfg, body, task', hjob, List.mem_cons_of_mem _ (mem_own.mp hfind), hassigned,
        howner⟩
  · intro call earlier hsuffix e he
    rcases List.suffix_cons_iff.mp hsuffix with heq | hsuffix
    · cases heq
      subst he
      exact h.release hjob hc
    · exact h.released call earlier hsuffix e he

end

/-- When an escrow is released, the releasing step has read a task and a selected bid of it with
that escrow; a completion request that speaks for the owner of the task had read it as `ASSIGNED`
before, and the owner has not changed since. -/
def ReleasedOnRequest (cfg : Config Op Reply Job Store) : Prop :=
  ∀ c earlier, c :: earlier <:+ cfg.trace → ∀ e, c.op = .releaseMilestone e →
    ∃ task bids winner h, own c.pid earlier = read task.id task bids h ∧ winner ∈ bids ∧
      winner.status = .selected ∧ winner.taskId = task.id ∧ winner.escrowId = e ∧
      (∃ pid s body task', cfg.jobOf pid = some (.complete s task.id body) ∧
        ⟨pid, .findTask task.id, .ok (some task')⟩ ∈ earlier ∧ task'.status = .assigned ∧
        completeRequester s body = .ok task.requesterPublicKey) ∧
      ∀ row ∈ cfg.state.tasks, row.id = task.id → row.requesterPublicKey = task.requesterPublicKey

/-- **No release without the requester**, from empty tables, whatever runs, fails or crashes. -/
theorem released_on_request (m : Store) (tasks : m.tasks = []) (bids : m.bids = [])
    (sched : List (Act Job Outcome)) :
    ReleasedOnRequest (runSched market (.initial m) sched) := by
  have h : Asked (runSched market (.initial m) sched).jobOf _ _ :=
    (runSched_authored (I := Asked) (Q := Job.Ended) (R := .any) (fun j _ => body_follows j)
      (fun _ _ _ _ hjobs h => h.more hjobs)
      (fun _ _ _ _ _ _ _ _ _ h hjob _ hc _ hx => h.call hjob hc hx) sched _
      (.initial tasks bids) (.initial m) (meets_any _ sched _)).1
  intro c earlier hsuffix e he
  obtain ⟨task, bids, winner, past, hown, hmem, hsel, htask, hescrow, hreq⟩ :=
    h.released c earlier hsuffix e he
  refine ⟨task, bids, winner, past, hown, hmem, hsel, htask, hescrow, hreq, ?_⟩
  intro row hrow hid
  have hfind : (⟨.findTask task.id, .ok (some task)⟩ : Done Op Reply) ∈ own c.pid earlier := by
    rw [hown]; simp [read]
  have hread : task ∈ taskCopies (runSched market (.initial m) sched).state
      (runSched market (.initial m) sched).trace := by
    refine .inr ⟨_, hsuffix.subset (List.mem_cons_of_mem c (mem_own.mp hfind)), ?_⟩
    simp [readsOf]
  have howner : row.asCreated.requesterPublicKey = task.asCreated.requesterPublicKey := by
    rw [h.sound.task_eq (.inl hrow) hread hid]
  exact howner

/-! ## A task from its creation to its release -/

def emptyStore : Store where
  backend := .postgres
  tasks := []
  bids := []
  results := []
  outbox := []
  consumptions := []
  stream := ⟨[], 0, 0, []⟩
  issued := []

/-- A task of `R` with the reserve price 1 and the deadline 10. -/
def creates (pid : Nat) (t : String) : List (Act Job Outcome) :=
  [.spawn (.createPaid { hasOutbox := false } (.ok ⟨"R", "1", "work", 10, ""⟩)),
    .run pid { text := t }, goes pid, goes pid]

/-- A bid of `E` on the task `t` at the time `now`, which wins at once. -/
def bidsAt (pid : Nat) (amount b e : String) (now : Nat) : List (Act Job Outcome) :=
  [.spawn (.createBid { hasOutbox := false } (.ok ⟨"t", "E", amount, "2", ""⟩)), goes pid, goes pid,
    .run pid { text := e }, .run pid { text := b }, .run pid { now := now }, goes pid, goes pid,
    goes pid, goes pid, goes pid]

/-- The owner completes the task `t`; the outbox announces it to the worker. -/
def requests (pid : Nat) : List (Act Job Outcome) :=
  [.spawn (.complete {} "t" (.ok ⟨"R", ""⟩)), goes pid, goes pid, goes pid, .run pid { text := "v" },
    goes pid]

/-- The worker publishes the event, reads it and handles it as far as the release. -/
def settles (pid : Nat) : List (Act Job Outcome) :=
  .spawn (.tick {} 0) :: List.replicate 9 (goes pid)

theorem hired_executor_released_on_request :
    let cfg := runSched market (.initial emptyStore)
      (creates 0 "t" ++ bidsAt 1 "1" "b" "e" 1 ++ requests 2 ++ settles 3)
    times .release "e" cfg.trace = 1 ∧ ReleasedOnRequest cfg :=
  ⟨by decide +kernel, released_on_request emptyStore rfl rfl _⟩

end TrustGate.Market
