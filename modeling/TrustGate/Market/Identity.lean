import TrustGate.Market.Effects

set_option autoImplicit false

/-! # Which row a save writes

A save either creates a row under a UUID the process has just got, or writes back a row the
process read, with a new status. `Job.saves` and `Job.placesBid` say so for every job. Since a UUID
is handed out once, a created row never overwrites another one: the invariant `Identified`. -/

namespace TrustGate.Market

open Resumption

/-! ## Reading before saving -/

/-- The statuses that may follow a status. -/
def TaskStatus.next : TaskStatus → List TaskStatus
  | .open => [.assigned]
  | .assigned => [.completing, .completed, .expired]
  | .completing => [.completed]
  | .completed => []
  | .expired => []

/-- The rows of the task `id` in the reply to a read. -/
def readsOf (id : String) (d : Done Op Reply) : List Task :=
  match d.op, d.reply with
  | .findTask _, .ok (some task) => if task.id = id then [task] else []
  | .listTasks, .ok tasks => tasks.filter fun task => task.id = id
  | _, _ => []

/-- The task `id` as the process read it last. -/
def lastRead (id : String) : Hist → List Task
  | [] => []
  | d :: h => if (readsOf id d).isEmpty then lastRead id h else readsOf id d

theorem readsOf_findTask {id taskId : String} {task : Task} (hid : task.id = id) :
    readsOf id ⟨.findTask taskId, .ok (some task)⟩ = [task] := by
  simp [readsOf, hid]

theorem mem_lastRead_cons {id : String} {task : Task} {d : Done Op Reply} {h : Hist}
    (hd : readsOf id d = []) (ht : task ∈ lastRead id h) : task ∈ lastRead id (d :: h) := by
  rw [lastRead, hd]
  exact ht

theorem mem_lastRead_of_mem {id : String} {task : Task} {d : Done Op Reply} {h : Hist}
    (ht : task ∈ readsOf id d) : task ∈ lastRead id (d :: h) := by
  rw [lastRead, if_neg]
  · exact ht
  · rw [List.isEmpty_iff]
    rintro hnil
    rw [hnil] at ht
    cases ht

theorem mem_lastRead_read {taskId : String} {task : Task} {bids : List Bid} {h : Hist} :
    task ∈ lastRead task.id (read taskId task bids h) :=
  mem_lastRead_cons rfl (mem_lastRead_of_mem (by simp [readsOf_findTask rfl]))

theorem Snapshot.mem_lastRead {h : Hist} {now : Nat} {tasks : List Task} {task : Task}
    (hs : Snapshot h now tasks) (ht : task ∈ expiredAssignedTasks now tasks) :
    task ∈ lastRead task.id h := by
  obtain ⟨new, rfl, hnew⟩ := hs.split
  clear hs
  induction new with
  | nil =>
      apply mem_lastRead_of_mem
      simp only [readsOf, List.mem_filter, decide_eq_true_eq, and_true]
      exact List.mem_of_mem_filter ht
  | cons d new ih =>
      have hd := hnew d (by simp)
      have hrest : ∀ d ∈ new, d.op ≠ .listTasks ∧ ∀ id, d.op ≠ .findTask id :=
        fun d hm => hnew d (by simp [hm])
      refine mem_lastRead_cons ?_ (ih hrest)
      obtain ⟨o, r⟩ := d
      cases o with
      | findTask id => exact absurd rfl (hd.2 id)
      | listTasks => exact absurd rfl hd.1
      | _ => rfl

/-- The save of `row` writes back a row the process read last, with a status that follows. -/
def WritesBack (h : Hist) (row : Task) : Prop :=
  ∃ task ∈ lastRead row.id h, row = { task with status := row.status } ∧
    row.status ∈ task.status.next

theorem SelectCall.saves {taskId : String} {h : Hist} {row : Task}
    (hc : SelectCall taskId h (.saveTask row)) : WritesBack h row := by
  cases hc with
  | assign task bids winner h auction =>
      refine ⟨task, mem_lastRead_read, rfl, ?_⟩
      simp [auction.opened, TaskStatus.next]

/-- **What a save of a task writes.** -/
theorem Job.saves {j : Job} {h : Hist} {row : Task} (hc : j.Calls h (.saveTask row)) :
    (row.status = .open ∧ ∃ h', h = ⟨.randomUUID, .ok row.id⟩ :: h') ∨ WritesBack h row := by
  cases Job.commits hc rfl with
  | createTask cfg body row h opened => exact .inl ⟨opened, h, rfl⟩
  | createPaid cfg body row h opened => exact .inl ⟨opened, h, rfl⟩
  | select cfg taskId h o call => exact .inr call.saves
  | bidSelect cfg b h o call => exact .inr call.saves
  | completed cfg taskId body task bids winner result admitted =>
      refine .inr ⟨task, mem_lastRead_cons rfl mem_lastRead_read, rfl, ?_⟩
      simp [admitted.assigned, TaskStatus.next]
  | completing cfg taskId body task bids winner admitted =>
      refine .inr ⟨task, mem_lastRead_read, rfl, ?_⟩
      simp [admitted.assigned, TaskStatus.next]
  | expired cfg now tasks task bids winner result h snapshot mem selected =>
      refine .inr ⟨task, mem_lastRead_cons rfl (mem_lastRead_cons rfl
        (snapshot.mem_lastRead mem)), rfl, ?_⟩
      -- the list of the sweep is filtered by this status
      have hstatus : task.status = .assigned := by
        simpa using (And.left (by simpa using (List.mem_filter.mp mem).2))
      simp [hstatus, TaskStatus.next]
  | handlerCompleted cfg claimCursor taskId task bids winner result h completing selected =>
      refine .inr ⟨task, mem_lastRead_cons rfl mem_lastRead_read, rfl, ?_⟩
      simp [completing, TaskStatus.next]

/-- The bids in the reply to a read. -/
def bidsRead (d : Done Op Reply) : List Bid :=
  match d.op, d.reply with
  | .findBids _, .ok bids => bids
  | _, _ => []

/-- The saved bid was read before. -/
def KnownBid (h : Hist) (bid : Bid) : Prop := ∃ d ∈ h, ∃ old ∈ bidsRead d, old.id = bid.id

theorem lowestBid_mem (first : Bid) (rest : List Bid) : lowestBid first rest ∈ first :: rest := by
  unfold lowestBid
  induction rest generalizing first with
  | nil => exact List.mem_singleton_self _
  | cons bid rest ih =>
      rw [List.foldl_cons]
      have hbetter : better first bid = first ∨ better first bid = bid := by
        unfold better
        split_ifs <;> simp
      rcases List.mem_cons.mp (ih (better first bid)) with hmem | hmem
      · rw [hmem]
        rcases hbetter with h | h <;> simp [h]
      · simp [hmem]

theorem auctionWinner_mem {bids : List Bid} {winner : Bid} (h : auctionWinner bids = some winner) :
    winner ∈ pendingBids bids := by
  unfold auctionWinner at h
  split at h
  · cases h
  · rename_i first rest hp
    cases h
    rw [hp]
    exact lowestBid_mem first rest

/-- The save writes back a bid that was read before, with another status. -/
def RewritesBid (h : Hist) (bid : Bid) : Prop :=
  ∃ d ∈ h, ∃ old ∈ bidsRead d, bid = { old with status := bid.status }

theorem RewritesBid.known {h : Hist} {bid : Bid} (hb : RewritesBid h bid) : KnownBid h bid := by
  obtain ⟨d, hd, old, hold, heq⟩ := hb
  exact ⟨d, hd, old, hold, by rw [heq]⟩

theorem SelectCall.rewritesBid {taskId : String} {h : Hist} {bid : Bid}
    (hc : SelectCall taskId h (.saveBid bid)) : RewritesBid h bid := by
  cases hc with
  | award task bids winner h auction =>
      refine ⟨⟨.findBids taskId, .ok bids⟩, by simp [assigned, read], winner, ?_, rfl⟩
      exact List.mem_of_mem_filter (auctionWinner_mem auction.won)
  | reject task bids winner bid saves h auction rejections pending loser =>
      refine ⟨⟨.findBids taskId, .ok bids⟩, by simp [awarded, assigned, read], bid, ?_, rfl⟩
      exact List.mem_of_mem_filter pending

/-- The request is about to save the bid it places. -/
def Places (j : Job) (h : Hist) (bid : Bid) : Prop :=
  ∃ cfg b task, j = .createBid cfg (.ok b) ∧ Placed cfg b task bid ∧
    h = ⟨.dateNow, .ok bid.createdAt⟩ :: ⟨.randomUUID, .ok bid.id⟩ :: escrowed b task bid.escrowId

/-- **What a save of a bid writes.** -/
theorem Job.placesBid {j : Job} {h : Hist} {bid : Bid} (hc : j.Calls h (.saveBid bid)) :
    Places j h bid ∨ RewritesBid h bid := by
  cases Job.commits hc rfl with
  | select cfg taskId h o call => exact .inr call.rewritesBid
  | bidSelect cfg b h o call => exact .inr call.rewritesBid
  | bid cfg b task bid valid => exact .inl ⟨cfg, b, task, rfl, valid, rfl⟩

theorem Job.savesBid {j : Job} {h : Hist} {bid : Bid} (hc : j.Calls h (.saveBid bid)) :
    (∃ now h', h = ⟨.dateNow, .ok now⟩ :: ⟨.randomUUID, .ok bid.id⟩ :: h') ∨ KnownBid h bid := by
  rcases Job.placesBid hc with ⟨cfg, b, task, -, -, heq⟩ | hback
  · exact .inl ⟨_, _, heq⟩
  · exact .inr hback.known

/-! ## What a read saw -/

theorem exists_read_of_mem_lastRead {id : String} {task : Task} {h : Hist}
    (ht : task ∈ lastRead id h) : ∃ d ∈ h, readsOf id d ≠ [] := by
  induction h with
  | nil => cases ht
  | cons d h ih =>
      by_cases hd : readsOf id d = []
      · rw [lastRead, hd] at ht
        obtain ⟨d', hd', hread⟩ := ih ht
        exact ⟨d', List.mem_cons_of_mem _ hd', hread⟩
      · exact ⟨d, List.mem_cons_self, hd⟩

/-- A read returns stored rows. -/
theorem mem_tasks_of_readsOf {o : Op} {c : Outcome} {m m' : Store} {r : Reply o} {id : String}
    {task : Task} (hx : exec o c m = some (r, m')) (ht : task ∈ readsOf id ⟨o, r⟩) :
    task ∈ m.tasks ∧ task.id = id := by
  cases r with
  | error e => cases o <;> cases ht
  | ok v =>
      have hp := exec_ok hx
      cases o with
      | findTask taskId =>
          cases hp
          unfold readsOf at ht
          cases hfind : m.findTask taskId with
          | none => simp [hfind] at ht
          | some row =>
              simp only [hfind] at ht
              split_ifs at ht with hid
              · cases List.mem_singleton.mp ht
                exact ⟨List.mem_of_find?_eq_some hfind, hid⟩
              · cases ht
      | listTasks =>
          cases hp
          simpa [readsOf, Store.mem_listTasks] using ht
      | _ => cases ht

theorem mem_bids_of_bidsRead {o : Op} {c : Outcome} {m m' : Store} {r : Reply o} {bid : Bid}
    (hx : exec o c m = some (r, m')) (hb : bid ∈ bidsRead ⟨o, r⟩) : bid ∈ m.bids := by
  cases r with
  | error e => cases o <;> cases hb
  | ok v =>
      have hp := exec_ok hx
      cases o with
      | findBids taskId =>
          cases hp
          exact (Store.mem_findBids.mp hb).1
      | _ => cases hb

/-! ## UUIDs -/

/-- The UUID a process has got and not used as a key yet. -/
def heldId : Hist → Option String
  | ⟨.randomUUID, .ok id⟩ :: _ => some id
  | ⟨.dateNow, _⟩ :: ⟨.randomUUID, .ok id⟩ :: _ => some id
  | _ => none

theorem Places.held {j : Job} {h : Hist} {bid : Bid} (hp : Places j h bid) :
    heldId h = some bid.id := by
  obtain ⟨cfg, b, task, -, -, rfl⟩ := hp
  rfl

/-- Every key in use was handed out before, so `randomUUID` will not return it. -/
structure Store.KeysIssued (m : Store) : Prop where
  tasks : ∀ task ∈ m.tasks, task.id ∈ m.issued
  bids : ∀ bid ∈ m.bids, bid.id ∈ m.issued

/-- A key is in use. -/
def Store.HasKey (m : Store) (id : String) : Prop :=
  (∃ task ∈ m.tasks, task.id = id) ∨ ∃ bid ∈ m.bids, bid.id = id

/-- **Rows keep their identity.** A UUID in hand is nobody else's and no key yet; rows that were
read are still there. -/
structure Identified (m : Store) (t : Trace Op Reply) : Prop where
  keys : m.KeysIssued
  held : ∀ pid id, heldId (own pid t) = some id → id ∈ m.issued ∧ ¬ m.HasKey id
  apart : ∀ pid pid' id, heldId (own pid t) = some id → heldId (own pid' t) = some id → pid = pid'
  tasksRead : ∀ pid id, ∀ d ∈ own pid t, readsOf id d ≠ [] → ∃ row ∈ m.tasks, row.id = id
  bidsRead : ∀ pid, ∀ d ∈ own pid t, ∀ bid ∈ bidsRead d, ∃ row ∈ m.bids, row.id = bid.id

theorem Identified.initial {m : Store} (h : m.KeysIssued) : Identified m [] where
  keys := h
  held := fun _ _ hid => nomatch hid
  apart := fun _ _ _ hid => nomatch hid
  tasksRead := fun _ _ _ hd => nomatch hd
  bidsRead := fun _ _ hd => nomatch hd

section

variable {o : Op} {c : Outcome} {m m' : Store} {r : Reply o} {t : Trace Op Reply} {pid : Nat}
  {j : Job}

/-- A key that comes into use is a UUID that the saving process holds. -/
theorem Identified.hasKey_exec (h : Identified m t) (hc : j.Calls (own pid t) o)
    (hx : exec o c m = some (r, m')) {id : String} (hkey : m'.HasKey id) :
    m.HasKey id ∨ heldId (own pid t) = some id := by
  rcases hkey with ⟨row, hrow, rfl⟩ | ⟨bid, hbid, rfl⟩
  · rcases mem_tasks_exec hx hrow with hmem | rfl
    · exact .inl (.inl ⟨row, hmem, rfl⟩)
    · rcases Job.saves hc with ⟨-, h', heq⟩ | ⟨task, htask, -, -⟩
      · exact .inr (by rw [heq]; rfl)
      · obtain ⟨d, hd, hread⟩ := exists_read_of_mem_lastRead htask
        exact .inl (.inl (h.tasksRead pid row.id d hd hread))
  · rcases mem_bids_exec hx hbid with hmem | ⟨row, rfl, hid⟩
    · exact .inl (.inr ⟨bid, hmem, rfl⟩)
    · rcases Job.savesBid hc with ⟨now, h', heq⟩ | ⟨d, hd, old, hold, hold'⟩
      · exact .inr (by rw [heq, ← hid]; rfl)
      · rw [← hid, ← hold']
        exact .inl (.inr (h.bidsRead pid d hd old hold))

theorem Identified.issued_exec (hx : exec o c m = some (r, m')) {id : String} (hid : id ∈ m.issued) :
    id ∈ m'.issued := by
  by_cases ho : o = .randomUUID
  · subst ho
    rcases exec_cases hx with ⟨-, rfl, -⟩ | ⟨-, v, hp, -⟩
    · exact hid
    · simp only [perform] at hp
      split_ifs at hp
      cases hp
      exact List.mem_cons_of_mem _ hid
  · rw [exec_issued hx ho]
    exact hid

/-- A UUID in hand after a call was in hand before, or the call has just issued it. -/
theorem heldId_cons {h : Hist} {id : String} (hx : exec o c m = some (r, m'))
    (hid : heldId (⟨o, r⟩ :: h) = some id) :
    heldId h = some id ∧ o = .dateNow ∨
      o = .randomUUID ∧ id ∉ m.issued ∧ m' = { m with issued := id :: m.issued } := by
  cases o with
  -- the clock is read between the UUID and the save that uses it
  | dateNow =>
      refine .inl ⟨?_, rfl⟩
      unfold heldId at hid
      split at hid
      · rename_i heq
        cases congrArg (fun l => l.head?.map Done.op) heq
      · rename_i heq
        cases heq
        cases hid
        rfl
      · cases hid
  | randomUUID =>
      refine .inr ⟨rfl, ?_⟩
      cases r with
      | error e => cases hid
      | ok v =>
          have hp := exec_ok hx
          simp only [perform] at hp
          split_ifs at hp with hmem
          cases hp
          cases hid
          exact ⟨hmem, rfl⟩
  | _ => cases hid

/-- A UUID that a process holds after the call: its own for some time, or just issued to it. -/
theorem heldId_call (hx : exec o c m = some (r, m')) {pid' : Nat} {id : String}
    (hid : heldId (own pid' (⟨pid, o, r⟩ :: t)) = some id) :
    (heldId (own pid' t) = some id ∧ (pid' = pid → o = .dateNow)) ∨
      (pid' = pid ∧ id ∉ m.issued ∧ m' = { m with issued := id :: m.issued }) := by
  by_cases hp : pid = pid'
  · subst hp
    rw [own_cons_self] at hid
    rcases heldId_cons hx hid with ⟨hold, ho⟩ | ⟨-, hnew, hm'⟩
    · exact .inl ⟨hold, fun _ => ho⟩
    · exact .inr ⟨rfl, hnew, hm'⟩
  · rw [own_cons_ne hp] at hid
    exact .inl ⟨hid, fun heq => absurd heq.symm hp⟩

/-- **Every call of the market keeps the rows' identity.** -/
theorem Identified.call (h : Identified m t) (hc : j.Calls (own pid t) o)
    (hx : exec o c m = some (r, m')) : Identified m' (⟨pid, o, r⟩ :: t) := by
  have hkeys : ∀ {id}, m'.HasKey id → id ∈ m.issued := by
    intro id hkey
    rcases h.hasKey_exec hc hx hkey with (⟨task, hmem, rfl⟩ | ⟨bid, hmem, rfl⟩) | hheld
    · exact h.keys.tasks task hmem
    · exact h.keys.bids bid hmem
    · exact (h.held pid id hheld).1
  have hheld : ∀ pid' id, heldId (own pid' (⟨pid, o, r⟩ :: t)) = some id → _ :=
    fun pid' id => heldId_call hx
  refine ⟨⟨?_, ?_⟩, ?_, ?_, ?_, ?_⟩
  · exact fun task ht => issued_exec hx (hkeys (.inl ⟨task, ht, rfl⟩))
  · exact fun bid hb => issued_exec hx (hkeys (.inr ⟨bid, hb, rfl⟩))
  · intro pid' id hid
    rcases hheld pid' id hid with ⟨hold, ho⟩ | ⟨-, hnew, rfl⟩
    · refine ⟨issued_exec hx (h.held pid' id hold).1, fun hkey => ?_⟩
      rcases h.hasKey_exec hc hx hkey with hkey | hmine
      · exact (h.held pid' id hold).2 hkey
      · -- only the holder can put its UUID to use, and it does so by a save
        have ho := ho (h.apart pid' pid id hold hmine)
        subst ho
        have hm' : m'.tasks = m.tasks ∧ m'.bids = m.bids :=
          ⟨exec_tasks hx (by simp), (exec_bids hx (by simp)).1⟩
        unfold Store.HasKey at hkey
        rw [hm'.1, hm'.2] at hkey
        exact (h.held pid' id hold).2 hkey
    · refine ⟨List.mem_cons_self, fun hkey => hnew (hkeys hkey)⟩
  · intro p₁ p₂ id h₁ h₂
    rcases hheld p₁ id h₁ with ⟨hold₁, -⟩ | ⟨hp₁, hnew₁, -⟩ <;>
      rcases hheld p₂ id h₂ with ⟨hold₂, -⟩ | ⟨hp₂, hnew₂, -⟩
    · exact h.apart p₁ p₂ id hold₁ hold₂
    · exact absurd (h.held p₁ id hold₁).1 hnew₂
    · exact absurd (h.held p₂ id hold₂).1 hnew₁
    · exact hp₁.trans hp₂.symm
  · intro pid' id d hd hread
    have hold : (∃ row ∈ m.tasks, row.id = id) := by
      by_cases hp : pid = pid'
      · subst hp
        rw [own_cons_self] at hd
        rcases List.mem_cons.mp hd with rfl | hd
        · obtain ⟨task, ht⟩ := List.exists_mem_of_ne_nil _ hread
          exact ⟨task, mem_tasks_of_readsOf hx ht⟩
        · exact h.tasksRead pid id d hd hread
      · rw [own_cons_ne hp] at hd
        exact h.tasksRead pid' id d hd hread
    obtain ⟨row, hrow, rfl⟩ := hold
    exact exists_task_exec hx hrow
  · intro pid' d hd bid hbid
    have hold : (∃ row ∈ m.bids, row.id = bid.id) := by
      by_cases hp : pid = pid'
      · subst hp
        rw [own_cons_self] at hd
        rcases List.mem_cons.mp hd with rfl | hd
        · exact ⟨bid, mem_bids_of_bidsRead hx hbid, rfl⟩
        · exact h.bidsRead pid d hd bid hbid
      · rw [own_cons_ne hp] at hd
        exact h.bidsRead pid' d hd bid hbid
    obtain ⟨row, hrow, hid⟩ := hold
    rw [← hid]
    exact exists_bid_exec hx hrow

end

end TrustGate.Market
