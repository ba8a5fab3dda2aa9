import TrustGate.Market.Outbox

set_option autoImplicit false

/-! # Copies of a row differ in their status only

Every process works on copies of tasks and bids that it read some awaits ago, and writes whole
copies back. Whatever is lost on the way, no copy of a row, stored or in hand, differs from another
one in anything but its status: the owner and the deadline of a task, the executor, the amounts and
the escrow of a bid are what they were when the row was created. -/

namespace TrustGate.Market

open Resumption

/-! ## Agreement -/

section

variable {ρ γ : Type} {key : ρ → String} {core : ρ → γ}

/-- Copies with one key have one core. -/
def Agree (key : ρ → String) (core : ρ → γ) (copies : Set ρ) : Prop :=
  ∀ a ∈ copies, ∀ b ∈ copies, key a = key b → core a = core b

/-- Copies go on to agree if each one has a twin among those before, but for one row under a new
key. -/
theorem Agree.step {copies copies' : Set ρ} (h : Agree key core copies) (row : ρ)
    (hstep : ∀ a ∈ copies', (∃ old ∈ copies, key old = key a ∧ core old = core a) ∨
      a = row ∧ ∀ old ∈ copies, key old ≠ key row) : Agree key core copies' := by
  intro a ha b hb hkey
  rcases hstep a ha with ⟨a₀, ha₀, hakey, hacore⟩ | ⟨rfl, hnew⟩ <;>
    rcases hstep b hb with ⟨b₀, hb₀, hbkey, hbcore⟩ | ⟨rfl, hnew'⟩
  · rw [← hacore, ← hbcore]
    exact h a₀ ha₀ b₀ hb₀ (hakey.trans (hkey.trans hbkey.symm))
  · exact absurd (hakey.trans hkey) (hnew' a₀ ha₀)
  · exact absurd (hbkey.trans hkey.symm) (hnew b₀ hb₀)
  · rfl

theorem Agree.mono {copies copies' : Set ρ} (h : Agree key core copies) (hsub : copies' ⊆ copies) :
    Agree key core copies' :=
  fun a ha b hb => h a (hsub ha) b (hsub hb)

/-- The rows of a table with a primary key agree. -/
theorem agree_of_nodup {rows : List ρ} (hkeys : (rows.map key).Nodup) :
    Agree key core {row | row ∈ rows} := by
  intro a ha b hb hkey
  rw [List.inj_on_of_nodup_map hkeys ha hb hkey]

end

/-! ## The copies in use -/

/-- The task as it was when it was created. -/
def Task.asCreated (task : Task) : Task := { task with status := .open }

/-- The copies of tasks that are stored or were read by somebody. -/
def taskCopies (m : Store) (t : Trace Op Reply) : Set Task :=
  {task | task ∈ m.tasks ∨ ∃ c ∈ t, task ∈ readsOf task.id ⟨c.op, c.reply⟩}

def bidCopies (m : Store) (t : Trace Op Reply) : Set Bid :=
  {bid | bid ∈ m.bids ∨ ∃ c ∈ t, bid ∈ bidsRead ⟨c.op, c.reply⟩}

/-- **Copies agree** on everything but the status. -/
structure Alike (m : Store) (t : Trace Op Reply) : Prop where
  tasks : Agree Task.id Task.asCreated (taskCopies m t)
  bids : Agree Bid.id Bid.asPlaced (bidCopies m t)

theorem Alike.initial {m : Store} (tasks : (m.tasks.map Task.id).Nodup)
    (bids : (m.bids.map Bid.id).Nodup) : Alike m [] where
  tasks := (agree_of_nodup tasks).mono fun _ ha =>
    ha.resolve_right fun ⟨_, hc, _⟩ => absurd hc List.not_mem_nil
  bids := (agree_of_nodup bids).mono fun _ ha =>
    ha.resolve_right fun ⟨_, hc, _⟩ => absurd hc List.not_mem_nil

section

variable {o : Op} {c : Outcome} {m m' : Store} {r : Reply o} {t : Trace Op Reply} {pid : Nat}
  {j : Job}

/-- A call brings a copy of a task into use by saving it, if at all. -/
theorem taskCopies_call (hx : exec o c m = some (r, m')) {task : Task}
    (ht : task ∈ taskCopies m' (⟨pid, o, r⟩ :: t)) : task ∈ taskCopies m t ∨ o = .saveTask task := by
  rcases ht with ht | ⟨call, hcall, ht⟩
  · exact (mem_tasks_exec hx ht).imp_left .inl
  · rcases List.mem_cons.mp hcall with rfl | hcall
    · exact .inl (.inl (mem_tasks_of_readsOf hx ht).1)
    · exact .inl (.inr ⟨call, hcall, ht⟩)

/-- A call brings a copy of a bid into use by saving it, if at all. -/
theorem bidCopies_call (hx : exec o c m = some (r, m')) {bid : Bid}
    (hb : bid ∈ bidCopies m' (⟨pid, o, r⟩ :: t)) : bid ∈ bidCopies m t ∨ ∃ row, o = .saveBid row ∧
      (bid = row ∨ ∃ old ∈ m.bids, old.id = row.id ∧ bid = Store.mergeBid m.backend old row) := by
  rcases hb with hb | ⟨call, hcall, hb⟩
  · by_cases ho : ∃ row, o = .saveBid row
    · obtain ⟨row, rfl⟩ := ho
      rcases exec_saveBid hx with ⟨-, rfl⟩ | ⟨-, rfl⟩
      · exact .inl (.inl hb)
      · exact (mem_upsert hb).imp .inl fun hrow => ⟨row, rfl, hrow⟩
    · rw [(exec_bids hx fun row heq => ho ⟨row, heq⟩).1] at hb
      exact .inl (.inl hb)
  · rcases List.mem_cons.mp hcall with rfl | hcall
    · exact .inl (.inl (mem_bids_of_bidsRead hx hb))
    · exact .inl (.inr ⟨call, hcall, hb⟩)

theorem mem_taskCopies_of_own {d : Done Op Reply} {task : Task} (hd : d ∈ own pid t)
    (ht : task ∈ readsOf task.id d) : task ∈ taskCopies m t :=
  .inr ⟨_, mem_own.mp hd, ht⟩

theorem mem_taskCopies_of_find {taskId : String} {task : Task}
    (hd : ⟨.findTask taskId, .ok (some task)⟩ ∈ own pid t) : task ∈ taskCopies m t :=
  mem_taskCopies_of_own hd (by simp [readsOf])

theorem mem_bidCopies_of_own {d : Done Op Reply} {bid : Bid} (hd : d ∈ own pid t)
    (hb : bid ∈ bidsRead d) : bid ∈ bidCopies m t :=
  .inr ⟨_, mem_own.mp hd, hb⟩

theorem mem_readsOf_lastRead {id : String} {task : Task} {h : Hist} (ht : task ∈ lastRead id h) :
    ∃ d ∈ h, task ∈ readsOf id d := by
  induction h with
  | nil => cases ht
  | cons d h ih =>
      by_cases hd : readsOf id d = []
      · rw [lastRead, hd] at ht
        obtain ⟨d', hd', hmem⟩ := ih ht
        exact ⟨d', List.mem_cons_of_mem _ hd', hmem⟩
      · refine ⟨d, List.mem_cons_self, ?_⟩
        rwa [lastRead, if_neg (by simpa using hd)] at ht

theorem readsOf_id {id : String} {task : Task} {d : Done Op Reply} (ht : task ∈ readsOf id d) :
    task.id = id := by
  obtain ⟨o, r⟩ := d
  cases r with
  | error e => cases o <;> cases ht
  | ok v =>
      cases o with
      | findTask taskId =>
          cases v with
          | none => cases ht
          | some row =>
              simp only [readsOf] at ht
              split_ifs at ht with hid
              · rwa [List.mem_singleton.mp ht]
              · cases ht
      | listTasks => simpa [readsOf] using (List.mem_filter.mp ht).2
      | _ => cases ht

/-- The copy that a save writes back: it is in use. -/
theorem WritesBack.copy {row : Task} (h : WritesBack (own pid t) row) :
    ∃ task ∈ taskCopies m t, task.id = row.id ∧ task.asCreated = row.asCreated := by
  obtain ⟨task, ht, heq, -⟩ := h
  obtain ⟨d, hd, hmem⟩ := mem_readsOf_lastRead ht
  have hid := readsOf_id hmem
  refine ⟨task, mem_taskCopies_of_own hd (hid.symm ▸ hmem), hid, ?_⟩
  rw [heq]
  rfl

theorem RewritesBid.copy {row : Bid} (h : RewritesBid (own pid t) row) :
    ∃ bid ∈ bidCopies m t, bid.id = row.id ∧ bid.asPlaced = row.asPlaced := by
  obtain ⟨d, hd, old, hold, heq⟩ := h
  refine ⟨old, mem_bidCopies_of_own hd hold, ?_, ?_⟩
  · rw [heq]
  · rw [heq]
    rfl

/-- Nobody has a copy under a UUID that is in hand. -/
theorem Identified.taskCopies_ne (hi : Identified m t) {id : String}
    (hheld : heldId (own pid t) = some id) {task : Task} (ht : task ∈ taskCopies m t) :
    task.id ≠ id := by
  rintro rfl
  refine (hi.held pid task.id hheld).2 (.inl ?_)
  rcases ht with ht | ⟨call, hcall, ht⟩
  · exact ⟨task, ht, rfl⟩
  · exact hi.tasksRead call.pid task.id _ (mem_own.mpr hcall) (List.ne_nil_of_mem ht)

theorem Identified.bidCopies_ne (hi : Identified m t) {id : String}
    (hheld : heldId (own pid t) = some id) {bid : Bid} (hb : bid ∈ bidCopies m t) :
    bid.id ≠ id := by
  rintro rfl
  refine (hi.held pid bid.id hheld).2 (.inr ?_)
  rcases hb with hb | ⟨call, hcall, hb⟩
  · exact ⟨bid, hb, rfl⟩
  · exact hi.bidsRead call.pid _ (mem_own.mpr hcall) bid hb

/-- Postgres keeps the creation time of a bid, which the written copy has as well. -/
theorem mergeBid_asPlaced {backend : Backend} {old new : Bid} (h : old.asPlaced = new.asPlaced) :
    (Store.mergeBid backend old new).asPlaced = new.asPlaced := by
  cases backend with
  | inMemory => rfl
  | postgres =>
      have hcreated : old.asPlaced.createdAt = new.asPlaced.createdAt := by rw [h]
      unfold Store.mergeBid
      rw [show old.createdAt = new.createdAt from hcreated]

/-- A copy of a task after a call has a twin from before, or it is a task created by the call. -/
theorem task_twin (hc : j.Calls (own pid t) o) (hx : exec o c m = some (r, m')) {task : Task}
    (ht : task ∈ taskCopies m' (⟨pid, o, r⟩ :: t)) :
    (∃ old ∈ taskCopies m t, old.id = task.id ∧ old.asCreated = task.asCreated) ∨
      o = .saveTask task ∧ heldId (own pid t) = some task.id := by
  rcases taskCopies_call hx ht with hold | rfl
  · exact .inl ⟨task, hold, rfl, rfl⟩
  · rcases Job.saves hc with ⟨-, h', heq⟩ | hback
    · exact .inr ⟨rfl, by rw [heq]; rfl⟩
    · exact .inl hback.copy

theorem bid_twin (ha : Alike m t) (hi : Identified m t) (hc : j.Calls (own pid t) o)
    (hx : exec o c m = some (r, m')) {bid : Bid} (hb : bid ∈ bidCopies m' (⟨pid, o, r⟩ :: t)) :
    (∃ old ∈ bidCopies m t, old.id = bid.id ∧ old.asPlaced = bid.asPlaced) ∨
      o = .saveBid bid ∧ Places j (own pid t) bid := by
  rcases bidCopies_call hx hb with hold | ⟨row, rfl, hrow⟩
  · exact .inl ⟨bid, hold, rfl, rfl⟩
  · rcases Job.placesBid hc with hplaces | hback
    · rcases hrow with rfl | ⟨old, hold, hid, -⟩
      · exact .inr ⟨rfl, hplaces⟩
      · exact absurd hid (hi.bidCopies_ne hplaces.held (.inl hold))
    · obtain ⟨copy, hcopy, hid, hplaced⟩ := hback.copy (m := m)
      refine .inl ⟨copy, hcopy, ?_⟩
      rcases hrow with rfl | ⟨old, hold, hid', rfl⟩
      · exact ⟨hid, hplaced⟩
      · -- the stored row and the copy that is written back are alike
        have hold' : old.asPlaced = row.asPlaced :=
          (ha.bids old (.inl hold) copy hcopy (hid'.trans hid.symm)).trans hplaced
        exact ⟨hid.trans (Store.mergeBid_id _ _ _).symm,
          hplaced.trans (mergeBid_asPlaced hold').symm⟩

/-- **Copies go on to agree** after every call of the market. -/
theorem Alike.call (h : Alike m t) (hi : Identified m t) (hc : j.Calls (own pid t) o)
    (hx : exec o c m = some (r, m')) : Alike m' (⟨pid, o, r⟩ :: t) := by
  constructor
  · by_cases ho : ∃ row, o = .saveTask row
    · obtain ⟨row, rfl⟩ := ho
      refine h.tasks.step row fun a ha => (task_twin hc hx ha).imp_right ?_
      rintro ⟨heq, hheld⟩
      cases heq
      exact ⟨rfl, fun old hold => hi.taskCopies_ne hheld hold⟩
    · exact h.tasks.mono fun a ha => (taskCopies_call hx ha).resolve_right fun heq => ho ⟨a, heq⟩
  · by_cases ho : ∃ row, o = .saveBid row
    · obtain ⟨row, rfl⟩ := ho
      refine h.bids.step row fun a ha => (bid_twin h hi hc hx ha).imp_right ?_
      rintro ⟨heq, hplaces⟩
      cases heq
      exact ⟨rfl, fun old hold => hi.bidCopies_ne hplaces.held hold⟩
    · refine h.bids.mono fun a ha => (bidCopies_call hx ha).resolve_right ?_
      rintro ⟨row, heq, -⟩
      exact ho ⟨row, heq⟩

end

/-! ## What the processes know -/

/-- The selected bid among those the process has just read. -/
def bidInHand : Hist → Option Bid
  | ⟨.findBids _, .ok bids⟩ :: _ => winningBid bids
  | _ => none

/-- A read answers with rows of what it was asked for. -/
structure Answered (t : Trace Op Reply) : Prop where
  task : ∀ pid id task, ⟨pid, .findTask id, .ok (some task)⟩ ∈ t → task.id = id
  bids : ∀ pid id bids, ⟨pid, .findBids id, .ok bids⟩ ∈ t → ∀ bid ∈ bids, bid.taskId = id

/-- Rows keep their identity, copies agree, and reads answer what was asked. -/
structure Sound (m : Store) (t : Trace Op Reply) : Prop where
  identified : Identified m t
  alike : Alike m t
  answered : Answered t

theorem Sound.initial {m : Store} (tasks : m.tasks = []) (bids : m.bids = []) : Sound m [] where
  identified := .initial ⟨by simp [tasks], by simp [bids]⟩
  alike := .initial (by simp [tasks]) (by simp [bids])
  answered := ⟨fun _ _ _ h => absurd h List.not_mem_nil, fun _ _ _ h => absurd h List.not_mem_nil⟩

section

variable {o : Op} {c : Outcome} {m m' : Store} {r : Reply o} {t : Trace Op Reply} {pid : Nat}
  {j : Job}

theorem Answered.call (h : Answered t) (hx : exec o c m = some (r, m')) :
    Answered (⟨pid, o, r⟩ :: t) := by
  constructor
  · intro p id task hmem
    rcases List.mem_cons.mp hmem with heq | hmem
    · cases heq
      exact Store.findTask_id (congrArg Prod.fst (Option.some.inj (exec_ok hx)))
    · exact h.task p id task hmem
  · intro p id bids hmem
    rcases List.mem_cons.mp hmem with heq | hmem
    · cases heq
      cases exec_ok hx
      exact fun bid hb => (Store.mem_findBids.mp hb).2
    · exact h.bids p id bids hmem

theorem Sound.call (h : Sound m t) (hc : j.Calls (own pid t) o) (hx : exec o c m = some (r, m')) :
    Sound m' (⟨pid, o, r⟩ :: t) :=
  ⟨h.identified.call hc hx, h.alike.call h.identified hc hx, h.answered.call hx⟩

/-- The owner, the deadline and the reserve price of a task are the same in all copies. -/
theorem Sound.task_eq (h : Sound m t) {a b : Task} (ha : a ∈ taskCopies m t)
    (hb : b ∈ taskCopies m t) (hid : a.id = b.id) : a.asCreated = b.asCreated :=
  h.alike.tasks a ha b hb hid

theorem Sound.bid_eq (h : Sound m t) {a b : Bid} (ha : a ∈ bidCopies m t) (hb : b ∈ bidCopies m t)
    (hid : a.id = b.id) : a.asPlaced = b.asPlaced :=
  h.alike.bids a ha b hb hid

end

end TrustGate.Market
