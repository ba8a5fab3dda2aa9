import TrustGate.Market.Identity

set_option autoImplicit false

/-! # The status of a task moves forward

Every writer saves a full copy of a task it read some awaits earlier. The writers' own guards make
the status they write follow the status they read; what is stored may have changed since. The
statuses of a task move forward as long as each save finds the status its writer read, or one
that makes no difference (`UpToDate`). -/

namespace TrustGate.Market

open Resumption

/-! ## Moving forward -/

/-- What may happen to the stored status of a task: it is created `OPEN`, stays, or follows. -/
inductive StatusMoves : Option TaskStatus → Option TaskStatus → Prop
  | absent : StatusMoves none none
  | created : StatusMoves none (some .open)
  | same (s : TaskStatus) : StatusMoves (some s) (some s)
  | next (s s' : TaskStatus) (follows : s' ∈ s.next) : StatusMoves (some s) (some s')

instance : DecidableRel StatusMoves
  | none, none => .isTrue .absent
  | none, some s =>
      if h : s = .open then .isTrue (h ▸ .created)
      else .isFalse fun hm => by cases hm; exact h rfl
  | some _, none => .isFalse nofun
  | some s, some s' =>
      if h : s' = s ∨ s' ∈ s.next then
        .isTrue (if heq : s' = s then heq ▸ .same s' else .next s s' (h.resolve_left heq))
      else .isFalse fun hm => by cases hm <;> simp_all

theorem StatusMoves.refl (s : Option TaskStatus) : StatusMoves s s := by
  cases s with
  | none => exact .absent
  | some s => exact .same s

/-- The statuses stored for a task in the course of a schedule. -/
def statuses (taskId : String) (m : Store) (sched : List (Act Job Outcome)) :
    List (Option TaskStatus) :=
  (states market (.initial m) sched).map (·.statusOf taskId)

/-! ## Saves that are up to date -/

/-- The stored status `s` is the one that was read, the one to be written, or on the way from the
one to the other. -/
def fits (read written s : TaskStatus) : Bool :=
  s = read || s = written || (s = .completing && written = .completed)

/-- A save of `row` by `pid` finds a status that fits what `pid` read last. -/
def UpToDate (m : Store) (t : Trace Op Reply) (pid : Nat) (row : Task) : Prop :=
  ∀ s ∈ m.statusOf row.id, ∀ task ∈ lastRead row.id (own pid t), fits task.status row.status s

instance (m : Store) (t : Trace Op Reply) (pid : Nat) (row : Task) :
    Decidable (UpToDate m t pid row) :=
  inferInstanceAs (Decidable (∀ s ∈ m.statusOf row.id, _))

/-- If the call saves a task and takes effect, it is up to date. -/
def SavesUpToDate (m : Store) (t : Trace Op Reply) (pid : Nat) (o : Op) (c : Outcome) : Prop :=
  match o with
  | .saveTask row => c.fault.applies → UpToDate m t pid row
  | _ => True

instance (m : Store) (t : Trace Op Reply) (pid : Nat) (o : Op) (c : Outcome) :
    Decidable (SavesUpToDate m t pid o c) := by
  apply Op.casesOn (motive := fun o => Decidable (SavesUpToDate m t pid o c)) o <;> intros <;>
    unfold SavesUpToDate <;> infer_instance

/-- Any jobs, faults and crashes, with saves that are up to date. -/
abbrev upToDate : Regime Op Reply Job Outcome Store := ⟨fun _ => True, SavesUpToDate, True⟩

/-! ## One call, and a run -/

theorem fits_moves {read written s : TaskStatus} (hnext : written ∈ read.next)
    (hfits : fits read written s = true) : StatusMoves (some s) (some written) := by
  cases read <;> cases written <;> cases s <;> first
    | exact .same _
    | exact .next _ _ (by decide)
    | exact absurd hnext (by decide)
    | exact absurd hfits (by decide)

/-- A save that is up to date moves the status of its task forward, and no other. -/
theorem saveTask_moves {m : Store} {t : Trace Op Reply} {pid : Nat} {j : Job} {row : Task}
    (hi : Identified m t) (hc : j.Calls (own pid t) (.saveTask row))
    (hfresh : UpToDate m t pid row) (taskId : String) :
    StatusMoves (m.statusOf taskId) ((m.saveTask row).statusOf taskId) := by
  rw [Store.statusOf_saveTask]
  split_ifs with hid
  · subst hid
    rcases Job.saves hc with ⟨hopen, h', heq⟩ | ⟨task, htask, -, hnext⟩
    · -- the key is new, so there is no row yet
      have hnone : m.statusOf row.id = none := by
        unfold Store.statusOf
        cases hfind : m.findTask row.id with
        | none => rfl
        | some old =>
            have hheld : heldId (own pid t) = some row.id := by rw [heq]; rfl
            exact absurd (.inl ⟨old, List.mem_of_find?_eq_some hfind, Store.findTask_id hfind⟩)
              (hi.held pid row.id hheld).2
      rw [hnone, hopen]
      exact .created
    · obtain ⟨d, hd, hread⟩ := exists_read_of_mem_lastRead htask
      obtain ⟨old, hold, hid⟩ := hi.tasksRead pid row.id d hd hread
      obtain ⟨s, hs⟩ := Store.exists_statusOf hold hid
      rw [hs]
      exact fits_moves hnext (hfresh s hs task htask)
  · exact .refl _

/-- **Every status moves forward** in a run whose saves are up to date, whatever fails or
crashes. -/
theorem statuses_forward (m : Store) (keys : m.KeysIssued) (sched : List (Act Job Outcome))
    (fresh : Meets market upToDate (.initial m) sched) (taskId : String) :
    (statuses taskId m sched).IsChain StatusMoves := by
  unfold statuses
  rw [List.isChain_map]
  refine states_chain (I := Identified) (Q := Job.Ended) (fun j _ => body_follows j) ?_
    (fun _ _ _ => .refl _) sched _ (.initial keys) (.initial m) fresh
  intro m t pid j o c r m' hi _ hc hcall hx
  refine ⟨hi.call hc hx, ?_⟩
  by_cases ho : ∃ row, o = .saveTask row
  · obtain ⟨row, rfl⟩ := ho
    rcases exec_saveTask hx with ⟨-, rfl⟩ | ⟨hf, rfl⟩
    · exact .refl _
    · exact saveTask_moves hi hc (hcall hf) taskId
  · rw [Store.statusOf_congr (exec_tasks hx fun row heq => ho ⟨row, heq⟩)]
    exact .refl _

/-! ## A sweep overtakes a completion -/

/-- A task whose deadline has passed, assigned to the executor of its one bid. -/
def lateTask : Task := ⟨"t", "R", 10000000, "work", 0, .assigned⟩

def lateStore : Store where
  backend := .postgres
  tasks := [lateTask]
  bids := [⟨"b", "t", "E", 8000000, 2000000, "e", .selected, 0⟩]
  results := []
  outbox := []
  consumptions := []
  stream := ⟨[], 0, 0, []⟩
  issued := ["t", "b"]

/-- The next call of `pid` succeeds. -/
def goes (pid : Nat) : Act Job Outcome := .run pid {}

/-- The sweep, from its look at the clock to the save of the expired task. -/
def sweeps (pid : Nat) : List (Act Job Outcome) :=
  [.run pid { now := 1 }, goes pid, goes pid, goes pid, goes pid]

def completeLate : Job := .complete {} "t" (.ok ⟨"R", ""⟩)

theorem late_task_expires :
    (statuses "t" lateStore (.spawn (.runOnce {}) :: sweeps 0)).IsChain StatusMoves :=
  statuses_forward lateStore ⟨by decide, by decide⟩ _ (by decide +kernel) "t"

/-- The completion reads the task, the sweep expires it, the completion saves its copy: from
`EXPIRED` the task goes to `COMPLETING`. -/
theorem expired_task_revived :
    ¬ (statuses "t" lateStore
      (.spawn completeLate :: goes 0 :: goes 0 :: .spawn (.runOnce {}) :: sweeps 1 ++
        [goes 0])).IsChain StatusMoves := by
  decide +kernel

end TrustGate.Market
