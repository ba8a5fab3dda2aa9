import TrustGate.Market.WorkerCalls

set_option autoImplicit false

/-! # What an operation leaves and answers

Lookups after an `upsert`, which tables an operation can change, and what the reads answer. -/

namespace TrustGate.Market

open Resumption

/-! ## Tables -/

section

variable {ρ : Type} {key : ρ → String} {merge : ρ → ρ → ρ}

/-- The row of a key after an `upsert`. -/
theorem find?_upsert (hmerge : ∀ old new, key (merge old new) = key new) (row : ρ) (rows : List ρ)
    (k : String) :
    (upsert key merge row rows).find? (fun r => key r = k) =
      if k = key row then some ((rows.find? fun r => key r = k).elim row fun old => merge old row)
      else rows.find? fun r => key r = k := by
  induction rows with
  | nil =>
      by_cases hk : k = key row
      · simp [upsert, hk]
      · simp [upsert, hk, Ne.symm hk]
  | cons old rows ih =>
      unfold upsert
      by_cases hold : key old = key row
      · rw [if_pos hold]
        by_cases hk : k = key row
        · simp [hk, hold, hmerge]
        · have h1 : key row ≠ k := Ne.symm hk
          simp [hk, hold, hmerge, h1]
      · rw [if_neg hold, List.find?_cons, List.find?_cons]
        by_cases hk : key old = k
        · have : k ≠ key row := hk ▸ hold
          simp [hk, this]
        · simp only [hk, decide_false]
          exact ih

/-- A row after an `upsert` is an old one or the one written, under its key. -/
theorem mem_upsert {row r : ρ} {rows : List ρ} (hr : r ∈ upsert key merge row rows) :
    r ∈ rows ∨ r = row ∨ ∃ old ∈ rows, key old = key row ∧ r = merge old row := by
  induction rows with
  | nil =>
      rw [upsert, List.mem_singleton] at hr
      exact .inr (.inl hr)
  | cons old rows ih =>
      unfold upsert at hr
      split_ifs at hr with hold
      · rcases List.mem_cons.mp hr with rfl | hr
        · exact .inr (.inr ⟨old, by simp, hold, rfl⟩)
        · exact .inl (by simp [hr])
      · rcases List.mem_cons.mp hr with rfl | hr
        · exact .inl (by simp)
        · rcases ih hr with hr | hr | ⟨o, ho, hk, rfl⟩
          · exact .inl (by simp [hr])
          · exact .inr (.inl hr)
          · exact .inr (.inr ⟨o, by simp [ho], hk, rfl⟩)

/-- An `upsert` of a new key appends. -/
theorem upsert_of_new {row : ρ} {rows : List ρ} (h : ∀ r ∈ rows, key r ≠ key row) :
    upsert key merge row rows = rows ++ [row] := by
  induction rows with
  | nil => rfl
  | cons old rows ih =>
      rw [upsert, if_neg (h old (by simp)), ih fun r hr => h r (by simp [hr])]
      rfl

/-- An `upsert` of a key in use updates its row. -/
theorem upsert_of_key {row old : ρ} {rows : List ρ} (hkeys : (rows.map key).Nodup)
    (hold : old ∈ rows) (hkey : key old = key row) :
    upsert key merge row rows =
      rows.map fun r => if key r = key row then merge r row else r := by
  induction rows with
  | nil => cases hold
  | cons r rows ih =>
      rw [List.map_cons, List.nodup_cons] at hkeys
      rw [upsert, List.map_cons]
      split_ifs with hr
      · -- no other row has the key
        have hrest : rows.map (fun r => if key r = key row then merge r row else r) = rows.map id :=
          List.map_congr_left fun r' hr' => if_neg fun heq =>
            hkeys.1 (List.mem_map.mpr ⟨r', hr', heq.trans hr.symm⟩)
        rw [hrest, List.map_id]
      · congr 1
        refine ih hkeys.2 ?_
        rcases List.mem_cons.mp hold with rfl | hold
        · exact absurd hkey hr
        · exact hold

/-- An `upsert` drops no key. -/
theorem exists_key_upsert (hmerge : ∀ old new, key (merge old new) = key new) {row r : ρ}
    {rows : List ρ} (hr : r ∈ rows) : ∃ r' ∈ upsert key merge row rows, key r' = key r := by
  induction rows with
  | nil => cases hr
  | cons old rows ih =>
      unfold upsert
      by_cases hold : key old = key row
      · rw [if_pos hold]
        rcases List.mem_cons.mp hr with rfl | hr
        · exact ⟨_, List.mem_cons_self, by rw [hmerge, hold]⟩
        · exact ⟨r, List.mem_cons_of_mem _ hr, rfl⟩
      · rw [if_neg hold]
        rcases List.mem_cons.mp hr with rfl | hr
        · exact ⟨r, List.mem_cons_self, rfl⟩
        · obtain ⟨r', hr', hkey⟩ := ih hr
          exact ⟨r', List.mem_cons_of_mem _ hr', hkey⟩

/-- An `upsert` keeps keys distinct. -/
theorem nodup_upsert (hmerge : ∀ old new, key (merge old new) = key new) (row : ρ)
    {rows : List ρ} (hkeys : (rows.map key).Nodup) :
    ((upsert key merge row rows).map key).Nodup := by
  by_cases hused : ∃ old ∈ rows, key old = key row
  · obtain ⟨old, hold, hkey⟩ := hused
    rw [upsert_of_key hkeys hold hkey, List.map_map]
    refine (List.map_congr_left fun r _ => ?_).symm ▸ hkeys
    simp only [Function.comp]
    split_ifs with hr
    · rw [hmerge, hr]
    · rfl
  · rw [upsert_of_new fun r hr heq => hused ⟨r, hr, heq⟩, List.map_append]
    refine List.nodup_append.mpr ⟨hkeys, List.nodup_singleton _, ?_⟩
    intro a ha b hb heq
    obtain ⟨r, hr, rfl⟩ := List.mem_map.mp ha
    exact hused ⟨r, hr, heq.trans (List.mem_singleton.mp hb)⟩

end

namespace Store

@[simp] theorem findTask_saveTask (m : Store) (task : Task) (id : String) :
    (m.saveTask task).findTask id = if id = task.id then some task else m.findTask id := by
  unfold saveTask findTask
  rw [find?_upsert (fun _ _ => rfl)]
  cases m.tasks.find? fun r => r.id = id <;> rfl

theorem findTask_id {m : Store} {id : String} {task : Task} (h : m.findTask id = some task) :
    task.id = id := by
  simpa using List.find?_some h

theorem mergeBid_id (backend : Backend) (old new : Bid) : (mergeBid backend old new).id = new.id := by
  cases backend <;> rfl

theorem mergeBid_status (backend : Backend) (old new : Bid) :
    (mergeBid backend old new).status = new.status := by
  cases backend <;> rfl

/-- The status stored for a task. -/
def statusOf (m : Store) (taskId : String) : Option TaskStatus :=
  (m.findTask taskId).map Task.status

theorem statusOf_saveTask (m : Store) (task : Task) (id : String) :
    (m.saveTask task).statusOf id = if id = task.id then some task.status else m.statusOf id := by
  unfold statusOf
  rw [findTask_saveTask]
  split_ifs <;> rfl

theorem statusOf_congr {m m' : Store} (h : m'.tasks = m.tasks) (id : String) :
    m'.statusOf id = m.statusOf id := by
  rw [statusOf, statusOf, findTask, findTask, h]

theorem exists_statusOf {m : Store} {task : Task} {id : String} (h : task ∈ m.tasks)
    (hid : task.id = id) : ∃ s, m.statusOf id = some s := by
  unfold statusOf findTask
  cases hfind : m.tasks.find? fun task => task.id = id with
  | none => exact absurd hid (by simpa using List.find?_eq_none.mp hfind task h)
  | some row => exact ⟨row.status, rfl⟩

theorem mem_listTasks {m : Store} {task : Task} : task ∈ m.listTasks ↔ task ∈ m.tasks := by
  unfold listTasks
  cases m.backend <;> simp

theorem mem_findBids {m : Store} {taskId : String} {bid : Bid} :
    bid ∈ m.findBids taskId ↔ bid ∈ m.bids ∧ bid.taskId = taskId := by
  unfold findBids
  cases m.backend <;> simp

end Store

/-! ## Operations -/

/-- The call takes effect. -/
def Fault.applies : Fault → Bool
  | .refused _ => false
  | _ => true

section

variable {o : Op} {c : Outcome} {m m' : Store} {r : Reply o}

/-- A refused call changes nothing, and any other does what `perform` does. -/
theorem exec_cases (h : exec o c m = some (r, m')) :
    (c.fault.applies = false ∧ m' = m ∧ ∃ e, r = .error e) ∨
    (c.fault.applies = true ∧ ∃ v, perform c m o = some (v, m') ∧
      (r = .ok v ∧ c.fault = .none ∨ ∃ e, r = .error e ∧ c.fault = .lost e)) := by
  unfold exec at h
  cases hf : c.fault with
  | none =>
      rw [hf] at h
      obtain ⟨⟨v, s⟩, hp, heq⟩ := Option.map_eq_some_iff.mp h
      cases heq
      exact .inr ⟨rfl, v, hp, .inl ⟨rfl, rfl⟩⟩
  | refused e =>
      rw [hf] at h
      dsimp only at h
      split_ifs at h
      cases h
      exact .inl ⟨rfl, rfl, e, rfl⟩
  | lost e =>
      rw [hf] at h
      dsimp only at h
      split_ifs at h
      obtain ⟨⟨v, s⟩, hp, heq⟩ := Option.map_eq_some_iff.mp h
      cases heq
      exact .inr ⟨rfl, v, hp, .inr ⟨e, rfl, rfl⟩⟩

/-- Only for the clock and the UUID source there are outcomes that cannot be. -/
theorem exec_ne_none (ho : o.isLocal = false) : exec o c m ≠ none := by
  have hperform : (perform c m o).isSome = true := by
    cases o with
    | randomUUID => cases ho
    | _ => rfl
  obtain ⟨rs, hrs⟩ := Option.isSome_iff_exists.mp hperform
  unfold exec
  rw [hrs, ho]
  cases c.fault <;> simp

/-- A call that got a value was carried out. -/
theorem exec_ok {v : Value o} (h : exec o c m = some (.ok v, m')) : perform c m o = some (v, m') := by
  rcases exec_cases h with ⟨-, -, e, he⟩ | ⟨-, v', hp, ⟨hv, -⟩ | ⟨e, he, -⟩⟩
  · cases he
  · cases hv; exact hp
  · cases he

/-- A call that does not fail is carried out and answered. -/
theorem exec_calm (h : exec o c m = some (r, m')) (hf : c.fault = .none) :
    ∃ v, perform c m o = some (v, m') ∧ r = .ok v := by
  rcases exec_cases h with ⟨happlies, -, -⟩ | ⟨-, v, hp, ⟨hr, -⟩ | ⟨e, -, hlost⟩⟩
  · rw [hf] at happlies
    cases happlies
  · exact ⟨v, hp, hr⟩
  · cases hf.symm.trans hlost

/-- A call that got a value did not fail. -/
theorem fault_of_ok {v : Value o} (h : exec o c m = some (.ok v, m')) : c.fault = .none := by
  rcases exec_cases h with ⟨-, -, e, he⟩ | ⟨-, v', -, ⟨-, hf⟩ | ⟨e, he, -⟩⟩
  · cases he
  · exact hf
  · cases he

end

theorem tryStart_frame (m : Store) (args : StartArgs) (now : Nat) :
    ∃ rows, (m.tryStart args now).2 = { m with consumptions := rows } := by
  unfold Store.tryStart
  cases m.findConsumption args.handlerName args.eventId with
  | none => exact ⟨_, rfl⟩
  | some existing =>
      dsimp only
      split_ifs
      · exact ⟨m.consumptions, rfl⟩
      · exact ⟨_, rfl⟩

/-- What an operation leaves alone: each part of the store is changed only by the operations meant for
it. -/
structure Frame (o : Op) (m m' : Store) : Prop where
  backend : m'.backend = m.backend
  tasks : (∀ task, o ≠ .saveTask task) → m'.tasks = m.tasks
  bids : (∀ bid, o ≠ .saveBid bid) → m'.bids = m.bids
  results : (∀ taskId payload hash, o ≠ .upsertResult taskId payload hash) → m'.results = m.results
  outbox : (∀ event, o ≠ .insertEvent event) → (∀ id, o ≠ .markEventProcessed id) →
    (∀ id error, o ≠ .markEventFailed id error) → m'.outbox = m.outbox
  consumptions : (∀ args, o ≠ .tryStart args) → (∀ hn e, o ≠ .markSucceeded hn e) →
    (∀ hn e x t, o ≠ .markFailed hn e x t) → m'.consumptions = m.consumptions
  stream : (∀ event, o ≠ .xAdd event) → (∀ consumer count, o ≠ .xReadGroup consumer count) →
    (∀ consumer cursor count, o ≠ .xAutoClaim consumer cursor count) → (∀ id, o ≠ .xAck id) →
    m'.stream = m.stream
  issued : o ≠ .randomUUID → m'.issued = m.issued

theorem perform_frame {o : Op} {c : Outcome} {m m' : Store} {v : Value o}
    (h : perform c m o = some (v, m')) : Frame o m m' := by
  cases o with
  | tryStart args =>
      obtain ⟨rows, hrows⟩ := tryStart_frame m args c.now
      have hm : m' = { m with consumptions := rows } := by
        rw [← hrows]; exact (congrArg Prod.snd (Option.some.inj h)).symm
      subst hm
      constructor <;> simp
  | randomUUID =>
      simp only [perform] at h
      split_ifs at h
      cases h
      constructor <;> simp
  | _ =>
      cases h
      constructor <;> simp [Store.saveTask, Store.saveBid, Store.upsertResult, Store.insertEvent,
        Store.markEventProcessed, Store.markEventFailed, Store.markSucceeded, Store.markFailed,
        Store.updateConsumption]

section

variable {o : Op} {c : Outcome} {m m' : Store} {r : Reply o}

/-- Only `saveTask` changes the tasks. -/
theorem exec_tasks (h : exec o c m = some (r, m')) (ho : ∀ task, o ≠ .saveTask task) :
    m'.tasks = m.tasks := by
  rcases exec_cases h with ⟨-, rfl, -⟩ | ⟨-, v, hp, -⟩
  · rfl
  · exact (perform_frame hp).tasks ho

/-- Only `saveBid` changes the bids. -/
theorem exec_bids (h : exec o c m = some (r, m')) (ho : ∀ bid, o ≠ .saveBid bid) :
    m'.bids = m.bids ∧ m'.backend = m.backend := by
  rcases exec_cases h with ⟨-, rfl, -⟩ | ⟨-, v, hp, -⟩
  · exact ⟨rfl, rfl⟩
  · exact ⟨(perform_frame hp).bids ho, (perform_frame hp).backend⟩

/-- Only `upsertResult` changes the results. -/
theorem exec_results (h : exec o c m = some (r, m'))
    (ho : ∀ taskId payload hash, o ≠ .upsertResult taskId payload hash) :
    m'.results = m.results := by
  rcases exec_cases h with ⟨-, rfl, -⟩ | ⟨-, v, hp, -⟩
  · rfl
  · exact (perform_frame hp).results ho

/-- Only `randomUUID` issues a UUID. -/
theorem exec_issued (h : exec o c m = some (r, m')) (ho : o ≠ .randomUUID) :
    m'.issued = m.issued := by
  rcases exec_cases h with ⟨-, rfl, -⟩ | ⟨-, v, hp, -⟩
  · rfl
  · exact (perform_frame hp).issued ho

/-- A save is refused or stores the row. -/
theorem exec_saveTask {task : Task} {r : Reply (.saveTask task)}
    (h : exec (.saveTask task) c m = some (r, m')) :
    (c.fault.applies = false ∧ m' = m) ∨ (c.fault.applies = true ∧ m' = m.saveTask task) := by
  rcases exec_cases h with ⟨hf, rfl, -⟩ | ⟨hf, v, hp, -⟩
  · exact .inl ⟨hf, rfl⟩
  · cases hp; exact .inr ⟨hf, rfl⟩

theorem exec_saveBid {bid : Bid} {r : Reply (.saveBid bid)}
    (h : exec (.saveBid bid) c m = some (r, m')) :
    (c.fault.applies = false ∧ m' = m) ∨ (c.fault.applies = true ∧ m' = m.saveBid bid) := by
  rcases exec_cases h with ⟨hf, rfl, -⟩ | ⟨hf, v, hp, -⟩
  · exact .inl ⟨hf, rfl⟩
  · cases hp; exact .inr ⟨hf, rfl⟩

/-- A task afterwards is one from before or the one saved. -/
theorem mem_tasks_exec {task : Task} (h : exec o c m = some (r, m')) (ht : task ∈ m'.tasks) :
    task ∈ m.tasks ∨ o = .saveTask task := by
  by_cases ho : ∃ row, o = .saveTask row
  · obtain ⟨row, rfl⟩ := ho
    rcases exec_saveTask h with ⟨-, rfl⟩ | ⟨-, rfl⟩
    · exact .inl ht
    · rcases mem_upsert ht with hmem | rfl | ⟨_, _, _, rfl⟩
      · exact .inl hmem
      · exact .inr rfl
      · exact .inr rfl
  · rw [exec_tasks h fun row heq => ho ⟨row, heq⟩] at ht
    exact .inl ht

/-- A bid afterwards is one from before or has the key of the one saved. -/
theorem mem_bids_exec {bid : Bid} (h : exec o c m = some (r, m')) (hb : bid ∈ m'.bids) :
    bid ∈ m.bids ∨ ∃ row, o = .saveBid row ∧ row.id = bid.id := by
  by_cases ho : ∃ row, o = .saveBid row
  · obtain ⟨row, rfl⟩ := ho
    rcases exec_saveBid h with ⟨-, rfl⟩ | ⟨-, rfl⟩
    · exact .inl hb
    · rcases mem_upsert hb with hmem | rfl | ⟨_, _, _, rfl⟩
      · exact .inl hmem
      · exact .inr ⟨_, rfl, rfl⟩
      · exact .inr ⟨row, rfl, (Store.mergeBid_id _ _ _).symm⟩
  · rw [(exec_bids h fun row heq => ho ⟨row, heq⟩).1] at hb
    exact .inl hb

/-- No task disappears. -/
theorem exists_task_exec {task : Task} (h : exec o c m = some (r, m')) (ht : task ∈ m.tasks) :
    ∃ row ∈ m'.tasks, row.id = task.id := by
  by_cases ho : ∃ row, o = .saveTask row
  · obtain ⟨row, rfl⟩ := ho
    rcases exec_saveTask h with ⟨-, rfl⟩ | ⟨-, rfl⟩
    · exact ⟨task, ht, rfl⟩
    · exact exists_key_upsert (fun _ _ => rfl) ht
  · rw [exec_tasks h fun row heq => ho ⟨row, heq⟩]
    exact ⟨task, ht, rfl⟩

/-- No bid disappears. -/
theorem exists_bid_exec {bid : Bid} (h : exec o c m = some (r, m')) (hb : bid ∈ m.bids) :
    ∃ row ∈ m'.bids, row.id = bid.id := by
  by_cases ho : ∃ row, o = .saveBid row
  · obtain ⟨row, rfl⟩ := ho
    rcases exec_saveBid h with ⟨-, rfl⟩ | ⟨-, rfl⟩
    · exact ⟨bid, hb, rfl⟩
    · exact exists_key_upsert (Store.mergeBid_id _) hb
  · rw [(exec_bids h fun row heq => ho ⟨row, heq⟩).1]
    exact ⟨bid, hb, rfl⟩

end

end TrustGate.Market
