import TrustGate.Market.Bids

set_option autoImplicit false

/-! # One winner per task

Every bid request selects a winner for its task, and so does the operator. Selections of one task
that read the same bids write the same verdicts, in whatever order. So the outcome is one winner if
no bid is placed between a selection's look at the bids and its save of the task, and no selection
looks at bids some of which are judged already. -/

namespace TrustGate.Market

open Resumption

/-! ## What is to hold -/

/-- An `OPEN` task has no judged bid; any other one has a single selected bid and no pending
one. -/
def Store.DecidedAt (m : Store) (taskId : String) : Prop :=
  ∀ s, m.statusOf taskId = some s →
    if s = .open then
      ∀ bid ∈ m.bids, bid.taskId = taskId → bid.status ≠ .selected ∧ bid.status ≠ .rejected
    else
      m.bids.countP (fun bid => bid.taskId = taskId ∧ bid.status = .selected) = 1 ∧
        ∀ bid ∈ m.bids, bid.taskId = taskId → bid.status ≠ .pending

instance (m : Store) (taskId : String) : Decidable (m.DecidedAt taskId) :=
  inferInstanceAs (Decidable (∀ s ∈ m.statusOf taskId, _))

/-! ## Taking turns -/

/-- The process has read pending bids of the task to select a winner, and has not saved the task
yet. -/
def selecting (taskId : String) : Hist → Bool
  | [] => false
  | d :: h =>
      match d.op, d.reply with
      | .saveTask row, .ok _ => row.id ≠ taskId && selecting taskId h
      | .findBids id, .ok bids =>
          (id = taskId && !(pendingBids bids).isEmpty) || selecting taskId h
      | _, _ => selecting taskId h

/-- A selection does not read bids of which some are judged and some are not, and a bid is saved
only while its task is `OPEN` and nobody is selecting. Nothing fails. -/
def TakesTurn (m : Store) (t : Trace Op Reply) (_ : Nat) (o : Op) (c : Outcome) : Prop :=
  c.fault = .none ∧ match o with
  | .findBids taskId =>
      (∀ bid ∈ m.bids, bid.taskId = taskId → bid.status = .pending) ∨
        ∀ bid ∈ m.bids, bid.taskId = taskId → bid.status ≠ .pending
  | .saveBid row =>
      row.status = .pending → m.statusOf row.taskId = some .open ∧
        ∀ call ∈ t, selecting row.taskId (own call.pid t) = false
  | _ => True

instance (m : Store) (t : Trace Op Reply) (pid : Nat) (o : Op) (c : Outcome) :
    Decidable (TakesTurn m t pid o c) := by
  apply Op.casesOn (motive := fun o => Decidable (TakesTurn m t pid o c)) o <;> intros <;>
    unfold TakesTurn <;> infer_instance

/-- Bid requests and selections that take turns; nothing fails or crashes. -/
abbrev auctioning : Regime Op Reply Job Outcome Store :=
  ⟨fun j => j.auctions = true, TakesTurn, False⟩

/-! ## The invariant -/

/-- Somebody has read the bids of the task, some of them pending. -/
def Auctioned (t : Trace Op Reply) (taskId : String) (bids : List Bid) : Prop :=
  (∃ pid, (⟨pid, .findBids taskId, .ok bids⟩ : Call Op Reply) ∈ t) ∧ pendingBids bids ≠ []

/-- Somebody has saved the task. -/
def Assigned (t : Trace Op Reply) (taskId : String) : Prop :=
  ∃ pid row, (⟨pid, .saveTask row, .ok ()⟩ : Call Op Reply) ∈ t ∧ row.id = taskId

structure InTurn (m : Store) (t : Trace Op Reply) : Prop where
  identified : Identified m t
  distinct : (m.bids.map Bid.id).Nodup
  replied : ∀ c ∈ t, ∃ v, c.reply = .ok v
  found : ∀ pid id (task : Task), ⟨pid, .findTask id, .ok (some task)⟩ ∈ t →
    task.id = id ∧ (task.status = .open → m.statusOf id = some .open ∨ Assigned t id)
  assigned : ∀ taskId, Assigned t taskId → m.statusOf taskId = some .assigned
  opened : ∀ taskId bids, Auctioned t taskId bids →
    m.statusOf taskId = some .open ∨ Assigned t taskId
  placed : ∀ taskId bids, Auctioned t taskId bids →
    (m.findBids taskId).map Bid.asPlaced = bids
  judged : ∀ taskId bids winner, Auctioned t taskId bids → auctionWinner bids = some winner →
    ∀ bid ∈ m.bids, bid.taskId = taskId → bid.status = .pending ∨ bid.status = verdict winner bid
  waiting : ∀ taskId bids, Auctioned t taskId bids → ¬ Assigned t taskId →
    ∀ bid ∈ m.bids, bid.taskId = taskId → bid.status = .pending
  idle : ∀ taskId, (∀ bids, ¬ Auctioned t taskId bids) → m.DecidedAt taskId
  written : ∀ pid (row : Bid), ⟨pid, .saveBid row, .ok ()⟩ ∈ t → row.status ≠ .pending →
    ∃ bid ∈ m.bids, bid.id = row.id ∧ bid.status ≠ .pending

theorem InTurn.initial {m : Store} (keys : m.KeysIssued) (distinct : (m.bids.map Bid.id).Nodup)
    (start : ∀ taskId, m.DecidedAt taskId) : InTurn m [] where
  identified := .initial keys
  distinct := distinct
  replied := fun _ hc => nomatch hc
  found := fun _ _ _ hc => nomatch hc
  assigned := fun _ ⟨_, _, hc, _⟩ => nomatch hc
  opened := fun _ _ ⟨⟨_, hc⟩, _⟩ => nomatch hc
  placed := fun _ _ ⟨⟨_, hc⟩, _⟩ => nomatch hc
  judged := fun _ _ _ ⟨⟨_, hc⟩, _⟩ => nomatch hc
  waiting := fun _ _ ⟨⟨_, hc⟩, _⟩ => nomatch hc
  idle := fun taskId _ => start taskId
  written := fun _ _ hc => nomatch hc

/-! ## Bookkeeping of the trace -/

section

variable {t : Trace Op Reply} {pid : Nat} {o : Op} {r : Reply o} {taskId : String}
  {bids : List Bid}

theorem auctioned_cons (h : ∀ id bids, o = .findBids id → pendingBids bids ≠ [] →
      ¬ (⟨o, r⟩ : Done Op Reply) = ⟨.findBids id, .ok bids⟩) :
    Auctioned (⟨pid, o, r⟩ :: t) taskId bids ↔ Auctioned t taskId bids := by
  unfold Auctioned
  refine and_congr_left fun hp => exists_congr fun pid' => ?_
  rw [List.mem_cons]
  refine or_iff_right ?_
  intro heq
  cases heq
  exact h taskId bids rfl hp rfl

theorem auctioned_mono (h : Auctioned t taskId bids) : Auctioned (⟨pid, o, r⟩ :: t) taskId bids :=
  ⟨h.1.imp fun _ => List.mem_cons_of_mem _, h.2⟩

theorem assigned_cons (h : ∀ row, o ≠ .saveTask row) :
    Assigned (⟨pid, o, r⟩ :: t) taskId ↔ Assigned t taskId := by
  unfold Assigned
  refine exists_congr fun pid' => exists_congr fun row => and_congr_left fun _ => ?_
  rw [List.mem_cons]
  refine or_iff_right ?_
  intro heq
  cases heq
  exact h row rfl

/-- Who has read pending bids of a task is selecting, or has saved the task. -/
theorem selecting_or_assigned (h : (⟨pid, .findBids taskId, .ok bids⟩ : Call Op Reply) ∈ t)
    (hp : pendingBids bids ≠ []) :
    selecting taskId (own pid t) = true ∨ Assigned t taskId := by
  -- by induction on the process's own past: only a save of the task ends the selection
  suffices ∀ h : Hist, (⟨.findBids taskId, .ok bids⟩ : Done Op Reply) ∈ h →
      selecting taskId h = true ∨
        ∃ row, (⟨.saveTask row, .ok ()⟩ : Done Op Reply) ∈ h ∧ row.id = taskId by
    refine (this (own pid t) (mem_own.mpr h)).imp_right ?_
    rintro ⟨row, hrow, hid⟩
    exact ⟨pid, row, mem_own.mp hrow, hid⟩
  clear h
  intro h hmem
  induction h with
  | nil => cases hmem
  | cons d h ih =>
      rcases List.mem_cons.mp hmem with rfl | hmem
      · refine .inl ?_
        rw [selecting]
        simp [hp]
      · rcases ih hmem with hs | ⟨row, hrow, hid⟩
        · obtain ⟨o, r⟩ := d
          rw [selecting]
          split
          · rename_i row v ho hr
            cases ho
            cases eq_of_heq hr
            by_cases hid : row.id = taskId
            · exact .inr ⟨row, List.mem_cons_self, hid⟩
            · exact .inl (by simp [hid, hs])
          · exact .inl (by simp [hs])
          · exact .inl hs
        · exact .inr ⟨row, List.mem_cons_of_mem _ hrow, hid⟩

end

/-! ## One call -/

section

variable {m m' : Store} {t : Trace Op Reply} {pid : Nat} {j : Job} {taskId : String}

/-- A call that neither reads nor saves. -/
theorem InTurn.frame {o : Op} {v : Value o} (h : InTurn m t)
    (hident : Identified m' (⟨pid, o, .ok v⟩ :: t)) (htasks : m'.tasks = m.tasks)
    (hbids : m'.bids = m.bids) (hbackend : m'.backend = m.backend)
    (hread : ∀ id, o ≠ .findBids id) (hsave : ∀ row, o ≠ .saveTask row)
    (hsaveBid : ∀ row, o ≠ .saveBid row)
    (hfound : ∀ id (task : Task), (⟨o, .ok v⟩ : Done Op Reply) = ⟨.findTask id, .ok (some task)⟩ →
      task.id = id ∧ (task.status = .open → m.statusOf id = some .open)) :
    InTurn m' (⟨pid, o, .ok v⟩ :: t) := by
  have hstatus := Store.statusOf_congr htasks
  have hfind : ∀ id, m'.findBids id = m.findBids id := by
    intro id
    unfold Store.findBids
    rw [hbids, hbackend]
  -- neither the reads that matter nor the saves have changed
  have hauction : ∀ {id bids}, Auctioned (⟨pid, o, .ok v⟩ :: t) id bids ↔ Auctioned t id bids :=
    auctioned_cons fun id _ ho => absurd ho (hread id)
  have hassigned : ∀ {id}, Assigned (⟨pid, o, .ok v⟩ :: t) id ↔ Assigned t id :=
    assigned_cons hsave
  refine ⟨hident, by rw [hbids]; exact h.distinct, ?_, ?_, ?_, ?_, ?_, ?_, ?_, ?_, ?_⟩
  · rintro c (_ | ⟨_, hc⟩)
    · exact ⟨v, rfl⟩
    · exact h.replied c hc
  · intro pid' id task hmem
    rw [hstatus, hassigned]
    rcases List.mem_cons.mp hmem with heq | hmem
    · cases heq
      obtain ⟨hid, hopen⟩ := hfound id task rfl
      exact ⟨hid, fun hs => .inl (hopen hs)⟩
    · exact h.found pid' id task hmem
  · intro id ha
    rw [hstatus]
    exact h.assigned id (hassigned.mp ha)
  · intro id bids ha
    rw [hstatus, hassigned]
    exact h.opened id bids (hauction.mp ha)
  · intro id bids ha
    rw [hfind]
    exact h.placed id bids (hauction.mp ha)
  · intro id bids winner ha
    rw [hbids]
    exact h.judged id bids winner (hauction.mp ha)
  · intro id bids ha hno
    rw [hbids]
    exact h.waiting id bids (hauction.mp ha) fun ha => hno (hassigned.mpr ha)
  · intro id hno
    unfold Store.DecidedAt
    rw [hstatus, hbids]
    exact h.idle id fun bids ha => hno bids (hauction.mpr ha)
  · intro pid' row hmem
    rw [hbids]
    rcases List.mem_cons.mp hmem with heq | hmem
    · cases heq
      exact absurd rfl (hsaveBid row)
    · exact h.written pid' row hmem

/-- A look at the bids, all of them pending or none. -/
theorem InTurn.findBids {c : Outcome} (h : InTurn m t) (hj : j.auctions = true)
    (hc : j.Calls (own pid t) (.findBids taskId)) (hcall : TakesTurn m t pid (.findBids taskId) c)
    (hident : Identified m (⟨pid, .findBids taskId, .ok (m.findBids taskId)⟩ :: t)) :
    InTurn m (⟨pid, .findBids taskId, .ok (m.findBids taskId)⟩ :: t) := by
  have hassigned : ∀ {id}, Assigned (⟨pid, .findBids taskId, .ok (m.findBids taskId)⟩ :: t) id ↔
      Assigned t id := assigned_cons (by simp)
  -- an auction is an earlier one, or it is this one and nothing is judged
  have hauction : ∀ {id bids},
      Auctioned (⟨pid, .findBids taskId, .ok (m.findBids taskId)⟩ :: t) id bids →
      Auctioned t id bids ∨ (id = taskId ∧ bids = m.findBids taskId ∧
        ∀ bid ∈ m.bids, bid.taskId = taskId → bid.status = .pending) := by
    rintro id bids ⟨⟨pid', hmem⟩, hp⟩
    rcases List.mem_cons.mp hmem with heq | hmem
    · cases heq
      refine .inr ⟨rfl, rfl, hcall.2.resolve_right fun hnone => hp ?_⟩
      rw [pendingBids, List.filter_eq_nil_iff]
      intro bid hbid
      rw [decide_eq_true_eq]
      exact hnone bid (Store.mem_findBids.mp hbid).1 (Store.mem_findBids.mp hbid).2
    · exact .inl ⟨⟨pid', hmem⟩, hp⟩
  refine ⟨hident, h.distinct, ?_, ?_, ?_, ?_, ?_, ?_, ?_, ?_, ?_⟩
  · rintro c (_ | ⟨_, hc⟩)
    · exact ⟨_, rfl⟩
    · exact h.replied c hc
  · intro pid' id task hmem
    rw [hassigned]
    rcases List.mem_cons.mp hmem with heq | hmem
    · cases heq
    · exact h.found pid' id task hmem
  · exact fun id ha => h.assigned id (hassigned.mp ha)
  · intro id bids ha
    rw [hassigned]
    rcases hauction ha with ha | ⟨rfl, -, -⟩
    · exact h.opened id bids ha
    · obtain ⟨task, hopen, hmem⟩ := Job.readsBids hj hc
      exact (h.found pid id task (mem_own.mp hmem)).2 hopen
  · intro id bids ha
    rcases hauction ha with ha | ⟨rfl, rfl, hpending⟩
    · exact h.placed id bids ha
    · refine (List.map_congr_left fun bid hbid => ?_).trans (List.map_id _)
      have hmem := Store.mem_findBids.mp hbid
      rw [Bid.asPlaced, ← hpending bid hmem.1 hmem.2]
      rfl
  · intro id bids winner ha hwin bid hbid hid
    rcases hauction ha with ha | ⟨rfl, -, hpending⟩
    · exact h.judged id bids winner ha hwin bid hbid hid
    · exact .inl (hpending bid hbid hid)
  · intro id bids ha hno bid hbid hid
    rcases hauction ha with ha | ⟨rfl, -, hpending⟩
    · exact h.waiting id bids ha (fun ha => hno (hassigned.mpr ha)) bid hbid hid
    · exact hpending bid hbid hid
  · exact fun id hno => h.idle id fun bids ha => hno bids (auctioned_mono ha)
  · intro pid' row hmem
    rcases List.mem_cons.mp hmem with heq | hmem
    · cases heq
    · exact h.written pid' row hmem

/-- The save of an assigned task: it was auctioned. -/
theorem InTurn.saveTask {row : Task} (h : InTurn m t) (hj : j.auctions = true)
    (hc : j.Calls (own pid t) (.saveTask row))
    (hident : Identified (m.saveTask row) (⟨pid, .saveTask row, .ok ()⟩ :: t)) :
    InTurn (m.saveTask row) (⟨pid, .saveTask row, .ok ()⟩ :: t) := by
  obtain ⟨taskId, task, bids, winner, hreads, rfl⟩ := Job.assigns hj hc
  -- the task it had read is the one it was asked for, and its bids were auctioned
  have hid : task.id = taskId := (h.found pid taskId task (mem_own.mp hreads.readTask)).1
  have hauctioned : Auctioned t taskId bids := by
    refine ⟨⟨pid, mem_own.mp hreads.readBids⟩, fun hnil => ?_⟩
    have hwon := hreads.auction.won
    rw [auctionWinner, hnil] at hwon
    cases hwon
  have hstatus : ∀ id, (m.saveTask { task with status := .assigned }).statusOf id =
      if id = taskId then some .assigned else m.statusOf id := by
    intro id
    rw [Store.statusOf_saveTask]
    simp only [hid]
  have hauction : ∀ {id bids}, Auctioned
      (⟨pid, .saveTask { task with status := .assigned }, .ok ()⟩ :: t) id bids ↔
      Auctioned t id bids := auctioned_cons (by simp)
  have hassigned : ∀ {id}, Assigned
      (⟨pid, .saveTask { task with status := .assigned }, .ok ()⟩ :: t) id ↔
      id = taskId ∨ Assigned t id := by
    intro id
    refine ⟨?_, ?_⟩
    · rintro ⟨pid', row, hmem, rfl⟩
      rcases List.mem_cons.mp hmem with heq | hmem
      · cases heq
        exact .inl hid
      · exact .inr ⟨pid', row, hmem, rfl⟩
    · rintro (rfl | ⟨pid', row, hmem, rfl⟩)
      · exact ⟨pid, _, List.mem_cons_self, hid⟩
      · exact ⟨pid', row, List.mem_cons_of_mem _ hmem, rfl⟩
  refine ⟨hident, h.distinct, ?_, ?_, ?_, ?_, ?_, ?_, ?_, ?_, ?_⟩
  · rintro c (_ | ⟨_, hc⟩)
    · exact ⟨_, rfl⟩
    · exact h.replied c hc
  · intro pid' id task' hmem
    rw [hstatus, hassigned]
    rcases List.mem_cons.mp hmem with heq | hmem
    · cases heq
    · refine ⟨(h.found pid' id task' hmem).1, fun hopen => ?_⟩
      by_cases hne : id = taskId
      · exact .inr (.inl hne)
      · rw [if_neg hne]
        exact ((h.found pid' id task' hmem).2 hopen).imp_right .inr
  · intro id ha
    rw [hstatus]
    split_ifs with hne
    · rfl
    · exact h.assigned id ((hassigned.mp ha).resolve_left hne)
  · intro id bids' ha
    rw [hstatus, hassigned]
    by_cases hne : id = taskId
    · exact .inr (.inl hne)
    · rw [if_neg hne]
      exact (h.opened id bids' (hauction.mp ha)).imp_right .inr
  · exact fun id bids' ha => h.placed id bids' (hauction.mp ha)
  · exact fun id bids' winner' ha => h.judged id bids' winner' (hauction.mp ha)
  · exact fun id bids' ha hno => h.waiting id bids' (hauction.mp ha) fun ha =>
      hno (hassigned.mpr (.inr ha))
  -- a task that nobody auctions is another one than the saved one
  · intro id hno
    have hne : id ≠ taskId := by
      rintro rfl
      exact hno bids (hauction.mpr hauctioned)
    unfold Store.DecidedAt
    rw [hstatus, if_neg hne]
    exact h.idle id fun bids' ha => hno bids' (hauction.mpr ha)
  · intro pid' row hmem
    rcases List.mem_cons.mp hmem with heq | hmem
    · cases heq
    · exact h.written pid' row hmem

/-- A new bid, on an open task that nobody is selecting for. -/
theorem InTurn.placeBid {row : Bid} {c : Outcome} (h : InTurn m t)
    (hheld : heldId (own pid t) = some row.id) (hpending : row.status = .pending)
    (hcall : TakesTurn m t pid (.saveBid row) c)
    (hident : Identified (m.saveBid row) (⟨pid, .saveBid row, .ok ()⟩ :: t)) :
    InTurn (m.saveBid row) (⟨pid, .saveBid row, .ok ()⟩ :: t) := by
  obtain ⟨hopen, hfree⟩ := hcall.2 hpending
  have hfresh : ∀ bid ∈ m.bids, bid.id ≠ row.id := fun bid hbid hid =>
    (h.identified.held pid row.id hheld).2 (.inr ⟨bid, hbid, hid⟩)
  have hbids : (m.saveBid row).bids = m.bids ++ [row] := upsert_of_new hfresh
  have hauction : ∀ {id bids}, Auctioned (⟨pid, .saveBid row, .ok ()⟩ :: t) id bids ↔
      Auctioned t id bids := auctioned_cons (by simp)
  have hassigned : ∀ {id}, Assigned (⟨pid, .saveBid row, .ok ()⟩ :: t) id ↔ Assigned t id :=
    assigned_cons (by simp)
  -- the task of the new bid was not auctioned
  have hne : ∀ {id bids}, Auctioned t id bids → row.taskId ≠ id := by
    rintro id bids ⟨⟨pid', hmem⟩, hp⟩ rfl
    rcases selecting_or_assigned hmem hp with hs | ha
    · have := hfree _ hmem
      simp only at this
      rw [this] at hs
      cases hs
    · rw [h.assigned _ ha] at hopen
      cases hopen
  have hfind : ∀ {id bids}, Auctioned t id bids → (m.saveBid row).findBids id = m.findBids id := by
    intro id bids ha
    unfold Store.findBids
    rw [hbids, List.filter_append]
    have hnone : [row].filter (fun bid => bid.taskId = id) = [] := by
      simp [hne ha]
    rw [hnone, List.append_nil]
    rfl
  have hold : ∀ {id bids} {bid : Bid}, Auctioned t id bids → bid ∈ (m.saveBid row).bids →
      bid.taskId = id → bid ∈ m.bids := by
    intro id bids bid ha hbid hid
    rw [hbids, List.mem_append, List.mem_singleton] at hbid
    rcases hbid with hbid | rfl
    · exact hbid
    · exact absurd hid (hne ha)
  refine ⟨hident, ?_, ?_, ?_, ?_, ?_, ?_, ?_, ?_, ?_, ?_⟩
  · rw [hbids, List.map_append, List.nodup_append]
    refine ⟨h.distinct, List.nodup_singleton _, ?_⟩
    intro id hid id' hid'
    obtain ⟨bid, hbid, rfl⟩ := List.mem_map.mp hid
    rw [List.map_singleton, List.mem_singleton] at hid'
    rw [hid']
    exact hfresh bid hbid
  · rintro c (_ | ⟨_, hc⟩)
    · exact ⟨_, rfl⟩
    · exact h.replied c hc
  · intro pid' id task hmem
    rw [hassigned]
    rcases List.mem_cons.mp hmem with heq | hmem
    · cases heq
    · exact h.found pid' id task hmem
  · exact fun id ha => h.assigned id (hassigned.mp ha)
  · intro id bids ha
    rw [hassigned]
    exact h.opened id bids (hauction.mp ha)
  · intro id bids ha
    rw [hfind (hauction.mp ha)]
    exact h.placed id bids (hauction.mp ha)
  · intro id bids winner ha hwin bid hbid hid
    rw [hauction] at ha
    exact h.judged id bids winner ha hwin bid (hold ha hbid hid) hid
  · intro id bids ha hno bid hbid hid
    rw [hauction] at ha
    exact h.waiting id bids ha (fun ha => hno (hassigned.mpr ha)) bid (hold ha hbid hid) hid
  · intro id hno s hs
    have hidle := h.idle id (fun bids ha => hno bids (hauction.mpr ha)) s hs
    by_cases hid : row.taskId = id
    · -- the task is open and stays without a judged bid
      have hs : s = .open := by
        rw [← hid] at hs
        exact Option.some.inj (hs.symm.trans hopen)
      rw [if_pos hs] at hidle ⊢
      intro bid hbid hid
      rw [hbids, List.mem_append, List.mem_singleton] at hbid
      rcases hbid with hbid | rfl
      · exact hidle bid hbid hid
      · simp [hpending]
    · rw [hbids, List.countP_append]
      have hzero : [row].countP (fun bid => bid.taskId = id ∧ bid.status = .selected) = 0 := by
        simp [hid]
      have hmem : ∀ bid ∈ m.bids ++ [row], bid.taskId = id → bid ∈ m.bids := by
        intro bid hbid hid'
        rw [List.mem_append, List.mem_singleton] at hbid
        rcases hbid with hbid | rfl
        · exact hbid
        · exact absurd hid' hid
      rw [hzero, Nat.add_zero]
      split_ifs at hidle ⊢
      · exact fun bid hbid hid => hidle bid (hmem bid hbid hid) hid
      · exact ⟨hidle.1, fun bid hbid hid => hidle.2 bid (hmem bid hbid hid) hid⟩
  · intro pid' row' hmem hne'
    rcases List.mem_cons.mp hmem with heq | hmem
    · cases heq
      exact absurd hpending hne'
    · obtain ⟨bid, hbid, hid⟩ := h.written pid' row' hmem hne'
      exact ⟨bid, by rw [hbids]; exact List.mem_append_left _ hbid, hid⟩

/-- The bid with its new status, all others as they are. -/
def Bid.judge (id : String) (status : BidStatus) (bid : Bid) : Bid :=
  if bid.id = id then { bid with status := status } else bid

theorem Bid.judge_frame (id : String) (status : BidStatus) (bid : Bid) :
    (bid.judge id status).id = bid.id ∧ (bid.judge id status).taskId = bid.taskId ∧
      (bid.judge id status).createdAt = bid.createdAt ∧
      (bid.judge id status).asPlaced = bid.asPlaced := by
  unfold Bid.judge
  split_ifs <;> exact ⟨rfl, rfl, rfl, rfl⟩

/-- A verdict is written into the row of the bid it is on. -/
theorem saveBid_judge {bid : Bid} {bids : List Bid} (status : BidStatus)
    (distinct : (m.bids.map Bid.id).Nodup) (placed : (m.findBids taskId).map Bid.asPlaced = bids)
    (hbid : bid ∈ bids) :
    (m.saveBid { bid with status := status }).bids = m.bids.map (Bid.judge bid.id status) ∧
      ∃ old ∈ m.bids, old.id = bid.id ∧ old.taskId = taskId := by
  rw [← placed] at hbid
  obtain ⟨old, hfind, rfl⟩ := List.mem_map.mp hbid
  obtain ⟨hold, htask⟩ := Store.mem_findBids.mp hfind
  refine ⟨?_, old, hold, rfl, htask⟩
  have hkey : old.id = ({ old.asPlaced with status := status } : Bid).id := rfl
  unfold Store.saveBid
  rw [upsert_of_key distinct hold hkey]
  refine List.map_congr_left fun r hr => ?_
  unfold Bid.judge
  by_cases hid : r.id = old.id
  · have heq : r = old := List.inj_on_of_nodup_map distinct hr hold hid
    subst heq
    simp only [Bid.asPlaced, if_true]
    cases m.backend <;> rfl
  · simp only [Bid.asPlaced, hid, if_false]

/-- A verdict on a bid of an auctioned task that was saved before. -/
theorem InTurn.judgeBid {task : Task} {bids : List Bid} {winner bid row : Bid} (h : InTurn m t)
    (hc : Judges taskId (own pid t) task bids winner bid row)
    (hident : Identified (m.saveBid row) (⟨pid, .saveBid row, .ok ()⟩ :: t)) :
    InTurn (m.saveBid row) (⟨pid, .saveBid row, .ok ()⟩ :: t) := by
  have hauctioned : Auctioned t taskId bids :=
    ⟨⟨pid, mem_own.mp hc.readBids⟩, List.ne_nil_of_mem hc.pending⟩
  have hassigned' : Assigned t taskId :=
    ⟨pid, _, mem_own.mp hc.assigned, (h.found pid taskId task (mem_own.mp hc.readTask)).1⟩
  obtain ⟨hbids, old, hold, hid, htask⟩ := saveBid_judge (verdict winner bid) h.distinct
    (h.placed taskId bids hauctioned) (List.mem_of_mem_filter hc.pending)
  rw [← hc.judged] at hbids
  have hrow : row.id = bid.id := by rw [hc.judged]
  have hauction : ∀ {id bids}, Auctioned (⟨pid, .saveBid row, .ok ()⟩ :: t) id bids ↔
      Auctioned t id bids := auctioned_cons (by simp)
  have hassigned : ∀ {id}, Assigned (⟨pid, .saveBid row, .ok ()⟩ :: t) id ↔ Assigned t id :=
    assigned_cons (by simp)
  have hframe := Bid.judge_frame bid.id (verdict winner bid)
  -- the row with the key belongs to the auctioned task
  have hmine : ∀ b ∈ m.bids, b.id = bid.id → b.taskId = taskId := by
    intro b hb hb'
    rw [List.inj_on_of_nodup_map h.distinct hb hold (hb'.trans hid.symm), htask]
  have hother : ∀ b ∈ m.bids, b.taskId ≠ taskId → b.judge bid.id (verdict winner bid) = b := by
    intro b hb hne
    exact if_neg fun hb' => hne (hmine b hb hb')
  refine ⟨hident, ?_, ?_, ?_, ?_, ?_, ?_, ?_, ?_, ?_, ?_⟩
  · rw [hbids, List.map_map]
    convert h.distinct using 2
    funext b
    exact (hframe b).1
  · rintro c (_ | ⟨_, hc⟩)
    · exact ⟨_, rfl⟩
    · exact h.replied c hc
  · intro pid' id task hmem
    rw [hassigned]
    rcases List.mem_cons.mp hmem with heq | hmem
    · cases heq
    · exact h.found pid' id task hmem
  · exact fun id ha => h.assigned id (hassigned.mp ha)
  · intro id bids ha
    rw [hassigned]
    exact h.opened id bids (hauction.mp ha)
  · intro id bids' ha
    rw [Store.findBids_map hbids rfl fun b => ⟨(hframe b).2.1, (hframe b).2.2.1⟩,
      List.map_map, ← h.placed id bids' (hauction.mp ha)]
    exact List.map_congr_left fun b _ => (hframe b).2.2.2
  · intro id bids' winner' ha hwin b hb hb'
    rw [hauction] at ha
    rw [hbids] at hb
    obtain ⟨b, hmem, rfl⟩ := List.mem_map.mp hb
    rw [(hframe b).2.1] at hb'
    by_cases hkey : b.id = bid.id
    · -- both auctions were held over the same bids
      have hsame : id = taskId := hb'.symm.trans (hmine b hmem hkey)
      subst hsame
      have hlist : bids' = bids := by
        rw [← h.placed id bids' ha, h.placed id bids hauctioned]
      have hwinner : winner' = winner := by
        rw [hlist, hc.auction.won] at hwin
        exact (Option.some.inj hwin).symm
      right
      rw [hwinner, Bid.judge, if_pos hkey]
      unfold verdict
      simp only [hkey]
    · rw [Bid.judge, if_neg hkey]
      exact h.judged id bids' winner' ha hwin b hmem hb'
  · intro id bids' ha hno b hb hb'
    rw [hbids] at hb
    obtain ⟨b, hmem, rfl⟩ := List.mem_map.mp hb
    rw [(hframe b).2.1] at hb'
    have hne : b.taskId ≠ taskId := by
      rintro heq
      rw [← hb', heq] at hno
      exact hno (hassigned.mpr hassigned')
    rw [hother b hmem hne]
    exact h.waiting id bids' (hauction.mp ha) (fun ha => hno (hassigned.mpr ha)) b hmem hb'
  · intro id hno
    have hne : ∀ b : Bid, b.taskId = id → b.taskId ≠ taskId := by
      rintro b rfl heq
      rw [heq] at hno
      exact hno bids (hauction.mpr hauctioned)
    have hidle := h.idle id fun bids ha => hno bids (hauction.mpr ha)
    have hmem : ∀ b ∈ m.bids.map (Bid.judge bid.id (verdict winner bid)), b.taskId = id →
        b ∈ m.bids := by
      intro b hb hb'
      obtain ⟨b, hold', rfl⟩ := List.mem_map.mp hb
      rw [(hframe b).2.1] at hb'
      rwa [hother b hold' (hne b hb')]
    have hcount : (m.bids.map (Bid.judge bid.id (verdict winner bid))).countP
        (fun b => b.taskId = id ∧ b.status = .selected) =
        m.bids.countP fun b => b.taskId = id ∧ b.status = .selected := by
      rw [List.countP_map]
      refine List.countP_congr fun b hb => ?_
      simp only [Function.comp_apply, decide_eq_true_eq, (hframe b).2.1]
      refine and_congr_right fun hb' => ?_
      rw [hother b hb (hne b hb')]
    intro s hs
    have hidle := hidle s hs
    rw [hbids, hcount]
    split_ifs at hidle ⊢
    · exact fun b hb hb' => hidle b (hmem b hb hb') hb'
    · exact ⟨hidle.1, fun b hb hb' => hidle.2 b (hmem b hb hb') hb'⟩
  · have hkept : ∀ b : Bid, b.status ≠ .pending →
        (b.judge bid.id (verdict winner bid)).status ≠ .pending := by
      intro b hb
      unfold Bid.judge
      split_ifs
      · exact verdict_ne_pending winner bid
      · exact hb
    intro pid' row' hmem hne
    rcases List.mem_cons.mp hmem with heq | hmem
    · cases heq
      refine ⟨old.judge bid.id (verdict winner bid), ?_, ?_, ?_⟩
      · rw [hbids]
        exact List.mem_map_of_mem hold
      · rw [(hframe old).1, hid, hrow]
      · rw [Bid.judge, if_pos hid]
        exact verdict_ne_pending winner bid
    · obtain ⟨b, hb, hb', hs⟩ := h.written pid' row' hmem hne
      refine ⟨b.judge bid.id (verdict winner bid), ?_, ?_, hkept b hs⟩
      · rw [hbids]
        exact List.mem_map_of_mem hb
      · rw [(hframe b).1, hb']

/-- **One call of a bid request or a selection that takes turns.** -/
theorem InTurn.call {o : Op} {c : Outcome} {r : Reply o} (h : InTurn m t)
    (hj : j.auctions = true) (hc : j.Calls (own pid t) o) (hcall : TakesTurn m t pid o c)
    (hx : exec o c m = some (r, m')) : InTurn m' (⟨pid, o, r⟩ :: t) := by
  have hident := h.identified.call hc hx
  obtain ⟨v, hp, rfl⟩ := exec_calm hx hcall.1
  have hframe := perform_frame hp
  cases o with
  | saveTask row =>
      cases hp
      exact h.saveTask hj hc hident
  | saveBid row =>
      cases hp
      rcases Job.judges hj hc with ⟨hpending, hheld⟩ | ⟨taskId, task, bids, winner, bid, hjudges⟩
      · exact h.placeBid hheld hpending hcall hident
      · exact h.judgeBid hjudges hident
  | findBids taskId =>
      cases hp
      exact h.findBids hj hc hcall hident
  | findTask id =>
      cases hp
      refine h.frame hident rfl rfl rfl (by simp) (by simp) (by simp) ?_
      intro id' task heq
      simp only [Done.mk.injEq, Op.findTask.injEq] at heq
      obtain ⟨rfl, heq⟩ := heq
      have hfind : m.findTask id = some task := Except.ok.inj (eq_of_heq heq)
      refine ⟨Store.findTask_id hfind, fun hopen => ?_⟩
      rw [Store.statusOf, hfind, Option.map_some, hopen]
  | _ =>
      refine h.frame hident (hframe.tasks (by simp)) (hframe.bids (by simp)) hframe.backend (by simp)
        (by simp) (by simp) ?_
      intro id task heq
      cases heq

/-- Once everybody who saved the task has returned, it is decided. -/
theorem InTurn.decided (h : InTurn m t)
    (hended : ∀ c ∈ t, ∃ j : Job, j.auctions = true ∧ j.Ended (own c.pid t)) (taskId : String) :
    m.DecidedAt taskId := by
  by_cases hidle : ∀ bids, ¬ Auctioned t taskId bids
  · exact h.idle taskId hidle
  push Not at hidle
  obtain ⟨bids, ha⟩ := hidle
  intro s hs
  by_cases hassigned : Assigned t taskId
  swap
  · -- the task is open still and its bids are pending
    have hopen := (h.opened taskId bids ha).resolve_right hassigned
    rw [if_pos (Option.some.inj (hs.symm.trans hopen))]
    intro bid hbid hid
    rw [h.waiting taskId bids ha hassigned bid hbid hid]
    decide
  have hstatus : s = .assigned := Option.some.inj (hs.symm.trans (h.assigned taskId hassigned))
  obtain ⟨pid, row, hmem, hrow⟩ := hassigned
  obtain ⟨j, hj, hend⟩ := hended _ hmem
  have hok : ∀ d ∈ own pid t, ∃ v, d.reply = .ok v := fun d hd => h.replied _ (mem_own.mp hd)
  obtain ⟨id, task, bids, winner, hreads, rfl, hall⟩ :=
    Job.judged hj hend hok (mem_own.mpr hmem : ⟨.saveTask row, .ok ()⟩ ∈ own pid t)
  have hid : id = taskId :=
    ((h.found pid id task (mem_own.mp hreads.readTask)).1).symm.trans hrow
  subst hid
  have hwinner := auctionWinner_mem hreads.auction.won
  have ha : Auctioned t id bids := ⟨⟨pid, mem_own.mp hreads.readBids⟩, List.ne_nil_of_mem hwinner⟩
  have hplaced := h.placed id bids ha
  -- the process has judged every bid
  have hjudged : ∀ bid ∈ m.bids, bid.taskId = id → bid.status ≠ .pending := by
    intro bid hbid htask
    have hmem : bid.asPlaced ∈ pendingBids bids := by
      rw [pendingBids, List.mem_filter, ← hplaced]
      exact ⟨List.mem_map_of_mem (Store.mem_findBids.mpr ⟨hbid, htask⟩), by simp [Bid.asPlaced]⟩
    obtain ⟨saved, hsaved, hkey, hne⟩ := hall _ hmem
    obtain ⟨bid', hbid', hkey', hne'⟩ := h.written pid saved (mem_own.mp hsaved) hne
    rwa [List.inj_on_of_nodup_map h.distinct hbid' hbid (hkey'.trans hkey)] at hne'
  rw [if_neg (by rw [hstatus]; decide)]
  refine ⟨?_, hjudged⟩
  -- the selected bid is the one with the winner's key
  have hold : winner ∈ (m.findBids id).map Bid.asPlaced := by
    rw [hplaced]
    exact List.mem_of_mem_filter hwinner
  obtain ⟨old, hfind, hplacedOld⟩ := List.mem_map.mp hold
  have hmem := Store.mem_findBids.mp hfind
  have hkey : old.id = winner.id := by rw [← hplacedOld]; rfl
  have hiff : ∀ bid ∈ m.bids, bid.taskId = id ∧ bid.status = .selected ↔ bid.id = winner.id := by
    intro bid hbid
    refine ⟨?_, ?_⟩
    · rintro ⟨htask, hsel⟩
      rcases h.judged id bids winner ha hreads.auction.won bid hbid htask with hp | hv
      · exact absurd hp (hjudged bid hbid htask)
      · rw [hsel, verdict] at hv
        split_ifs at hv with heq
        exact heq
    · intro heq
      have hsame : bid = old := List.inj_on_of_nodup_map h.distinct hbid hmem.1 (heq.trans hkey.symm)
      have htask : bid.taskId = id := hsame ▸ hmem.2
      refine ⟨htask, ?_⟩
      rcases h.judged id bids winner ha hreads.auction.won bid hbid htask with hp | hv
      · exact absurd hp (hjudged bid hbid htask)
      · rw [hv, verdict, if_pos heq]
  calc m.bids.countP (fun bid => bid.taskId = id ∧ bid.status = .selected)
      = m.bids.countP (fun bid => bid.id = winner.id) :=
        List.countP_congr fun bid hbid => by simpa using hiff bid hbid
    _ = (m.bids.map Bid.id).count winner.id := by
        rw [List.count, List.countP_map]
        rfl
    _ = 1 := List.count_eq_one_of_mem h.distinct (hkey ▸ List.mem_map_of_mem hmem.1)

end

/-! ## Runs -/

/-- **One winner per task** whenever no request is in flight, after a run of bid requests and
selections that take turns. -/
theorem one_winner (m : Store) (keys : m.KeysIssued) (distinct : (m.bids.map Bid.id).Nodup)
    (start : ∀ taskId, m.DecidedAt taskId) (sched : List (Act Job Outcome))
    (turns : Meets market auctioning (.initial m) sched)
    (quiet : (runSched market (.initial m) sched).Quiet) (taskId : String) :
    (runSched market (.initial m) sched).state.DecidedAt taskId := by
  obtain ⟨h, he⟩ := runSched_rule (I := InTurn) (P := Job.Calls) (Q := Job.Ended) (R := auctioning)
    (fun j _ => body_follows j) (fun _ _ _ _ _ _ _ _ h hj hc hcall hx => h.call hj hc hcall hx)
    sched (.initial m) (.initial keys distinct start) (.initial m) turns
  exact h.decided (fun c hc => he.ended quiet id hc) taskId

/-! ## A late bid -/

/-- One open task without bids. -/
def openStore : Store where
  backend := .postgres
  tasks := [{ lateTask with deadline := 100, status := .open }]
  bids := []
  results := []
  outbox := []
  consumptions := []
  stream := ⟨[], 0, 0, []⟩
  issued := ["t"]

theorem openStore_decided (taskId : String) : openStore.DecidedAt taskId := by
  intro s hs
  have hopen : s = .open := by
    obtain ⟨task, hfind, rfl⟩ := Option.map_eq_some_iff.mp hs
    have hmem := List.mem_of_find?_eq_some hfind
    rw [openStore, List.mem_singleton] at hmem
    rw [hmem]
  rw [if_pos hopen]
  exact fun _ hbid => nomatch hbid

/-- A bid on the open task. -/
def bidOf (executor amount : String) : Job :=
  .createBid { hasOutbox := false } (.ok ⟨"t", executor, amount, "1", ""⟩)

/-- The request `pid` locks its collateral in the escrow `e`. -/
def escrows (pid : Nat) (e : String) : List (Act Job Outcome) :=
  [goes pid, goes pid, .run pid { text := e }]

/-- It saves its bid `b` and looks at the task. -/
def places (pid : Nat) (b : String) : List (Act Job Outcome) :=
  [.run pid { text := b }, .run pid { now := 1 }, goes pid, goes pid]

/-- It reads the bids and saves the task and the winner. -/
def selects (pid : Nat) : List (Act Job Outcome) := [goes pid, goes pid, goes pid]

/-- Both bids are saved before a request looks at the task; then the first request selects. -/
def bothPlaced : List (Act Job Outcome) :=
  .spawn (bidOf "E" "8") :: .spawn (bidOf "F" "9") :: escrows 0 "e" ++ escrows 1 "f" ++
    [.run 0 { text := "b" }, .run 0 { now := 1 }, goes 0] ++
    [.run 1 { text := "c" }, .run 1 { now := 1 }, goes 1] ++ goes 0 :: selects 0 ++ [goes 0, goes 1]

theorem lower_bid_wins :
    let cfg := runSched market (.initial openStore) bothPlaced
    cfg.Quiet ∧ cfg.state.bids.map (fun bid => (bid.id, bid.status)) =
      [("b", .selected), ("c", .rejected)] ∧ cfg.state.DecidedAt "t" :=
  ⟨by decide +kernel, by decide +kernel,
    one_winner openStore ⟨by decide, nofun⟩ .nil openStore_decided bothPlaced (by decide +kernel)
      (by decide +kernel) "t"⟩

/-- The first request locks its collateral, the second one places its bid and wins, then the
first bid is saved: it stays pending. -/
theorem late_bid_left_pending :
    let cfg := runSched market (.initial openStore)
      (.spawn (bidOf "E" "8") :: .spawn (bidOf "F" "9") :: escrows 0 "e" ++ escrows 1 "f" ++
        places 1 "c" ++ selects 1 ++ places 0 "b")
    ¬ (cfg.Quiet → cfg.state.DecidedAt "t") := by
  decide +kernel

end TrustGate.Market
