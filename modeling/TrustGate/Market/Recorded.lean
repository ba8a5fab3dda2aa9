import TrustGate.Market.Forward

set_option autoImplicit false

/-! # Settling an escrow and recording it

A completion releases the escrow of the selected bid and then saves the task `COMPLETED`; a sweep
confiscates it and then saves the task `EXPIRED`. Between the two calls, and for good if the save
fails or the process crashes, nobody else can see from the store that the escrow is settled: the
process owes the record (`owes`). `Recorded` is the invariant that ties the settlements in a trace
to the store: each is on record, or somebody owes the record. -/

namespace TrustGate.Market

open Resumption

/-! ## Settlements -/

inductive Settling where
  | release | confiscation
  deriving DecidableEq, Repr

/-- The escrow that a call settles if it succeeds. -/
def Settling.escrow : Settling → Op → Option String
  | .release, .releaseMilestone escrowId => some escrowId
  | .confiscation, .confiscate escrowId _ => some escrowId
  | _, _ => none

/-- The status that records a settlement. -/
def Settling.final : Settling → TaskStatus
  | .release => .completed
  | .confiscation => .expired

/-- The escrow that a call has settled. -/
def Settling.settled (S : Settling) (d : Done Op Reply) : Option String :=
  match d.reply with
  | .ok _ => S.escrow d.op
  | .error _ => none

/-- How many calls settled the escrow `e`. -/
def times (S : Settling) (e : String) (t : Trace Op Reply) : Nat :=
  t.countP fun c => S.settled ⟨c.op, c.reply⟩ = some e

def Settled (S : Settling) (e : String) (t : Trace Op Reply) : Prop :=
  ∃ c ∈ t, S.settled ⟨c.op, c.reply⟩ = some e

theorem times_eq_zero {S : Settling} {e : String} {t : Trace Op Reply} (h : ¬ Settled S e t) :
    times S e t = 0 := by
  unfold times
  rw [List.countP_eq_zero]
  intro c hc
  rw [decide_eq_true_eq]
  exact fun heq => h ⟨c, hc, heq⟩

theorem times_cons (S : Settling) (e : String) (c : Call Op Reply) (t : Trace Op Reply) :
    times S e (c :: t) =
      times S e t + if S.settled ⟨c.op, c.reply⟩ = some e then 1 else 0 := by
  simp [times, List.countP_cons]

/-- A call settles one escrow in one way. -/
theorem Settling.settled_unique {S S' : Settling} {d : Done Op Reply} {e e' : String}
    (h : S.settled d = some e) (h' : S'.settled d = some e') : S = S' ∧ e = e' := by
  obtain ⟨o, r⟩ := d
  cases r with
  | error _ => cases h
  | ok v =>
      change S.escrow o = some e at h
      change S'.escrow o = some e' at h'
      cases S <;> cases S' <;> cases o <;> cases h <;> cases h' <;> exact ⟨rfl, rfl⟩

/-! ## Owing the record -/

/-- The call has saved a task. -/
def savedTask (d : Done Op Reply) : Bool :=
  match d.op, d.reply with
  | .saveTask _, .ok _ => true
  | _, _ => false

/-- The process has settled the escrow `e` and did not save a task right after that. -/
def owes (S : Settling) (e : String) : Hist → Bool
  | [] => false
  | [d] => S.settled d = some e
  | d :: d' :: h =>
      S.settled d = some e || (if savedTask d then owes S e h else owes S e (d' :: h))

/-- Somebody owes the record. -/
def Owed (S : Settling) (e : String) (t : Trace Op Reply) : Prop :=
  ∃ c ∈ t, owes S e (own c.pid t) = true

section

variable {S : Settling} {e : String} {d d' : Done Op Reply} {h : Hist}

theorem owes_settled (hd : S.settled d = some e) : owes S e (d :: h) = true := by
  cases h with
  | nil => simp [owes, hd]
  | cons d' h => simp [owes, hd]

theorem owes_cons (hd : savedTask d = false) (ho : owes S e h = true) :
    owes S e (d :: h) = true := by
  cases h with
  | nil => cases ho
  | cons d' h => simp [owes, hd, ho]

/-- A save pays for the settlement right before it and for no other. -/
theorem owes_saved (hd : savedTask d = true) (hd' : savedTask d' = false)
    (ho : owes S e (d' :: h) = true) : S.settled d' = some e ∨ owes S e (d :: d' :: h) = true := by
  cases h with
  | nil => exact .inl (by simpa [owes] using ho)
  | cons d'' h =>
      rw [owes, hd', if_neg Bool.false_ne_true, Bool.or_eq_true, decide_eq_true_eq] at ho
      refine ho.imp_right fun ho => ?_
      rw [owes, hd, if_pos rfl, ho, Bool.or_true]

theorem savedTask_of_settled (hd : S.settled d = some e) : savedTask d = false := by
  obtain ⟨o, r⟩ := d
  cases r with
  | error _ => cases hd
  | ok v =>
      change S.escrow o = some e at hd
      cases S <;> cases o <;> first | rfl | cases hd

end

/-! ## The escrow at stake -/

/-- The escrow of a task: that of the selected bid. -/
def Store.stake (m : Store) (taskId : String) : Option String :=
  (winningBid (m.findBids taskId)).map Bid.escrowId

theorem Store.exists_of_stake {m : Store} {taskId e : String} (h : m.stake taskId = some e) :
    ∃ bid ∈ m.bids, bid.escrowId = e ∧ bid.taskId = taskId := by
  obtain ⟨winner, hwin, rfl⟩ := Option.map_eq_some_iff.mp h
  have hmem := Store.mem_findBids.mp (List.mem_of_find?_eq_some hwin)
  exact ⟨winner, hmem.1, rfl, hmem.2⟩

/-- What the processes have read about bids is still so. -/
structure Seen (m : Store) (t : Trace Op Reply) : Prop where
  task : ∀ pid id task, ⟨.findTask id, .ok (some task)⟩ ∈ own pid t → task.id = id
  bids : ∀ pid id bids, ⟨.findBids id, .ok bids⟩ ∈ own pid t → m.findBids id = bids

theorem Seen.initial (m : Store) : Seen m [] where
  task := fun _ _ _ h => nomatch h
  bids := fun _ _ _ h => nomatch h

/-! ## Completions, ticks and sweeps -/

/-- The jobs that settle escrows. -/
def Job.settles : Job → Bool
  | .complete _ _ _ => true
  | .tick _ _ => true
  | .runOnce _ => true
  | _ => false

section

variable {j : Job} {h : Hist}

theorem Job.settles_not_saveBid (hj : j.settles = true) {bid : Bid} :
    ¬ j.Calls h (.saveBid bid) := by
  intro hc
  cases Job.commits hc rfl <;> cases hj

/-- The process has just settled the escrow of `row`'s selected bid, and `row` records it. -/
structure Settles (h : Hist) (row : Task) (S : Settling) (e : String) : Prop where
  split : ∃ d id bids winner h', h = d :: ⟨.findBids id, .ok bids⟩ :: h' ∧
    S.settled d = some e ∧ winningBid bids = some winner ∧ winner.escrowId = e ∧
    (id = row.id ∨ ∃ task, task.id = row.id ∧ ⟨.findTask id, .ok (some task)⟩ ∈ h')
  status : row.status = S.final

/-- **What these jobs save.** `COMPLETING`, after having read the bids, or the record of a
settlement that was the last call. -/
theorem Job.savesSettled (hj : j.settles = true) {row : Task} (hc : j.Calls h (.saveTask row)) :
    (row.status = .completing ∧ ∃ id bids h', h = ⟨.findBids id, .ok bids⟩ :: h') ∨
      ∃ S e, Settles h row S e := by
  cases Job.commits hc rfl with
  | createTask | createPaid | select | bidSelect => cases hj
  | completed cfg taskId body task bids winner result admitted =>
      exact .inr ⟨.release, winner.escrowId, ⟨_, _, _, winner, _, rfl, rfl,
        admitted.selected, rfl, .inr ⟨task, rfl, List.mem_cons_self⟩⟩, rfl⟩
  | completing cfg taskId body task bids winner admitted => exact .inl ⟨rfl, _, _, _, rfl⟩
  | expired cfg now tasks task bids winner result h snapshot mem selected =>
      exact .inr ⟨.confiscation, winner.escrowId, ⟨_, _, _, winner, _, rfl, rfl, selected, rfl,
        .inl rfl⟩, rfl⟩
  | handlerCompleted cfg claimCursor taskId task bids winner result h completing selected =>
      exact .inr ⟨.release, winner.escrowId, ⟨_, _, _, winner, _, rfl, rfl, selected,
        rfl, .inr ⟨task, rfl, List.mem_cons_self⟩⟩, rfl⟩

end

/-! ## The invariant -/

/-- Every settlement is on record, or somebody owes the record. -/
def Recorded (S : Settling) (m : Store) (t : Trace Op Reply) : Prop :=
  ∀ e, Settled S e t →
    Owed S e t ∨ ∃ taskId, m.stake taskId = some e ∧ m.statusOf taskId = some S.final

theorem Recorded.initial (S : Settling) (m : Store) : Recorded S m [] := by
  rintro e ⟨c, hc, -⟩
  cases hc

section

variable {S : Settling} {m m' : Store} {t : Trace Op Reply} {pid : Nat} {j : Job} {o : Op}
  {c : Outcome} {r : Reply o}

theorem stake_exec (hj : j.settles = true) (hc : j.Calls (own pid t) o)
    (hx : exec o c m = some (r, m')) (taskId : String) :
    m'.findBids taskId = m.findBids taskId ∧ m'.stake taskId = m.stake taskId := by
  have hbids := exec_bids hx fun bid heq => Job.settles_not_saveBid hj (heq ▸ hc)
  have hfind : m'.findBids taskId = m.findBids taskId := by
    unfold Store.findBids
    rw [hbids.1, hbids.2]
  exact ⟨hfind, by rw [Store.stake, hfind, Store.stake]⟩

theorem Seen.call (hs : Seen m t) (hj : j.settles = true) (hc : j.Calls (own pid t) o)
    (hx : exec o c m = some (r, m')) : Seen m' (⟨pid, o, r⟩ :: t) := by
  refine ⟨?_, ?_⟩
  · intro pid' id task hmem
    rw [mem_own, List.mem_cons] at hmem
    rcases hmem with heq | hmem
    · cases heq
      exact Store.findTask_id (Option.some.inj (congrArg (Option.map Prod.fst) (exec_ok hx)))
    · exact hs.task pid' id task (mem_own.mpr hmem)
  · intro pid' id bids hmem
    rw [(stake_exec hj hc hx id).1]
    rw [mem_own, List.mem_cons] at hmem
    rcases hmem with heq | hmem
    · cases heq
      exact Option.some.inj (congrArg (Option.map Prod.fst) (exec_ok hx))
    · exact hs.bids pid' id bids (mem_own.mpr hmem)

/-- The row that records a settlement is that of the task whose escrow was at stake. -/
theorem Settles.stake {row : Task} {e : String} (h : Settles (own pid t) row S e)
    (hs : Seen m t) : m.stake row.id = some e ∧ Settled S e t := by
  obtain ⟨d, id, bids, winner, h', heq, hd, hwin, rfl, hid⟩ := h.split
  have hbids := hs.bids pid id bids (by rw [heq]; simp)
  have hrow : id = row.id := by
    rcases hid with hid | ⟨task, htask, hmem⟩
    · exact hid
    · rw [← htask, hs.task pid id task (by rw [heq]; simp [hmem])]
  refine ⟨?_, ?_⟩
  · rw [Store.stake, ← hrow, hbids, hwin]
    rfl
  · exact ⟨⟨pid, d.op, d.reply⟩, mem_own.mp (by rw [heq]; exact List.mem_cons_self), hd⟩

/-- **A call keeps the books**, provided that no save takes back the record of an escrow that
was settled. -/
theorem Recorded.call (hrec : Recorded S m t) (hs : Seen m t) (hj : j.settles = true)
    (hc : j.Calls (own pid t) o) (hx : exec o c m = some (r, m'))
    (hkeep : ∀ row, o = .saveTask row → c.fault.applies = true →
      m.statusOf row.id = some S.final → row.status = S.final ∨
        ∀ e, m.stake row.id = some e → ¬ Settled S e t) :
    Recorded S m' (⟨pid, o, r⟩ :: t) := by
  intro e he
  by_cases hnew : S.settled ⟨o, r⟩ = some e
  · exact .inl ⟨⟨pid, o, r⟩, List.mem_cons_self, by rw [own_cons_self]; exact owes_settled hnew⟩
  have hold : Settled S e t := by
    obtain ⟨c, hcall, hset⟩ := he
    rcases List.mem_cons.mp hcall with rfl | hcall
    · exact absurd hset hnew
    · exact ⟨c, hcall, hset⟩
  rcases hrec e hold with ⟨call, hcall, howes⟩ | ⟨taskId, hstake, hstatus⟩
  · have owed : owes S e (own call.pid (⟨pid, o, r⟩ :: t)) = true →
        Owed S e (⟨pid, o, r⟩ :: t) := fun h => ⟨call, List.mem_cons_of_mem _ hcall, h⟩
    by_cases hp : pid = call.pid
    swap
    · exact .inl (owed (by rw [own_cons_ne hp]; exact howes))
    rw [← hp] at howes
    rw [← hp, own_cons_self] at owed
    cases hsave : savedTask ⟨o, r⟩ with
    | false => exact .inl (owed (owes_cons hsave howes))
    | true =>
        -- the process saves a task: the record of `e`, or of nothing it owes
        cases o with
        | saveTask row =>
            cases r with
            | error _ => cases hsave
            | ok v =>
                cases exec_ok hx
                rcases Job.savesSettled hj hc with ⟨-, id, bids, h', heq⟩ | ⟨S', e', hset⟩
                · rw [heq] at howes owed
                  rcases owes_saved hsave rfl howes with hd | ho
                  · cases S <;> cases hd
                  · exact .inl (owed ho)
                · obtain ⟨d, id, bids, winner, h', heq, hd', -⟩ := hset.split
                  rw [heq] at howes owed
                  rcases owes_saved hsave (savedTask_of_settled hd') howes with hd | ho
                  · obtain ⟨rfl, rfl⟩ := Settling.settled_unique hd hd'
                    refine .inr ⟨row.id, (hset.stake hs).1, ?_⟩
                    rw [Store.statusOf_saveTask, if_pos rfl, hset.status]
                  · exact .inl (owed ho)
        | _ => cases hsave
  · refine .inr ⟨taskId, by rw [(stake_exec hj hc hx taskId).2, hstake], ?_⟩
    by_cases ho : ∃ row, o = .saveTask row
    · obtain ⟨row, rfl⟩ := ho
      rcases exec_saveTask hx with ⟨-, rfl⟩ | ⟨hf, rfl⟩
      · exact hstatus
      · rw [Store.statusOf_saveTask]
        split_ifs with hid
        · subst hid
          rcases hkeep row rfl hf hstatus with hfinal | hnone
          · rw [hfinal]
          · exact absurd hold (hnone e hstake)
        · exact hstatus
    · rw [Store.statusOf_congr (exec_tasks hx fun row heq => ho ⟨row, heq⟩)]
      exact hstatus

end

/-! ## Free escrows -/

/-- No settlement of the escrow `e` is on record, and nobody owes one. -/
def Free (S : Settling) (m : Store) (t : Trace Op Reply) (e : String) : Prop :=
  (∀ bid ∈ m.bids, bid.escrowId = e → m.statusOf bid.taskId ≠ some S.final) ∧
    ∀ c ∈ t, owes S e (own c.pid t) = false

instance (S : Settling) (m : Store) (t : Trace Op Reply) (e : String) :
    Decidable (Free S m t e) :=
  inferInstanceAs (Decidable (_ ∧ _))

theorem Free.not_settled {S : Settling} {m : Store} {t : Trace Op Reply} {e : String}
    (hfree : Free S m t e) (hrec : Recorded S m t) : ¬ Settled S e t := by
  intro hset
  rcases hrec e hset with ⟨c, hc, howes⟩ | ⟨taskId, hstake, hstatus⟩
  · rw [hfree.2 c hc] at howes
    cases howes
  · obtain ⟨bid, hbid, hescrow, rfl⟩ := Store.exists_of_stake hstake
    exact hfree.1 bid hbid hescrow hstatus

end TrustGate.Market
