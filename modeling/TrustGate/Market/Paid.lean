import TrustGate.Market.Requested

set_option autoImplicit false

/-! # A final status stands for settled money

Both calls that settle an escrow answer with a record that has a field `success`, and nobody reads
it. A final status therefore stands for money only as far as the provider does not resolve a call
that it did not carry out. -/

namespace TrustGate.Market

open Resumption

/-! ## What the provider says -/

/-- The provider resolved the call with `success: true`. -/
def successful : Done Op Reply → Bool
  | ⟨.releaseMilestone _, .ok release⟩ => release.success
  | ⟨.confiscate _ _, .ok result⟩ => result.success
  | _ => false

/-- The escrow `e` was settled, by the word of the provider. -/
def Paid (S : Settling) (e : String) (t : Trace Op Reply) : Prop :=
  ∃ c ∈ t, S.settled ⟨c.op, c.reply⟩ = some e ∧ successful ⟨c.op, c.reply⟩ = true

instance (S : Settling) (e : String) (t : Trace Op Reply) : Decidable (Paid S e t) :=
  inferInstanceAs (Decidable (∃ c ∈ t, _))

theorem Paid.cons {S : Settling} {e : String} {t : Trace Op Reply} (h : Paid S e t)
    (c : Call Op Reply) : Paid S e (c :: t) := by
  obtain ⟨c', hc', hpaid⟩ := h
  exact ⟨c', List.mem_cons_of_mem c hc', hpaid⟩

/-- The selected bid of the task, as the process last read it. -/
def lastSelected (taskId : String) : Hist → Option Bid
  | [] => none
  | ⟨.findBids id, .ok bids⟩ :: h => if id = taskId then winningBid bids else lastSelected taskId h
  | _ :: h => lastSelected taskId h

/-- If the call saves a task with a final status, the process has read the selected bid of the task
and the escrow of that bid was settled accordingly. -/
def FinalPaid (earlier : Trace Op Reply) (c : Call Op Reply) : Prop :=
  ∀ row S, c.op = .saveTask row → row.status = S.final →
    ∃ winner, lastSelected row.id (own c.pid earlier) = some winner ∧ winner.taskId = row.id ∧
      winner.status = .selected ∧ Paid S winner.escrowId earlier

/-! ## Calls -/

/-- **Who saves a final status**: a process whose last call settled the escrow. -/
theorem Job.savesFinal {j : Job} {h : Hist} {row : Task} {S : Settling}
    (hc : j.Calls h (.saveTask row)) (hrow : row.status = S.final) :
    ∃ d id bids winner h', h = d :: ⟨.findBids id, .ok bids⟩ :: h' ∧
      S.settled d = some winner.escrowId ∧ winningBid bids = some winner ∧
      (id = row.id ∨ ∃ task, task.id = row.id ∧ ⟨.findTask id, .ok (some task)⟩ ∈ h') := by
  have unopened : row.status ≠ .open := by
    rw [hrow]
    cases S <;> simp [Settling.final]
  have unassigned : row.status ≠ .assigned := by
    rw [hrow]
    cases S <;> simp [Settling.final]
  cases Job.commits hc rfl with
  | createTask cfg body row h opened => exact absurd opened unopened
  | createPaid cfg body row h opened => exact absurd opened unopened
  | select cfg taskId h o call => cases call; exact absurd rfl unassigned
  | bidSelect cfg b h o call => cases call; exact absurd rfl unassigned
  | completing => cases S <;> cases hrow
  | completed cfg taskId body task bids winner result admitted =>
      cases S with
      | release =>
          exact ⟨_, _, _, winner, _, rfl, rfl, admitted.selected,
            .inr ⟨task, rfl, List.mem_cons_self⟩⟩
      | confiscation => cases hrow
  | expired cfg now tasks task bids winner result h snapshot mem selected =>
      cases S with
      | release => cases hrow
      | confiscation => exact ⟨_, _, _, winner, _, rfl, rfl, selected, .inl rfl⟩
  | handlerCompleted cfg claimCursor taskId task bids winner result h completing selected =>
      cases S with
      | release =>
          exact ⟨_, _, _, winner, _, rfl, rfl, selected, .inr ⟨task, rfl, List.mem_cons_self⟩⟩
      | confiscation => cases hrow

/-- A settlement that the provider resolves is a successful one, or the escrow was settled
before. -/
def PaysOut (_ : Store) (t : Trace Op Reply) (_ : Nat) (o : Op) (c : Outcome) : Prop :=
  match o with
  | .releaseMilestone e => c.fault = .none → c.release.success = true ∨ Paid .release e t
  | .confiscate e _ => c.fault = .none → c.dispute.success = true ∨ Paid .confiscation e t
  | _ => True

instance (m : Store) (t : Trace Op Reply) (pid : Nat) (o : Op) (c : Outcome) :
    Decidable (PaysOut m t pid o c) := by
  apply Op.casesOn (motive := fun o => Decidable (PaysOut m t pid o c)) o <;> intros <;>
    unfold PaysOut <;> infer_instance

/-- All jobs, with any faults and crashes, under a provider that pays out what it resolves. -/
abbrev payingOut : Regime Op Reply Job Outcome Store :=
  ⟨fun _ => True, PaysOut, True⟩

section

variable {S : Settling} {m m' : Store} {t : Trace Op Reply} {pid : Nat} {j : Job} {o : Op}
  {c : Outcome} {r : Reply o} {e : String}

/-- A settlement under such a provider is paid out. -/
theorem paid_exec (hx : exec o c m = some (r, m')) (hcall : PaysOut m t pid o c)
    (h : S.settled ⟨o, r⟩ = some e) : Paid S e (⟨pid, o, r⟩ :: t) := by
  obtain ⟨ho, hf⟩ := settled_exec hx h
  obtain ⟨v, hp, rfl⟩ := exec_calm hx hf
  have either : successful ⟨o, .ok v⟩ = true ∨ Paid S e t → Paid S e (⟨pid, o, .ok v⟩ :: t) := by
    rintro (hs | hpaid)
    · exact ⟨_, List.mem_cons_self, h, hs⟩
    · exact hpaid.cons _
  cases S with
  | release =>
      cases o with
      | releaseMilestone e' =>
          cases ho
          cases hp
          exact either (hcall hf)
      | _ => cases ho
  | confiscation =>
      cases o with
      | confiscate e' amount =>
          cases ho
          cases hp
          exact either (hcall hf)
      | _ => cases ho

end

/-! ## Runs -/

/-- Settlements were paid out, reads answer what was asked, and final statuses stand for money. -/
structure Backed (t : Trace Op Reply) : Prop where
  answered : Answered t
  paid : ∀ S e, Settled S e t → Paid S e t
  final : EachCall FinalPaid t

theorem Backed.initial : Backed [] where
  answered := ⟨fun _ _ _ h => absurd h List.not_mem_nil, fun _ _ _ h => absurd h List.not_mem_nil⟩
  paid := by
    rintro S e ⟨c, hc, -⟩
    cases hc
  final := trivial

/-- The save of a final status. -/
theorem Backed.saves {t : Trace Op Reply} {pid : Nat} {j : Job} {o : Op} {r : Reply o}
    (h : Backed t) (hc : j.Calls (own pid t) o) : FinalPaid t ⟨pid, o, r⟩ := by
  rintro row S rfl hrow
  obtain ⟨d, id, bids, winner, h', hown, hset, hwin, hid⟩ := Job.savesFinal hc hrow
  have hd : d ∈ own pid t := by rw [hown]; simp
  have hbids : (⟨.findBids id, .ok bids⟩ : Done Op Reply) ∈ own pid t := by rw [hown]; simp
  have hrow : id = row.id := by
    rcases hid with hid | ⟨task, htask, hmem⟩
    · exact hid
    · have hfind : (⟨.findTask id, .ok (some task)⟩ : Done Op Reply) ∈ own pid t := by
        rw [hown]; simp [hmem]
      rw [← htask, h.answered.task pid id task (mem_own.mp hfind)]
  refine ⟨winner, ?_, ?_, ?_, h.paid S winner.escrowId ⟨_, mem_own.mp hd, hset⟩⟩
  · -- the settlement is no read of bids
    rw [hown]
    obtain ⟨o', r'⟩ := d
    have hskip : lastSelected row.id (⟨o', r'⟩ :: ⟨.findBids id, .ok bids⟩ :: h') =
        lastSelected row.id (⟨.findBids id, .ok bids⟩ :: h') := by
      cases r' with
      | error _ => cases hset
      | ok v =>
          change S.escrow o' = some winner.escrowId at hset
          cases S <;> cases o' <;> first | rfl | cases hset
    rw [hskip, lastSelected, if_pos hrow, hwin]
  · rw [← hrow]
    exact h.answered.bids pid id bids (mem_own.mp hbids) winner (List.mem_of_find?_eq_some hwin)
  · simpa using List.find?_some hwin

theorem Backed.call {m m' : Store} {t : Trace Op Reply} {pid : Nat} {j : Job} {o : Op} {c : Outcome}
    {r : Reply o} (h : Backed t) (hc : j.Calls (own pid t) o) (hcall : PaysOut m t pid o c)
    (hx : exec o c m = some (r, m')) : Backed (⟨pid, o, r⟩ :: t) := by
  refine ⟨h.answered.call hx, ?_, h.saves hc, h.final⟩
  intro S e hset
  rcases settled_cons hset with hnew | hold
  · exact paid_exec hx hcall hnew
  · exact (h.paid S e hold).cons _

/-- **A final status stands for settled money**, in a run whose provider pays out what it
resolves. -/
theorem final_paid (m : Store) (sched : List (Act Job Outcome))
    (pays : Meets market payingOut (.initial m) sched) :
    EachCall FinalPaid (runSched market (.initial m) sched).trace :=
  (runSched_rule (I := fun _ t => Backed t) (Q := Job.Ended) (fun j _ => body_follows j)
    (fun _ _ _ _ _ _ _ _ h _ hc hcall hx => h.call hc hcall hx)
    sched _ .initial (.initial m) pays).1.final

theorem late_task_completed_paid :
    EachCall FinalPaid (runSched market (.initial lateStore)
      [.spawn completeAtOnce, goes 0, goes 0, goes 0, goes 0]).trace :=
  final_paid lateStore _ (by decide +kernel)

/-- The provider resolves the release and says that it failed. -/
def releaseUnpaid (pid : Nat) : List (Act Job Outcome) :=
  [.spawn completeAtOnce, goes pid, goes pid, .run pid { release := ⟨false, "", "0", ""⟩ }, goes pid]

theorem unpaid_task_completed :
    ¬ EachCall FinalPaid (runSched market (.initial lateStore) (releaseUnpaid 0)).trace := by
  have unpaid : ∀ c ∈ (runSched market (.initial lateStore) (releaseUnpaid 0)).trace,
      successful ⟨c.op, c.reply⟩ = false := by decide +kernel
  rintro ⟨hsave, -⟩
  obtain ⟨winner, -, -, -, c, hc, -, hpaid⟩ :=
    hsave { lateTask with status := .completed } .release rfl rfl
  rw [unpaid c (List.mem_cons_of_mem _ hc)] at hpaid
  cases hpaid

end TrustGate.Market
