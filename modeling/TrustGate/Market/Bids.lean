import TrustGate.Market.Handled

set_option autoImplicit false

/-! # The bids of a task under selection

What a selection saves is a verdict on each bid it read, and what a bid request saves besides is a
new bid. Apart from its status, a stored bid never changes: the bids of a task `asPlaced` stay the
same list, in the same order, while verdicts are written. -/

namespace TrustGate.Market

open Resumption

/-! ## Verdicts -/

/-- The bid as it was when it was placed. -/
def Bid.asPlaced (bid : Bid) : Bid := { bid with status := .pending }

/-- The status that an auction won by `winner` gives a bid. -/
def verdict (winner bid : Bid) : BidStatus := if bid.id = winner.id then .selected else .rejected

/-- The bids of a task after an update that leaves their tasks and ages alone. -/
theorem Store.findBids_map {m m' : Store} {f : Bid → Bid} (hbids : m'.bids = m.bids.map f)
    (hbackend : m'.backend = m.backend)
    (hf : ∀ bid, (f bid).taskId = bid.taskId ∧ (f bid).createdAt = bid.createdAt) (taskId : String) :
    m'.findBids taskId = (m.findBids taskId).map f := by
  have hfilter : (m.bids.map f).filter (fun bid => bid.taskId = taskId) =
      (m.bids.filter fun bid => bid.taskId = taskId).map f := by
    rw [List.filter_map]
    congr 2
    funext bid
    simp [hf]
  unfold Store.findBids
  rw [hbackend, hbids, hfilter]
  cases m.backend with
  | inMemory => rfl
  | postgres =>
      refine (List.map_insertionSort _ _ f _ fun a _ b _ => ?_).symm
      rw [(hf a).2, (hf b).2]

theorem verdict_ne_pending (winner bid : Bid) : verdict winner bid ≠ .pending := by
  unfold verdict
  split_ifs <;> decide

/-- What the bid request or admin selection of a task has read before it saves. -/
structure Reads (taskId : String) (h : Hist) (task : Task) (bids : List Bid) (winner : Bid) :
    Prop where
  auction : Auction task bids winner
  readTask : ⟨.findTask taskId, .ok (some task)⟩ ∈ h
  readBids : ⟨.findBids taskId, .ok bids⟩ ∈ h

/-- The process saves its verdict on a bid, after the assigned task. -/
structure Judges (taskId : String) (h : Hist) (task : Task) (bids : List Bid) (winner bid row : Bid) :
    Prop extends Reads taskId h task bids winner where
  pending : bid ∈ pendingBids bids
  judged : row = { bid with status := verdict winner bid }
  assigned : ⟨.saveTask { task with status := .assigned }, .ok ()⟩ ∈ h

section

variable {taskId : String} {h : Hist}

theorem SelectCall.assigns {row : Task} (hc : SelectCall taskId h (.saveTask row)) :
    ∃ task bids winner, Reads taskId h task bids winner ∧ row = { task with status := .assigned } := by
  cases hc with
  | assign task bids winner h auction =>
      exact ⟨task, bids, winner, ⟨auction, by simp [read], by simp [read]⟩, rfl⟩

theorem SelectCall.judges {row : Bid} (hc : SelectCall taskId h (.saveBid row)) :
    ∃ task bids winner bid, Judges taskId h task bids winner bid row := by
  cases hc with
  | award task bids winner h auction =>
      refine ⟨task, bids, winner, winner, ⟨auction, ?_, ?_⟩, auctionWinner_mem auction.won, ?_, ?_⟩
      · simp [assigned, read]
      · simp [assigned, read]
      · simp [verdict]
      · simp [assigned]
  | reject task bids winner bid saves h auction rejections pending loser =>
      refine ⟨task, bids, winner, bid, ⟨auction, ?_, ?_⟩, pending, ?_, ?_⟩
      · simp [awarded, assigned, read]
      · simp [awarded, assigned, read]
      · simp [verdict, loser]
      · simp [awarded, assigned]

end

/-! ## Bid requests and selections -/

/-- The jobs that place bids and select winners. -/
def Job.auctions : Job → Bool
  | .createBid _ _ => true
  | .select _ _ => true
  | _ => false

section

variable {j : Job} {h : Hist}

theorem Job.assigns (hj : j.auctions = true) {row : Task} (hc : j.Calls h (.saveTask row)) :
    ∃ taskId task bids winner, Reads taskId h task bids winner ∧
      row = { task with status := .assigned } := by
  cases Job.commits hc rfl with
  | select cfg taskId h o call => exact ⟨taskId, call.assigns⟩
  | bidSelect cfg b h o call => exact ⟨b.taskId, call.assigns⟩
  | _ => cases hj

theorem Job.judges (hj : j.auctions = true) {row : Bid} (hc : j.Calls h (.saveBid row)) :
    (row.status = .pending ∧ heldId h = some row.id) ∨
      ∃ taskId task bids winner bid, Judges taskId h task bids winner bid row := by
  cases Job.commits hc rfl with
  | select cfg taskId h o call => exact .inr ⟨taskId, call.judges⟩
  | bidSelect cfg b h o call => exact .inr ⟨b.taskId, call.judges⟩
  | bid cfg b task bid valid => exact .inl ⟨valid.pending, rfl⟩

/-- The bids are read for a task that was read `OPEN`. -/
theorem Job.readsBids (hj : j.auctions = true) {taskId : String} (hc : j.Calls h (.findBids taskId)) :
    ∃ task : Task, task.status = .open ∧ ⟨.findTask taskId, .ok (some task)⟩ ∈ h := by
  have select : ∀ taskId', SelectCall taskId' h (.findBids taskId) →
      ∃ task : Task, task.status = .open ∧ ⟨.findTask taskId, .ok (some task)⟩ ∈ h := by
    intro taskId' hc
    cases hc with
    | bids task h opened => exact ⟨task, opened, List.mem_cons_self⟩
  cases j with
  | select cfg taskId' =>
      cases hc with
      | select hc => exact select taskId' hc
      | emits he => cases he
  | createBid cfg body =>
      cases body with
      | error detail => exact hc.elim
      | ok b =>
          cases hc with
          | select task bid valid _ _ saved hc => exact select b.taskId hc
          | emits _ _ he => cases he
  | _ => cases hj

/-- A selection that saved a task and ended without a failed call has judged every bid it read. -/
theorem SelectEnd.judged {taskId : String} {h₀ : Hist} {row : Task}
    (hend : SelectEnd taskId h₀ h) (hok : ∀ d ∈ h, ∃ v, d.reply = .ok v)
    (hnone : ∀ d ∈ h₀, ∀ task, d.op ≠ .saveTask task)
    (hsaved : ⟨.saveTask row, .ok ()⟩ ∈ h) :
    ∃ task bids winner, Reads taskId h task bids winner ∧ row = { task with status := .assigned } ∧
      ∀ bid ∈ pendingBids bids, ∃ saved : Bid, ⟨.saveBid saved, .ok ()⟩ ∈ h ∧
        saved.id = bid.id ∧ saved.status ≠ .pending := by
  cases hend with
  | idle new none =>
      rcases List.mem_append.mp hsaved with hmem | hmem
      · exact absurd rfl (none _ hmem row)
      · exact absurd rfl (hnone _ hmem row)
  | failed o e h' =>
      obtain ⟨v, hv⟩ := hok _ List.mem_cons_self
      cases hv
  | done task bids winner saves auction rejections all =>
      refine ⟨task, bids, winner, ⟨auction, ?_, ?_⟩, ?_, ?_⟩
      · simp [awarded, assigned, read]
      · simp [awarded, assigned, read]
      -- rejections save bids, so the one task saved is the assigned one
      · simp only [awarded, assigned, read, List.mem_append, List.mem_cons] at hsaved
        rcases hsaved with hmem | heq | heq | heq | heq | hmem
        · obtain ⟨bid, hbid⟩ := rejections _ hmem
          cases hbid
        · cases heq
        · cases heq
          rfl
        · cases heq
        · cases heq
        · exact absurd rfl (hnone _ hmem row)
      · intro bid hbid
        by_cases hwin : bid.id = winner.id
        · refine ⟨{ winner with status := .selected }, ?_, hwin.symm, by simp⟩
          simp [awarded]
        · refine ⟨{ bid with status := .rejected }, ?_, rfl, by simp⟩
          exact List.mem_append_left _ (all bid hbid hwin)

/-- A bid request or selection that saved a task and has returned, no call having failed, has
judged every bid it read. -/
theorem Job.judged (hj : j.auctions = true) (hend : j.Ended h)
    (hok : ∀ d ∈ h, ∃ v, d.reply = .ok v) {row : Task} (hsaved : ⟨.saveTask row, .ok ()⟩ ∈ h) :
    ∃ taskId task bids winner, Reads taskId h task bids winner ∧
      row = { task with status := .assigned } ∧
      ∀ bid ∈ pendingBids bids, ∃ saved : Bid, ⟨.saveBid saved, .ok ()⟩ ∈ h ∧
        saved.id = bid.id ∧ saved.status ≠ .pending := by
  cases j with
  | select cfg taskId =>
      obtain ⟨after, mid, rfl, hsel, hafter⟩ := hend
      -- what comes after the selection is an emission
      have hmid : ⟨.saveTask row, .ok ()⟩ ∈ mid := by
        rcases List.mem_append.mp hsaved with hmem | hmem
        · exact absurd (hafter _ hmem) (by simp [Op.emits])
        · exact hmem
      obtain ⟨task, bids, winner, hreads, hrow, hall⟩ := hsel.judged
        (fun d hd => hok d (List.mem_append_right _ hd)) (by simp) hmid
      refine ⟨taskId, task, bids, winner, ⟨hreads.auction, ?_, ?_⟩, hrow, ?_⟩
      · exact List.mem_append_right _ hreads.readTask
      · exact List.mem_append_right _ hreads.readBids
      · intro bid hbid
        obtain ⟨saved, hmem, hsaved⟩ := hall bid hbid
        exact ⟨saved, List.mem_append_right _ hmem, hsaved⟩
  | createBid cfg body =>
      cases body with
      | error detail =>
          rw [show h = [] from hend] at hsaved
          cases hsaved
      | ok b =>
          cases hend with
          | idle _ none => exact absurd rfl (none _ hsaved row)
          | selected h₀ _ none done => exact ⟨b.taskId, done.judged hok none hsaved⟩
  | _ => cases hj

end

end TrustGate.Market
