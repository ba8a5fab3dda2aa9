import TrustGate.Market.Worker

set_option autoImplicit false

/-! # What each program calls, and after which replies

For each program of the market, an inductive predicate lists the calls it can make, each with the
replies the process got before it, newest first. `body_follows` says that the lists are complete,
whatever is replied. Everything about interleavings is proved from these lists and never looks at
a program again. -/

namespace TrustGate.Market

open Resumption

/-- What a process has called so far and been replied, newest first. -/
abbrev Hist := Past Op Reply

/-- The process has read the task `taskId` and then its bids. -/
def read (taskId : String) (task : Task) (bids : List Bid) (h : Hist) : Hist :=
  ⟨.findBids taskId, .ok bids⟩ :: ⟨.findTask taskId, .ok (some task)⟩ :: h

/-! ## Emitting an event -/

inductive EmitCall : Hist → Op → Prop
  | uuid (h : Hist) : EmitCall h .randomUUID
  | insert (h : Hist) (event : OutboxEvent) (unprocessed : event.processedAt = none) :
      EmitCall (⟨.randomUUID, .ok event.id⟩ :: h) (.insertEvent event)

/-- The calls an emission makes. -/
def Op.emits : Op → Bool
  | .randomUUID => true
  | .insertEvent _ => true
  | _ => false

theorem EmitCall.emits {h : Hist} {o : Op} (hc : EmitCall h o) : o.emits = true := by
  cases hc <;> rfl

section

variable {P : Hist → Op → Prop} {h : Hist} {type aggregateType aggregateId : String}
  {payload : Json}

theorem emit_calls {Q : Hist → Except JsError Unit → Prop}
    (hP : ∀ l o, (∀ d ∈ l, d.op.emits = true) → EmitCall (l ++ h) o → P (l ++ h) o)
    (hQ : ∀ l r, (∀ d ∈ l, d.op.emits = true) → Q (l ++ h) r) :
    Ensures P Q (emit type aggregateType aggregateId payload) h := by
  unfold emit
  rw [ensures_call_bind]
  refine ⟨hP [] _ (by simp) (.uuid h), ?_, fun e => hQ [_] _ (by simp [Op.emits])⟩
  intro id
  let event : OutboxEvent := ⟨id, type, aggregateType, aggregateId, payload, none, 0, none⟩
  exact ⟨hP [_] _ (by simp [Op.emits]) (.insert h event rfl), fun r => hQ [_, _] r (by simp [Op.emits])⟩

theorem outboxEmit_calls (cfg : Settings) {Q : Hist → Except JsError Unit → Prop}
    (hP : ∀ l o, (∀ d ∈ l, d.op.emits = true) → EmitCall (l ++ h) o → P (l ++ h) o)
    (hQ : ∀ l r, (∀ d ∈ l, d.op.emits = true) → Q (l ++ h) r) :
    Ensures P Q (outboxEmit cfg type aggregateType aggregateId payload) h := by
  unfold outboxEmit
  split_ifs
  · exact emit_calls hP hQ
  · exact hQ [] _ (by simp)

end

/-! ## Selecting a winner -/

/-- The bid `selectWinner` picks from `bids`. -/
def auctionWinner (bids : List Bid) : Option Bid :=
  match pendingBids bids with
  | [] => none
  | first :: rest => some (lowestBid first rest)

structure Auction (task : Task) (bids : List Bid) (winner : Bid) : Prop where
  opened : task.status = .open
  won : auctionWinner bids = some winner

/-- The process has assigned the task it had read. -/
def assigned (taskId : String) (task : Task) (bids : List Bid) (h : Hist) : Hist :=
  ⟨.saveTask { task with status := .assigned }, .ok ()⟩ :: read taskId task bids h

/-- The process has saved the winning bid as well. -/
def awarded (taskId : String) (task : Task) (bids : List Bid) (winner : Bid) (h : Hist) : Hist :=
  ⟨.saveBid { winner with status := .selected }, .ok ()⟩ :: assigned taskId task bids h

/-- Nothing but rejections was saved. -/
def Rejections (saves : Hist) : Prop :=
  ∀ d ∈ saves, ∃ bid : Bid, d.op = .saveBid { bid with status := .rejected }

inductive SelectCall (taskId : String) : Hist → Op → Prop
  | find (h : Hist) : SelectCall taskId h (.findTask taskId)
  | bids (task : Task) (h : Hist) (opened : task.status = .open) :
      SelectCall taskId (⟨.findTask taskId, .ok (some task)⟩ :: h) (.findBids taskId)
  | assign (task : Task) (bids : List Bid) (winner : Bid) (h : Hist)
      (auction : Auction task bids winner) :
      SelectCall taskId (read taskId task bids h) (.saveTask { task with status := .assigned })
  | award (task : Task) (bids : List Bid) (winner : Bid) (h : Hist)
      (auction : Auction task bids winner) :
      SelectCall taskId (assigned taskId task bids h) (.saveBid { winner with status := .selected })
  | reject (task : Task) (bids : List Bid) (winner bid : Bid) (saves h : Hist)
      (auction : Auction task bids winner) (rejections : Rejections saves)
      (pending : bid ∈ pendingBids bids) (loser : bid.id ≠ winner.id) :
      SelectCall taskId (saves ++ awarded taskId task bids winner h)
        (.saveBid { bid with status := .rejected })

/-- How a selection that began after `h` ends: without having assigned the task, after a failed
call, or with every bid it had read saved as won or lost. -/
inductive SelectEnd (taskId : String) (h : Hist) : Hist → Prop
  | idle (new : Hist) (none : ∀ d ∈ new, ∀ task, d.op ≠ .saveTask task) :
      SelectEnd taskId h (new ++ h)
  | failed (o : Op) (e : JsError) (h' : Hist) : SelectEnd taskId h (⟨o, .error e⟩ :: h')
  | done (task : Task) (bids : List Bid) (winner : Bid) (saves : Hist)
      (auction : Auction task bids winner) (rejections : Rejections saves)
      (all : ∀ bid ∈ pendingBids bids, bid.id ≠ winner.id →
        ⟨.saveBid { bid with status := .rejected }, .ok ()⟩ ∈ saves) :
      SelectEnd taskId h (saves ++ awarded taskId task bids winner h)

theorem rejectOthers_calls {taskId : String} {task : Task} {bids : List Bid} {winner : Bid}
    (h : Hist) (auction : Auction task bids winner) :
    Ensures (SelectCall taskId) (fun h' r => match r with
      | .ok _ => SelectEnd taskId h h'
      | .error _ => SelectEnd taskId h h')
      (rejectOthers winner (pendingBids bids)) (awarded taskId task bids winner h) := by
  -- what has been saved so far covers the bids before the current one
  refine ensures_forEach (fun rest h' => ∃ saves front, h' = saves ++ awarded taskId task bids winner h
    ∧ Rejections saves ∧ pendingBids bids = front ++ rest ∧ ∀ bid ∈ front, bid.id ≠ winner.id →
      ⟨.saveBid { bid with status := .rejected }, .ok ()⟩ ∈ saves) ?_ ?_ _ _ ?_
  · rintro bid rest _ ⟨saves, front, rfl, hrej, hsplit, hall⟩
    have hmem : bid ∈ pendingBids bids := by rw [hsplit]; simp
    dsimp only
    split_ifs with hne
    · refine ⟨.reject task bids winner bid saves h auction hrej hmem hne, ?_⟩
      rintro (e | ⟨⟩)
      · exact .failed _ e _
      · refine ⟨⟨.saveBid { bid with status := .rejected }, .ok ()⟩ :: saves, front ++ [bid], rfl,
          ?_, by simp [hsplit], ?_⟩
        · rintro d (_ | ⟨_, hd⟩)
          · exact ⟨bid, rfl⟩
          · exact hrej d hd
        · intro b hb hbne
          rw [List.mem_append, List.mem_singleton] at hb
          rcases hb with hb | rfl
          · exact List.mem_cons_of_mem _ (hall b hb hbne)
          · exact List.mem_cons_self
    · refine ⟨saves, front ++ [bid], rfl, hrej, by simp [hsplit], ?_⟩
      intro b hb hbne
      rw [List.mem_append, List.mem_singleton] at hb
      rcases hb with hb | rfl
      · exact hall b hb hbne
      · exact absurd hbne hne
  · rintro _ ⟨saves, front, rfl, hrej, hsplit, hall⟩
    refine .done task bids winner saves auction hrej ?_
    rw [hsplit, List.append_nil]
    exact hall
  · refine ⟨[], [], rfl, ?_, rfl, ?_⟩
    · intro d hd
      cases hd
    · intro bid hb
      cases hb

theorem selectWinner_calls (taskId : String) (h : Hist) :
    Ensures (SelectCall taskId) (fun h' _ => SelectEnd taskId h h') (selectWinner taskId) h := by
  unfold selectWinner
  rw [ensures_call_bind]
  refine ⟨.find h, ?_, fun e => .failed _ e _⟩
  rintro (_ | task)
  · exact .idle [_] (by simp)
  · dsimp only
    split_ifs with hopen
    · exact .idle [_] (by simp)
    · rw [ne_eq, not_not] at hopen
      rw [ensures_call_bind]
      refine ⟨.bids task h hopen, ?_, fun e => .failed _ e _⟩
      intro bids
      cases hp : pendingBids bids with
      | nil => exact .idle [_, _] (by simp)
      | cons first rest =>
          have auction : Auction task bids (lowestBid first rest) :=
            ⟨hopen, by rw [auctionWinner, hp]⟩
          dsimp only
          rw [ensures_call_bind]
          refine ⟨.assign task bids _ h auction, ?_, fun e => .failed _ e _⟩
          intro _
          rw [ensures_call_bind]
          refine ⟨.award task bids _ h auction, ?_, fun e => .failed _ e _⟩
          intro _
          rw [ensures_bind, ← hp]
          refine (rejectOthers_calls h auction).mono (fun _ _ hc => hc) ?_
          rintro h' (e | _) hend <;> exact hend

/-! ## Completing a task -/

/-- A completion request that may go ahead with the task it read. -/
structure Admitted (cfg : Settings) (body : Parsed CompleteBody) (task : Task) (bids : List Bid)
    (winner : Bid) : Prop where
  requester : completeRequester cfg body = .ok task.requesterPublicKey
  assigned : task.status = .assigned
  selected : winningBid bids = some winner
  allowed : winner.executorPublicKey ∉ cfg.executorDenylist

inductive CompleteCall (cfg : Settings) (taskId : String) (body : Parsed CompleteBody) :
    Hist → Op → Prop
  | find : CompleteCall cfg taskId body [] (.findTask taskId)
  | bids (task : Task) (assigned : task.status = .assigned) :
      CompleteCall cfg taskId body [⟨.findTask taskId, .ok (some task)⟩] (.findBids taskId)
  | release (task : Task) (bids : List Bid) (winner : Bid) (sync : cfg.hasOutbox = false)
      (admitted : Admitted cfg body task bids winner) :
      CompleteCall cfg taskId body (read taskId task bids []) (.releaseMilestone winner.escrowId)
  | completed (task : Task) (bids : List Bid) (winner : Bid) (result : ReleaseResult)
      (sync : cfg.hasOutbox = false) (admitted : Admitted cfg body task bids winner) :
      CompleteCall cfg taskId body
        (⟨.releaseMilestone winner.escrowId, .ok result⟩ :: read taskId task bids [])
        (.saveTask { task with status := .completed })
  | completing (task : Task) (bids : List Bid) (winner : Bid) (outbox : cfg.hasOutbox = true)
      (admitted : Admitted cfg body task bids winner) :
      CompleteCall cfg taskId body (read taskId task bids [])
        (.saveTask { task with status := .completing })
  | emits (h : Hist) (o : Op) (emit : EmitCall h o) : CompleteCall cfg taskId body h o

theorem settleCompletion_calls {cfg : Settings} {taskId : String} {body : Parsed CompleteBody}
    {task : Task} {bids : List Bid} {winner : Bid}
    (admitted : Admitted cfg body task bids winner) :
    Ensures (CompleteCall cfg taskId body) (fun _ _ => True) (settleCompletion cfg task winner)
      (read taskId task bids []) := by
  unfold settleCompletion
  cases hout : cfg.hasOutbox with
  | false =>
      simp only [Bool.false_eq_true, not_false_eq_true, if_true, ensures_attempt_bind,
        ensures_call_bind]
      refine ⟨.release task bids winner hout admitted, ?_, fun _ => trivial⟩
      intro result
      exact ⟨.completed task bids winner result hout admitted, fun _ => trivial, fun _ => trivial⟩
  | true =>
      simp only [not_true_eq_false, if_false]
      rw [ensures_call_bind]
      refine ⟨.completing task bids winner hout admitted, ?_, fun _ => trivial⟩
      intro _
      rw [ensures_bind]
      refine outboxEmit_calls cfg (fun l o _ hc => .emits _ o hc) ?_
      rintro l (_ | _) _ <;> trivial

theorem complete_calls (cfg : Settings) (taskId : String) (body : Parsed CompleteBody) :
    Ensures (CompleteCall cfg taskId body) (fun _ _ => True) (complete cfg taskId body) [] := by
  unfold complete
  cases hreq : completeRequester cfg body with
  | error response => trivial
  | ok requester =>
      dsimp only
      rw [ensures_call_bind]
      refine ⟨.find, ?_, fun _ => trivial⟩
      rintro (_ | task)
      · trivial
      · dsimp only
        split_ifs with hother hdone hpending hnot
        any_goals trivial
        rw [ne_eq, not_not] at hother hnot
        rw [ensures_call_bind]
        refine ⟨.bids task hnot, ?_, fun _ => trivial⟩
        intro bids
        cases hwin : winningBid bids with
        | none => trivial
        | some winner =>
            dsimp only
            split_ifs with hdeny
            · trivial
            · exact settleCompletion_calls ⟨hother ▸ hreq, hnot, hwin, hdeny⟩

/-! ## Creating a task -/

inductive CreateTaskCall : Hist → Op → Prop
  | charge (requester : String) (reservePriceStroops : Nat) :
      CreateTaskCall [] (.chargeListingFee requester reservePriceStroops)
  | save (task : Task) (h : Hist) (opened : task.status = .open) :
      CreateTaskCall (⟨.randomUUID, .ok task.id⟩ :: h) (.saveTask task)
  | publish (task : Task) (h : Hist) :
      CreateTaskCall (⟨.saveTask task, .ok ()⟩ :: h) (.publishTask task)
  | emits (h : Hist) (o : Op) (emit : EmitCall h o) : CreateTaskCall h o

theorem saveAndPublish_calls (cfg : Settings) (requester reservePrice description : String)
    (deadline : Nat) (h : Hist) :
    Ensures CreateTaskCall (fun _ _ => True)
      (saveAndPublish cfg requester reservePrice description deadline) h := by
  unfold saveAndPublish
  cases parseUsdcDecimalToStroops reservePrice with
  | error e => trivial
  | ok reservePriceStroops =>
      dsimp only
      rw [ensures_call_bind]
      refine ⟨.emits _ _ (.uuid h), ?_, fun _ => trivial⟩
      intro id
      rw [ensures_call_bind]
      refine ⟨.save ⟨id, requester, reservePriceStroops, description, deadline, .open⟩ h rfl, ?_,
        fun _ => trivial⟩
      intro _
      rw [ensures_attempt_call_bind]
      refine ⟨.publish _ _, ?_⟩
      intro _
      rw [ensures_bind]
      refine outboxEmit_calls cfg (fun l o _ hc => .emits _ o hc) ?_
      rintro l (_ | _) _ <;> trivial

theorem createTask_calls (cfg : Settings) (body : Parsed CreateTaskBody) :
    Ensures CreateTaskCall (fun _ _ => True) (createTask cfg body) [] := by
  unfold createTask
  split_ifs
  · trivial
  cases body with
  | error detail => trivial
  | ok b =>
      dsimp only
      cases parseUsdcDecimalToStroops b.reservePrice with
      | error e => trivial
      | ok reservePriceStroops =>
          cases cfg.publicKeyOf b.secret with
          | none => trivial
          | some key =>
              dsimp only
              split_ifs
              · trivial
              · rw [ensures_attempt_call_bind]
                refine ⟨.charge key reservePriceStroops, ?_⟩
                rintro (e | _)
                · cases e <;> trivial
                · dsimp only
                  rw [ensures_bind]
                  refine (saveAndPublish_calls cfg _ _ _ _ _).mono (fun _ _ hc => hc) ?_
                  rintro _ (_ | _) _ <;> trivial

theorem createPaid_calls (cfg : Settings) (body : Parsed CreateTaskBody) :
    Ensures CreateTaskCall (fun _ _ => True) (createPaid cfg body) [] := by
  unfold createPaid
  split_ifs
  · trivial
  cases body with
  | error detail => trivial
  | ok b =>
      dsimp only
      rw [ensures_bind]
      refine (saveAndPublish_calls cfg _ _ _ _ _).mono (fun _ _ hc => hc) ?_
      rintro _ (_ | _) _ <;> trivial

/-! ## Selecting and bidding -/

inductive SelectRequestCall (taskId : String) : Hist → Op → Prop
  | select (h : Hist) (o : Op) (call : SelectCall taskId h o) : SelectRequestCall taskId h o
  | emits (h : Hist) (o : Op) (emit : EmitCall h o) : SelectRequestCall taskId h o

/-- A selection began after `h` and ended; what was called after that saved nothing. -/
def SelectedEnd (taskId : String) (h h' : Hist) : Prop :=
  ∃ after mid, h' = after ++ mid ∧ SelectEnd taskId h mid ∧ ∀ d ∈ after, d.op.emits = true

theorem SelectedEnd.of_selectEnd {taskId : String} {h h' : Hist} (hend : SelectEnd taskId h h') :
    SelectedEnd taskId h h' :=
  ⟨[], h', rfl, hend, by simp⟩

theorem select_calls (cfg : Settings) (taskId : String) :
    Ensures (SelectRequestCall taskId) (fun h _ => SelectedEnd taskId [] h) (select cfg taskId)
      [] := by
  unfold select
  rw [ensures_attempt_bind, ensures_bind]
  refine (selectWinner_calls taskId []).mono (fun h o hc => .select h o hc) ?_
  rintro h (e | r) hend
  · exact .of_selectEnd hend
  · dsimp only
    rw [ensures_bind]
    refine outboxEmit_calls cfg (fun l o _ hc => .emits _ o hc) ?_
    rintro l (_ | _) hl <;> exact ⟨l, h, rfl, hend, hl⟩

/-- A bid request that passed the policy and locked its collateral. -/
def escrowed (b : CreateBidBody) (task : Task) (escrowId : String) : Hist :=
  [⟨.createEscrow b.executor b.taskId b.collateral, .ok escrowId⟩,
    ⟨.isRegistered b.executor, .ok true⟩, ⟨.findTask b.taskId, .ok (some task)⟩]

/-- The bid the request places. -/
structure Placed (cfg : Settings) (b : CreateBidBody) (task : Task) (bid : Bid) : Prop where
  opened : task.status = .open
  allowed : b.executor ∉ cfg.executorDenylist
  pending : bid.status = .pending
  task : bid.taskId = b.taskId
  executor : bid.executorPublicKey = b.executor
  amount : parseUsdcDecimalToStroops b.amount = .ok bid.amountStroops
  collateral : parseUsdcDecimalToStroops b.collateral = .ok bid.collateralStroops

/-- The bid has been saved. -/
def placed (b : CreateBidBody) (task : Task) (bid : Bid) : Hist :=
  ⟨.saveBid bid, .ok ()⟩ :: ⟨.dateNow, .ok bid.createdAt⟩ :: ⟨.randomUUID, .ok bid.id⟩ ::
    escrowed b task bid.escrowId

inductive BidCall (cfg : Settings) (b : CreateBidBody) : Hist → Op → Prop
  | find : BidCall cfg b [] (.findTask b.taskId)
  | register (task : Task) (opened : task.status = .open) :
      BidCall cfg b [⟨.findTask b.taskId, .ok (some task)⟩] (.isRegistered b.executor)
  | escrow (task : Task) (opened : task.status = .open) :
      BidCall cfg b [⟨.isRegistered b.executor, .ok true⟩, ⟨.findTask b.taskId, .ok (some task)⟩]
        (.createEscrow b.executor b.taskId b.collateral)
  | now (h : Hist) : BidCall cfg b h .dateNow
  | save (task : Task) (bid : Bid) (valid : Placed cfg b task bid) :
      BidCall cfg b
        (⟨.dateNow, .ok bid.createdAt⟩ :: ⟨.randomUUID, .ok bid.id⟩ ::
          escrowed b task bid.escrowId)
        (.saveBid bid)
  | select (task : Task) (bid : Bid) (valid : Placed cfg b task bid) (h : Hist) (o : Op)
      (saved : placed b task bid <:+ h) (call : SelectCall b.taskId h o) : BidCall cfg b h o
  | emits (h : Hist) (o : Op) (emit : EmitCall h o) : BidCall cfg b h o

/-- How a bid request ends: nothing of it that saved a task is left undone. -/
inductive BidEnd (b : CreateBidBody) : Hist → Prop
  | idle (h : Hist) (none : ∀ d ∈ h, ∀ task, d.op ≠ .saveTask task) : BidEnd b h
  | selected (h h' : Hist) (none : ∀ d ∈ h, ∀ task, d.op ≠ .saveTask task)
      (done : SelectEnd b.taskId h h') : BidEnd b h'

theorem placeBid_calls {cfg : Settings} {b : CreateBidBody} {task : Task} (escrowId : String)
    (opened : task.status = .open) (allowed : b.executor ∉ cfg.executorDenylist) :
    Ensures (BidCall cfg b) (fun h _ => BidEnd b h) (placeBid cfg b escrowId)
      (escrowed b task escrowId) := by
  unfold placeBid
  cases hamount : parseUsdcDecimalToStroops b.amount with
  | error e => exact .idle _ (by simp [escrowed])
  | ok amountStroops =>
      cases hcollateral : parseUsdcDecimalToStroops b.collateral with
      | error e => exact .idle _ (by simp [escrowed])
      | ok collateralStroops =>
          dsimp only
          rw [ensures_call_bind]
          refine ⟨.emits _ _ (.uuid _), ?_, fun e => .idle _ (by simp [escrowed])⟩
          intro id
          rw [ensures_call_bind]
          refine ⟨.now _, ?_, fun e => .idle _ (by simp [escrowed])⟩
          intro createdAt
          let bid : Bid := ⟨id, b.taskId, b.executor, amountStroops, collateralStroops, escrowId,
            .pending, createdAt⟩
          have valid : Placed cfg b task bid :=
            ⟨opened, allowed, rfl, rfl, rfl, hamount, hcollateral⟩
          rw [ensures_call_bind]
          refine ⟨.save task bid valid, ?_, fun e => .idle _ (by simp [escrowed])⟩
          intro _
          have hold : ∀ d ∈ placed b task bid, ∀ task, d.op ≠ .saveTask task := by
            simp [placed, escrowed]
          rw [ensures_bind]
          refine outboxEmit_calls cfg (fun l o _ hc => .emits _ o hc) ?_
          rintro l r hl
          have hnone : ∀ d ∈ l ++ placed b task bid, ∀ task, d.op ≠ .saveTask task := by
            intro d hd t heq
            rcases List.mem_append.mp hd with hd | hd
            · have := hl d hd
              rw [heq] at this
              cases this
            · exact hold d hd t heq
          cases r with
          | error e => exact .idle _ hnone
          | ok u =>
              dsimp only
              rw [ensures_attempt_bind]
              refine (selectWinner_calls b.taskId (l ++ placed b task bid)).grows.mono ?_ ?_
              · rintro h o ⟨hc, hsuffix⟩
                exact .select task bid valid h o ((List.suffix_append _ _).trans hsuffix) hc
              · rintro h' r ⟨hend, -⟩
                exact .selected _ h' hnone hend

theorem authorizeExecutorPayment_calls {P : Hist → Op → Prop} {h : Hist} (executor : String)
    {Q : Hist → Except JsError Unit → Prop} (hP : P h (.isRegistered executor))
    (hok : Q (⟨.isRegistered executor, .ok true⟩ :: h) (.ok ()))
    (herror : ∀ r e, Q (⟨.isRegistered executor, r⟩ :: h) (.error e)) :
    Ensures P Q (authorizeExecutorPayment executor) h := by
  unfold authorizeExecutorPayment
  rw [ensures_call_bind]
  refine ⟨hP, ?_, fun e => herror _ e⟩
  rintro (_ | _)
  · exact herror _ _
  · exact hok

theorem createBid_calls {cfg : Settings} (b : CreateBidBody) :
    Ensures (BidCall cfg b) (fun h _ => BidEnd b h) (createBid cfg (.ok b)) [] := by
  unfold createBid
  split_ifs
  · exact .idle _ (by simp)
  dsimp only
  cases bidSecretError cfg b with
  | some response => exact .idle _ (by simp)
  | none =>
      dsimp only
      split_ifs with hdeny
      · exact .idle _ (by simp)
      rw [ensures_call_bind]
      refine ⟨.find, ?_, fun e => .idle _ (by simp)⟩
      rintro (_ | task)
      · exact .idle _ (by simp)
      dsimp only
      split_ifs with hopen
      · exact .idle _ (by simp)
      rw [ne_eq, not_not] at hopen
      rw [ensures_attempt_bind]
      refine authorizeExecutorPayment_calls _ (.register task hopen) ?_ ?_
      · rw [ensures_attempt_call_bind]
        refine ⟨.escrow task hopen, ?_⟩
        rintro (e | escrowId)
        · exact .idle _ (by simp)
        · exact placeBid_calls escrowId hopen hdeny
      · rintro r e
        cases e <;> exact .idle _ (by simp)

/-! ## Publishing a result -/

inductive ResultCall (cfg : Settings) (taskId : String) : Hist → Op → Prop
  | find : ResultCall cfg taskId [] (.findTask taskId)
  | bids (task : Task) (assigned : task.status = .assigned) :
      ResultCall cfg taskId [⟨.findTask taskId, .ok (some task)⟩] (.findBids taskId)
  | upsert (task : Task) (bids : List Bid) (payload : Json) (assigned : task.status = .assigned) :
      ResultCall cfg taskId (read taskId task bids [])
        (.upsertResult taskId payload (cfg.payloadHash payload))
  | stored (h : Hist) : ResultCall cfg taskId h (.findResult taskId)
  | emits (h : Hist) (o : Op) (emit : EmitCall h o) : ResultCall cfg taskId h o

theorem publishResult_calls (cfg : Settings) (taskId : String) (key : Option String)
    (payload : Option Json) :
    Ensures (ResultCall cfg taskId) (fun _ _ => True) (publishResult cfg taskId key payload) [] := by
  unfold publishResult
  rw [ensures_call_bind]
  refine ⟨.find, ?_, fun _ => trivial⟩
  rintro (_ | task)
  · trivial
  dsimp only
  split_ifs with hassigned
  · trivial
  rw [ne_eq, not_not] at hassigned
  rw [ensures_call_bind]
  refine ⟨.bids task hassigned, ?_, fun _ => trivial⟩
  intro bids
  cases winningBid bids with
  | none => trivial
  | some selectedBid =>
      cases key with
      | none => trivial
      | some executor =>
          dsimp only
          split_ifs
          · trivial
          cases payload with
          | none => trivial
          | some payload =>
              dsimp only
              unfold publishPayload
              rw [ensures_bind, ensures_call_bind]
              refine ⟨.upsert task bids payload hassigned, ?_, fun _ => trivial⟩
              intro _
              rw [ensures_call_bind]
              refine ⟨.stored _, ?_, fun _ => trivial⟩
              rintro (_ | stored)
              · trivial
              · simp only [ensures_pure]
                rw [ensures_bind]
                refine outboxEmit_calls cfg (fun l o _ hc => .emits _ o hc) ?_
                rintro l (_ | _) _ <;> trivial

/-! ## Sweeping -/

/-- The sweep took its list of expired tasks from what it read at `now`, and has read no task
since. -/
structure Snapshot (h : Hist) (now : Nat) (tasks : List Task) : Prop where
  split : ∃ new, h = new ++ [⟨.listTasks, .ok tasks⟩, ⟨.dateNow, .ok now⟩] ∧
    ∀ d ∈ new, d.op ≠ .listTasks ∧ ∀ id, d.op ≠ .findTask id

inductive SweepCall : Hist → Op → Prop
  | now : SweepCall [] .dateNow
  | list (now : Nat) : SweepCall [⟨.dateNow, .ok now⟩] .listTasks
  | bids (now : Nat) (tasks : List Task) (task : Task) (h : Hist) (snapshot : Snapshot h now tasks)
      (mem : task ∈ expiredAssignedTasks now tasks) : SweepCall h (.findBids task.id)
  | confiscate (now : Nat) (tasks : List Task) (task : Task) (bids : List Bid) (winner : Bid)
      (h : Hist) (snapshot : Snapshot h now tasks) (mem : task ∈ expiredAssignedTasks now tasks)
      (selected : winningBid bids = some winner) :
      SweepCall (⟨.findBids task.id, .ok bids⟩ :: h)
        (.confiscate winner.escrowId (formatUsdcStroopsToDecimal winner.collateralStroops))
  | expired (now : Nat) (tasks : List Task) (task : Task) (bids : List Bid) (winner : Bid)
      (result : ConfiscateResult) (h : Hist) (snapshot : Snapshot h now tasks)
      (mem : task ∈ expiredAssignedTasks now tasks) (selected : winningBid bids = some winner) :
      SweepCall
        (⟨.confiscate winner.escrowId (formatUsdcStroopsToDecimal winner.collateralStroops),
          .ok result⟩ :: ⟨.findBids task.id, .ok bids⟩ :: h)
        (.saveTask { task with status := .expired })
  | emits (h : Hist) (o : Op) (emit : EmitCall h o) : SweepCall h o

theorem Snapshot.cons {h : Hist} {now : Nat} {tasks : List Task} (hs : Snapshot h now tasks)
    {d : Done Op Reply} (hlist : d.op ≠ .listTasks) (hfind : ∀ id, d.op ≠ .findTask id) :
    Snapshot (d :: h) now tasks := by
  obtain ⟨new, rfl, hnew⟩ := hs.split
  refine ⟨d :: new, rfl, ?_⟩
  rintro d' (_ | ⟨_, hd⟩)
  · exact ⟨hlist, hfind⟩
  · exact hnew d' hd

theorem Snapshot.append {h : Hist} {now : Nat} {tasks : List Task} (hs : Snapshot h now tasks)
    {l : Hist} (hl : ∀ d ∈ l, d.op.emits = true) : Snapshot (l ++ h) now tasks := by
  induction l with
  | nil => exact hs
  | cons d l ih =>
      have hd := hl d (by simp)
      refine (ih fun d hm => hl d (by simp [hm])).cons ?_ ?_
      · intro heq; rw [heq] at hd; cases hd
      · intro id heq; rw [heq] at hd; cases hd

theorem expireTask_calls (cfg : Settings) {now : Nat} {tasks : List Task} {task : Task} {h : Hist}
    (hs : Snapshot h now tasks) (mem : task ∈ expiredAssignedTasks now tasks) :
    Ensures SweepCall (fun h r => match r with
      | .ok _ => Snapshot h now tasks
      | .error _ => True) (expireTask cfg task) h := by
  unfold expireTask
  rw [ensures_call_bind]
  refine ⟨.bids now tasks task h hs mem, ?_, fun _ => trivial⟩
  intro bids
  have hs₁ : Snapshot (⟨.findBids task.id, .ok bids⟩ :: h) now tasks := hs.cons (by simp) (by simp)
  cases hwin : winningBid bids with
  | none => exact hs₁
  | some winner =>
      dsimp only
      rw [ensures_attempt_call_bind]
      refine ⟨.confiscate now tasks task bids winner h hs mem hwin, ?_⟩
      rintro (e | result)
      · exact hs₁.cons (by simp) (by simp)
      · dsimp only
        rw [ensures_call_bind]
        refine ⟨.expired now tasks task bids winner result h hs mem hwin, ?_, fun _ => trivial⟩
        intro _
        rw [ensures_bind]
        refine outboxEmit_calls cfg (fun l o _ hc => .emits _ o hc) ?_
        rintro l (_ | _) hl
        · trivial
        · exact ((hs₁.cons (by simp) (by simp)).cons (by simp) (by simp)).append hl

theorem expireTasks_calls (cfg : Settings) {now : Nat} {tasks : List Task} (rest : List Task) :
    ∀ (expired : List String) (h : Hist), Snapshot h now tasks →
      (∀ task ∈ rest, task ∈ expiredAssignedTasks now tasks) →
      Ensures SweepCall (fun _ _ => True) (expireTasks cfg expired rest) h := by
  induction rest with
  | nil => exact fun _ _ _ _ => trivial
  | cons task rest ih =>
      intro expired h hs hmem
      unfold expireTasks
      rw [ensures_bind]
      refine (expireTask_calls cfg hs (hmem task (by simp))).mono (fun _ _ hc => hc) ?_
      rintro h (e | done) hs
      · trivial
      · exact ih _ h hs fun t ht => hmem t (by simp [ht])

theorem runOnce_calls (cfg : Settings) :
    Ensures SweepCall (fun _ _ => True) (runOnce cfg) [] := by
  unfold runOnce
  rw [ensures_call_bind]
  refine ⟨.now, ?_, fun _ => trivial⟩
  intro now
  rw [ensures_call_bind]
  refine ⟨.list now, ?_, fun _ => trivial⟩
  intro tasks
  exact expireTasks_calls cfg _ _ _ ⟨[], rfl, by simp⟩ fun _ ht => ht

end TrustGate.Market
