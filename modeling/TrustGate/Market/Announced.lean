import TrustGate.Market.Wire

set_option autoImplicit false

/-! # No false announcement

An event of the outbox is all that other processes learn of a state change. Whatever fails, crashes
or runs in between, an event is there only if the process that inserted it had made the change
first and was told that it took effect: a task is announced as completed after its escrow was
released and the task saved, as expired after the confiscation, and so on (`Tells`). The converse
is not so: an operation that is cut off between the two leaves a change that nobody announces. -/

namespace TrustGate.Market

open Resumption

/-! ## What an event stands for -/

/-- What a process has just done when it announces it, event by event. -/
inductive Tells : Hist → EventContent → Prop
  | taskCreated (id : String) (task : Task) (r : Reply (.publishTask task)) (h : Hist) :
      Tells (⟨.publishTask task, r⟩ :: ⟨.saveTask task, .ok ()⟩ :: h)
        ⟨id, "task_created", "task", task.id, toTaskDto task⟩
  | taskAssigned (id taskId : String) (task : Task) (bids : List Bid) (winner : Bid)
      (saves h : Hist) (auction : Auction task bids winner) (rejections : Rejections saves)
      (all : ∀ bid ∈ pendingBids bids, bid.id ≠ winner.id →
        ⟨.saveBid { bid with status := .rejected }, .ok ()⟩ ∈ saves) :
      Tells (saves ++ awarded taskId task bids winner h)
        ⟨id, "task_assigned", "task", task.id, selectionJson
          ⟨{ task with status := .assigned }, { winner with status := .selected }⟩⟩
  | completionRequested (id taskId : String) (task : Task) (bids : List Bid) (winner : Bid)
      (h : Hist) (assigned : task.status = .assigned) (selected : winningBid bids = some winner) :
      Tells (⟨.saveTask { task with status := .completing }, .ok ()⟩ :: read taskId task bids h)
        ⟨id, "task_completion_requested", "task", task.id,
          .obj [("taskId", .str task.id), ("escrowId", .str winner.escrowId)]⟩
  | taskCompleted (id taskId sourceEventId : String) (task : Task) (bids : List Bid) (winner : Bid)
      (release : ReleaseResult) (h : Hist) (completing : task.status = .completing)
      (selected : winningBid bids = some winner) :
      Tells (⟨.saveTask { task with status := .completed }, .ok ()⟩ ::
          ⟨.releaseMilestone winner.escrowId, .ok release⟩ :: read taskId task bids h)
        ⟨id, "task_completed", "task", task.id, .obj [
          ("task", toTaskDto { task with status := .completed }), ("release", release.json),
          ("sourceEventId", .str sourceEventId)]⟩
  | bidPlaced (id : String) (b : CreateBidBody) (task : Task) (bid : Bid) (h : Hist) :
      Tells (placed b task bid ++ h) ⟨id, "bid_placed", "bid", bid.id, toBidDto bid⟩
  | resultPublished (id taskId : String) (task : Task) (bids : List Bid) (executor : Bid)
      (payload : Json) (hash : String) (stored : TaskResultRecord) (h : Hist)
      (assigned : task.status = .assigned) (selected : winningBid bids = some executor) :
      Tells (⟨.findResult taskId, .ok (some stored)⟩ ::
          ⟨.upsertResult taskId payload hash, .ok ()⟩ :: read taskId task bids h)
        ⟨id, "result_published", "task", taskId, .obj [
          ("taskId", .str stored.taskId),
          ("executorPublicKey", .str executor.executorPublicKey),
          ("payloadHash", .str stored.payloadHash),
          ("publishedAt", dateJson stored.createdAt)]⟩
  | taskExpired (id : String) (task : Task) (bids : List Bid) (winner : Bid)
      (result : ConfiscateResult) (h : Hist) (selected : winningBid bids = some winner) :
      Tells (⟨.saveTask { task with status := .expired }, .ok ()⟩ ::
          ⟨.confiscate winner.escrowId (formatUsdcStroopsToDecimal winner.collateralStroops),
            .ok result⟩ :: ⟨.findBids task.id, .ok bids⟩ :: h)
        ⟨id, "task_expired", "task", task.id, .obj [("taskId", .str task.id)]⟩

/-- The event is inserted under the UUID just drawn, and tells what was done before that. -/
def Announces (h : Hist) (event : OutboxEvent) : Prop :=
  ∃ h', h = ⟨.randomUUID, .ok event.id⟩ :: h' ∧ Tells h' event.content

/-- An event that the operation inserts announces what was done. -/
def Truthful (h : Hist) (o : Op) : Prop := ∀ event, o = .insertEvent event → Announces h event

theorem truthful_of_ne {h : Hist} {o : Op} (ho : o.inserts = false) : Truthful h o := by
  rintro event rfl
  cases ho

/-! ## Every emission -/

section

variable {h : Hist} {type aggregateType aggregateId : String} {payload : Json}

theorem emit_truthful (htells : ∀ id, Tells h ⟨id, type, aggregateType, aggregateId, payload⟩) :
    Ensures Truthful (fun _ _ => True) (emit type aggregateType aggregateId payload) h := by
  unfold emit
  rw [ensures_call_bind]
  refine ⟨truthful_of_ne rfl, ?_, fun _ => trivial⟩
  intro id
  refine ⟨?_, fun _ => trivial⟩
  rintro event heq
  cases heq
  exact ⟨h, rfl, htells id⟩

theorem outboxEmit_truthful (cfg : Settings)
    (htells : ∀ id, Tells h ⟨id, type, aggregateType, aggregateId, payload⟩) :
    Ensures Truthful (fun _ _ => True) (outboxEmit cfg type aggregateType aggregateId payload) h := by
  unfold outboxEmit
  split_ifs
  · exact emit_truthful htells
  · trivial

/-- An emission and the rest of its program, which emits nothing more. -/
theorem outboxEmit_bind_truthful {α : Type} {f : Unit → Js α} (cfg : Settings)
    (htells : ∀ id, Tells h ⟨id, type, aggregateType, aggregateId, payload⟩)
    (hf : Throughout Truthful (f ())) :
    Ensures Truthful (fun _ _ => True)
      (outboxEmit cfg type aggregateType aggregateId payload >>= f) h := by
  rw [ensures_bind]
  refine (outboxEmit_truthful cfg htells).mono (fun _ _ ho => ho) ?_
  rintro h (e | _) _
  · trivial
  · exact hf h

end

theorem await_truthful {o : Op} (ho : o.inserts = false) : Throughout Truthful (await o) :=
  fun _ => ⟨truthful_of_ne ho, fun _ => trivial⟩

/-! ## The requests -/

theorem saveAndPublish_truthful (cfg : Settings) (requester reservePrice description : String)
    (deadline : Nat) :
    Throughout Truthful (saveAndPublish cfg requester reservePrice description deadline) := by
  intro h
  unfold saveAndPublish
  cases parseUsdcDecimalToStroops reservePrice with
  | error e => trivial
  | ok reservePriceStroops =>
      dsimp only
      rw [ensures_call_bind]
      refine ⟨truthful_of_ne rfl, ?_, fun _ => trivial⟩
      intro id
      rw [ensures_call_bind]
      refine ⟨truthful_of_ne rfl, ?_, fun _ => trivial⟩
      intro _
      rw [ensures_attempt_call_bind]
      refine ⟨truthful_of_ne rfl, fun r => ?_⟩
      exact outboxEmit_bind_truthful cfg (fun eventId => .taskCreated eventId _ r _) (.pure _)

theorem createTask_truthful (cfg : Settings) (body : Parsed CreateTaskBody) :
    Throughout Truthful (createTask cfg body) := by
  unfold createTask
  split_ifs
  · exact .pure _
  cases body with
  | error detail => exact .pure _
  | ok b =>
      dsimp only
      split
      · exact .pure _
      split
      · exact .pure _
      split_ifs
      · exact .pure _
      refine .bind (.attempt (await_truthful rfl)) fun charged => ?_
      split
      · exact .pure _
      · exact .pure _
      · exact .bind (saveAndPublish_truthful cfg _ _ _ _) fun _ => .pure _

theorem createPaid_truthful (cfg : Settings) (body : Parsed CreateTaskBody) :
    Throughout Truthful (createPaid cfg body) := by
  unfold createPaid
  split_ifs
  · exact .pure _
  cases body with
  | error detail => exact .pure _
  | ok b => exact .bind (saveAndPublish_truthful cfg _ _ _ _) fun _ => .pure _

/-- The losing bids are saved one after the other; those of `front` are done. -/
theorem rejectOthers_truthful {taskId : String} {task : Task} {bids : List Bid} {winner : Bid}
    {h : Hist} :
    Ensures Truthful (fun h' r => r = .ok () → ∃ saves,
        h' = saves ++ awarded taskId task bids winner h ∧ Rejections saves ∧
        ∀ bid ∈ pendingBids bids, bid.id ≠ winner.id →
          ⟨.saveBid { bid with status := .rejected }, .ok ()⟩ ∈ saves)
      (rejectOthers winner (pendingBids bids)) (awarded taskId task bids winner h) := by
  refine ensures_forEach (fun rest h' => ∃ saves front,
    h' = saves ++ awarded taskId task bids winner h ∧ Rejections saves ∧
    pendingBids bids = front ++ rest ∧ ∀ bid ∈ front, bid.id ≠ winner.id →
      ⟨.saveBid { bid with status := .rejected }, .ok ()⟩ ∈ saves) ?_ ?_ _ _ ?_
  · rintro bid rest _ ⟨saves, front, rfl, hrej, hsplit, hall⟩
    split_ifs with hne
    · refine ⟨truthful_of_ne rfl, ?_⟩
      rintro (e | ⟨⟩)
      · intro heq
        cases heq
      · refine ⟨⟨.saveBid { bid with status := .rejected }, .ok ()⟩ :: saves, front ++ [bid], rfl,
          ?_, by simp [hsplit], ?_⟩
        · rintro d (_ | ⟨_, hd⟩)
          · exact ⟨bid, rfl⟩
          · exact hrej d hd
        · intro b hb hbne
          rw [List.mem_append, List.mem_singleton] at hb
          rcases hb with hb | rfl
          · exact List.mem_cons_of_mem _ (hall b hb hbne)
          · exact List.mem_cons_self
    · refine ⟨saves, front ++ [bid], rfl, hrej, by simp [hsplit], ?_⟩
      intro b hb hbne
      rw [List.mem_append, List.mem_singleton] at hb
      rcases hb with hb | rfl
      · exact hall b hb hbne
      · exact absurd hbne hne
  · rintro _ ⟨saves, front, rfl, hrej, hsplit, hall⟩ -
    refine ⟨saves, rfl, hrej, ?_⟩
    rw [hsplit, List.append_nil]
    exact hall
  · refine ⟨[], [], rfl, ?_, rfl, ?_⟩
    · intro d hd
      cases hd
    · intro bid hb
      cases hb

/-- A selection that succeeds answers with what it has saved. -/
theorem selectWinner_truthful (taskId : String) (h : Hist) :
    Ensures Truthful (fun h' r => ∀ result, r = .ok result →
      ∀ id, Tells h' ⟨id, "task_assigned", "task", result.task.id, selectionJson result⟩)
      (selectWinner taskId) h := by
  unfold selectWinner
  rw [ensures_call_bind]
  refine ⟨truthful_of_ne rfl, ?_, fun e result heq => nomatch heq⟩
  rintro (_ | task)
  · exact fun result heq => nomatch heq
  dsimp only
  split_ifs with hopen
  · exact fun result heq => nomatch heq
  rw [ne_eq, not_not] at hopen
  rw [ensures_call_bind]
  refine ⟨truthful_of_ne rfl, ?_, fun e result heq => nomatch heq⟩
  intro bids
  cases hp : pendingBids bids with
  | nil => exact fun result heq => nomatch heq
  | cons first rest =>
      have auction : Auction task bids (lowestBid first rest) :=
        ⟨hopen, by rw [auctionWinner, hp]⟩
      dsimp only
      rw [ensures_call_bind]
      refine ⟨truthful_of_ne rfl, ?_, fun e result heq => nomatch heq⟩
      intro _
      rw [ensures_call_bind]
      refine ⟨truthful_of_ne rfl, ?_, fun e result heq => nomatch heq⟩
      intro _
      rw [ensures_bind, ← hp]
      refine rejectOthers_truthful.mono (fun _ _ ho => ho) ?_
      rintro h' (e | _) hend
      · exact fun result heq => nomatch heq
      · obtain ⟨saves, rfl, hrej, hall⟩ := hend rfl
        intro result heq id
        cases heq
        exact .taskAssigned id taskId task bids _ saves h auction hrej hall

theorem select_truthful (cfg : Settings) (taskId : String) :
    Throughout Truthful (select cfg taskId) := by
  unfold select
  refine .bind (.attempt fun h => ?_) fun result => ?_
  · rw [ensures_bind]
    refine (selectWinner_truthful taskId h).mono (fun _ _ ho => ho) ?_
    rintro h' (e | r) htells
    · trivial
    · exact outboxEmit_bind_truthful cfg (htells r rfl) (.pure _)
  · cases result <;> exact .pure _

theorem complete_truthful (cfg : Settings) (taskId : String) (body : Parsed CompleteBody) :
    Throughout Truthful (complete cfg taskId body) := by
  intro h
  unfold complete
  cases completeRequester cfg body with
  | error response => trivial
  | ok requester =>
      dsimp only
      rw [ensures_call_bind]
      refine ⟨truthful_of_ne rfl, ?_, fun _ => trivial⟩
      rintro (_ | task)
      · trivial
      dsimp only
      split_ifs with hother hdone hpending hnot
      any_goals trivial
      rw [ne_eq, not_not] at hnot
      rw [ensures_call_bind]
      refine ⟨truthful_of_ne rfl, ?_, fun _ => trivial⟩
      intro bids
      cases hwin : winningBid bids with
      | none => trivial
      | some winner =>
          dsimp only
          split_ifs
          · trivial
          unfold settleCompletion
          split_ifs with hout
          · rw [ensures_call_bind]
            refine ⟨truthful_of_ne rfl, fun _ => ?_, fun _ => trivial⟩
            exact outboxEmit_bind_truthful cfg
              (fun id => .completionRequested id taskId task bids winner h hnot hwin) (.pure _)
          · refine Throughout.bind (.attempt (.bind (await_truthful rfl) fun _ =>
              .bind (await_truthful rfl) fun _ => .pure _)) (fun result => ?_) _
            cases result <;> exact .pure _

theorem placeBid_truthful (cfg : Settings) (b : CreateBidBody) (task : Task) (escrowId : String)
    (h : Hist) :
    Ensures Truthful (fun _ _ => True) (placeBid cfg b escrowId)
      (escrowed b task escrowId ++ h) := by
  unfold placeBid
  cases parseUsdcDecimalToStroops b.amount with
  | error e => trivial
  | ok amountStroops =>
      cases parseUsdcDecimalToStroops b.collateral with
      | error e => trivial
      | ok collateralStroops =>
          dsimp only
          rw [ensures_call_bind]
          refine ⟨truthful_of_ne rfl, ?_, fun _ => trivial⟩
          intro id
          rw [ensures_call_bind]
          refine ⟨truthful_of_ne rfl, ?_, fun _ => trivial⟩
          intro createdAt
          rw [ensures_call_bind]
          refine ⟨truthful_of_ne rfl, fun _ => ?_, fun _ => trivial⟩
          have hselect : Throughout Truthful (selectWinner b.taskId) := fun h =>
            (selectWinner_truthful b.taskId h).mono (fun _ _ ho => ho) fun _ _ _ => trivial
          exact outboxEmit_bind_truthful cfg
            (fun eventId => .bidPlaced eventId b task ⟨id, b.taskId, b.executor, amountStroops,
              collateralStroops, escrowId, .pending, createdAt⟩ h)
            (.bind (.attempt hselect) fun _ => .pure _)

theorem createBid_truthful (cfg : Settings) (body : Parsed CreateBidBody) :
    Throughout Truthful (createBid cfg body) := by
  intro h
  unfold createBid
  split_ifs
  · trivial
  cases body with
  | error detail => trivial
  | ok b =>
      dsimp only
      cases bidSecretError cfg b with
      | some response => trivial
      | none =>
          dsimp only
          split_ifs
          · trivial
          rw [ensures_call_bind]
          refine ⟨truthful_of_ne rfl, ?_, fun _ => trivial⟩
          rintro (_ | task)
          · trivial
          dsimp only
          split_ifs
          · trivial
          rw [ensures_attempt_bind]
          refine authorizeExecutorPayment_calls _ (truthful_of_ne rfl) ?_ ?_
          · rw [ensures_attempt_call_bind]
            refine ⟨truthful_of_ne rfl, ?_⟩
            rintro (e | escrowId)
            · trivial
            · exact placeBid_truthful cfg b task escrowId h
          · rintro r e
            cases e <;> trivial

theorem publishResult_truthful (cfg : Settings) (taskId : String) (key : Option String)
    (payload : Option Json) : Throughout Truthful (publishResult cfg taskId key payload) := by
  intro h
  unfold publishResult
  rw [ensures_call_bind]
  refine ⟨truthful_of_ne rfl, ?_, fun _ => trivial⟩
  rintro (_ | task)
  · trivial
  dsimp only
  split_ifs with hassigned
  · trivial
  rw [ne_eq, not_not] at hassigned
  rw [ensures_call_bind]
  refine ⟨truthful_of_ne rfl, ?_, fun _ => trivial⟩
  intro bids
  cases hwin : winningBid bids with
  | none => trivial
  | some selectedBid =>
      cases key with
      | none => trivial
      | some executor =>
          dsimp only
          split_ifs with hother
          · trivial
          rw [ne_eq, not_not] at hother
          subst hother
          cases payload with
          | none => trivial
          | some payload =>
              dsimp only
              unfold publishPayload
              rw [ensures_bind, ensures_call_bind]
              refine ⟨truthful_of_ne rfl, ?_, fun _ => trivial⟩
              intro _
              rw [ensures_call_bind]
              refine ⟨truthful_of_ne rfl, ?_, fun _ => trivial⟩
              rintro (_ | stored)
              · trivial
              · simp only [ensures_pure]
                exact outboxEmit_bind_truthful cfg
                  (fun id => .resultPublished id taskId task bids selectedBid payload _ stored h
                    hassigned hwin) (.pure _)

/-! ## The sweep -/

theorem expireTask_truthful (cfg : Settings) (task : Task) :
    Throughout Truthful (expireTask cfg task) := by
  intro h
  unfold expireTask
  rw [ensures_call_bind]
  refine ⟨truthful_of_ne rfl, ?_, fun _ => trivial⟩
  intro bids
  cases hwin : winningBid bids with
  | none => trivial
  | some winner =>
      dsimp only
      rw [ensures_attempt_call_bind]
      refine ⟨truthful_of_ne rfl, ?_⟩
      rintro (e | result)
      · trivial
      · dsimp only
        rw [ensures_call_bind]
        refine ⟨truthful_of_ne rfl, fun _ => ?_, fun _ => trivial⟩
        exact outboxEmit_bind_truthful cfg
          (fun id => .taskExpired id task bids winner result h hwin) (.pure _)

theorem expireTasks_truthful (cfg : Settings) (tasks : List Task) :
    ∀ expired, Throughout Truthful (expireTasks cfg expired tasks) := by
  induction tasks with
  | nil => exact fun _ => .pure _
  | cons task tasks ih => exact fun _ => .bind (expireTask_truthful cfg task) fun _ => ih _

theorem runOnce_truthful (cfg : Settings) : Throughout Truthful (runOnce cfg) :=
  .bind (await_truthful rfl) fun _ => .bind (await_truthful rfl) fun _ =>
    expireTasks_truthful cfg _ _

/-! ## The worker -/

theorem handleTaskCompletionRequested_truthful (eventId : String) (payload : Json) :
    Throughout Truthful (handleTaskCompletionRequested eventId payload) := by
  intro h
  unfold handleTaskCompletionRequested
  split_ifs
  · trivial
  dsimp only
  split_ifs
  · trivial
  rw [ensures_call_bind]
  refine ⟨truthful_of_ne rfl, ?_, fun _ => trivial⟩
  rintro (_ | task)
  · trivial
  dsimp only
  split_ifs with hdone hcompleting
  · trivial
  · trivial
  rw [ne_eq, not_not] at hcompleting
  rw [ensures_call_bind]
  refine ⟨truthful_of_ne rfl, ?_, fun _ => trivial⟩
  intro bids
  cases hwin : winningBid bids with
  | none => trivial
  | some winner =>
      dsimp only
      rw [ensures_call_bind]
      refine ⟨truthful_of_ne rfl, ?_, fun _ => trivial⟩
      intro release
      rw [ensures_call_bind]
      refine ⟨truthful_of_ne rfl, fun _ => ?_, fun _ => trivial⟩
      exact emit_truthful fun id =>
        .taskCompleted id _ eventId task bids winner release h hcompleting hwin

section

variable (cfg : Settings)

theorem handleResultPublished_truthful (eventId : String) (payload : Json) :
    Throughout Truthful (handleResultPublished cfg eventId payload) := by
  have hdate : Throughout Truthful (publishedAtOf payload) := by
    unfold publishedAtOf
    split
    · exact .bind (await_truthful rfl) fun _ => .pure _
    · exact .bind (await_truthful rfl) fun _ => .pure _
    · exact .pure _
  unfold handleResultPublished
  split
  · exact .pure _
  split_ifs
  · exact .throw _
  refine .bind hdate fun publishedAt => ?_
  split_ifs
  · exact .throw _
  · exact await_truthful rfl

theorem dispatch_truthful (eventId type : String) (payload : Json) :
    Throughout Truthful (dispatch cfg eventId type payload) := by
  unfold dispatch
  split_ifs
  · exact handleTaskCompletionRequested_truthful _ _
  · exact handleResultPublished_truthful cfg _ _
  · exact .pure _

theorem computeBackoff_truthful (attempts : Nat) : Throughout Truthful (computeBackoff attempts) :=
  .bind (await_truthful rfl) fun _ => .pure _

theorem dispatchStarted_truthful (handlerName consumedId eventId type : String) (payload : Json)
    (attempts : Nat) : Throughout Truthful
      (dispatchStarted cfg handlerName consumedId eventId type payload attempts) := by
  unfold dispatchStarted
  refine .bind (.attempt (.bind (dispatch_truthful cfg _ _ _) fun _ => await_truthful rfl))
    fun result => ?_
  cases result with
  | ok _ => exact .pure _
  | error e => exact .bind (computeBackoff_truthful _) fun _ => await_truthful rfl

theorem handleEntry_truthful (entry : StreamEntry) : Throughout Truthful (handleEntry cfg entry) := by
  unfold handleEntry
  split_ifs
  · exact await_truthful rfl
  refine .bind (await_truthful rfl) fun started => ?_
  split_ifs
  · refine .bind (.attempt (dispatchStarted_truthful cfg _ _ _ _ _ _)) fun result => ?_
    refine .bind (await_truthful rfl) fun _ => ?_
    cases result with
    | ok _ => exact .pure _
    | error e => exact .throw _
  · exact await_truthful rfl

theorem retryRecord_truthful (record : EventConsumptionRecord) :
    Throughout Truthful (retryRecord cfg record) := by
  unfold retryRecord
  refine .bind (await_truthful rfl) fun started => ?_
  split_ifs
  · refine .bind (await_truthful rfl) fun event => ?_
    cases event with
    | none => exact .bind (computeBackoff_truthful _) fun _ => await_truthful rfl
    | some event => exact dispatchStarted_truthful cfg _ _ _ _ _ _
  · exact .pure _

theorem publishEvent_truthful (event : OutboxEvent) : Throughout Truthful (publishEvent event) := by
  refine .bind (.attempt (.bind (await_truthful rfl) fun _ => await_truthful rfl)) fun result => ?_
  cases result with
  | ok _ => exact .pure _
  | error e => exact await_truthful rfl

theorem tick_truthful (claimCursor : Nat) : Throughout Truthful (tick cfg claimCursor) := by
  unfold tick
  refine .bind (.bind (await_truthful rfl) fun events => .forEach publishEvent_truthful events)
    fun _ => ?_
  split_ifs
  · exact .pure _
  refine .bind (.bind (await_truthful rfl) fun claimed => .forEach (handleEntry_truthful cfg) _)
    fun _ => ?_
  refine .bind (.bind (await_truthful rfl) fun entries => .forEach (handleEntry_truthful cfg) entries)
    fun _ => ?_
  exact .forEach (fun handlerName =>
    .bind (await_truthful rfl) fun _ => .forEach (retryRecord_truthful cfg) _) _

end

/-! ## Every run -/

theorem body_truthful (j : Job) : Follows Truthful (fun _ _ => True) j.body [] := by
  cases j with
  | createTask cfg body => exact toEnd_follows (createTask_truthful cfg body [])
  | createPaid cfg body => exact toEnd_follows (createPaid_truthful cfg body [])
  | select cfg taskId => exact toEnd_follows (select_truthful cfg taskId [])
  | complete cfg taskId body => exact toEnd_follows (complete_truthful cfg taskId body [])
  | createBid cfg body => exact toEnd_follows (createBid_truthful cfg body [])
  | publishResult cfg taskId key payload =>
      exact toEnd_follows (publishResult_truthful cfg taskId key payload [])
  | runOnce cfg => exact toEnd_follows (runOnce_truthful cfg [])
  | tick cfg claimCursor => exact toEnd_follows (tick_truthful cfg claimCursor [])

/-- A process inserted the event when it had just done what the event tells. -/
def ToldBy (t : Trace Op Reply) (pid : Nat) (content : EventContent) : Prop :=
  ∃ event r earlier, event.content = content ∧ ⟨pid, .insertEvent event, r⟩ :: earlier <:+ t ∧
    Announces (own pid earlier) event

theorem ToldBy.mono {t t' : Trace Op Reply} {pid : Nat} {content : EventContent} (ht : t <:+ t')
    (h : ToldBy t pid content) : ToldBy t' pid content := by
  obtain ⟨event, r, earlier, heq, hs, ha⟩ := h
  exact ⟨event, r, earlier, heq, hs.trans ht, ha⟩

theorem told_run (m : Store) (outbox : m.outbox = []) (sched : List (Act Job Outcome)) :
    ∀ content ∈ (runSched market (.initial m) sched).state.contents,
      ∃ pid, ToldBy (runSched market (.initial m) sched).trace pid content := by
  refine (runSched_rule (R := .any)
    (I := fun m t => ∀ content ∈ m.contents, ∃ pid, ToldBy t pid content)
    (fun j _ => body_truthful j) ?_ sched (.initial m) ?_ (.initial m)
    (meets_any market sched _)).1
  · rintro m t pid j o c r m' htold - htrue - hx content hcontent
    have hgrown : t <:+ ⟨pid, o, r⟩ :: t := List.suffix_cons _ _
    rcases contents_exec hx with heq | ⟨event, rfl, heq⟩
    · obtain ⟨p, hp⟩ := htold content (heq ▸ hcontent)
      exact ⟨p, hp.mono hgrown⟩
    · rw [heq] at hcontent
      rcases List.mem_append.mp hcontent with hold | hnew
      · obtain ⟨p, hp⟩ := htold content hold
        exact ⟨p, hp.mono hgrown⟩
      · cases List.mem_singleton.mp hnew
        exact ⟨pid, event, r, t, rfl, List.suffix_rfl, htrue event rfl⟩
  · intro content hcontent
    change content ∈ m.outbox.map OutboxEvent.content at hcontent
    simp [outbox] at hcontent

/-! ## One announcement for a settlement -/

/-- Distinct points of a list where an element with `q` comes next are at most as many as these
elements. -/
theorem length_le_countP {α : Type} {q : α → Bool} (l : List α) : ∀ {points : List (List α)},
    points.Nodup → (∀ s ∈ points, ∃ a, a :: s <:+ l ∧ q a = true) →
    points.length ≤ l.countP q := by
  induction l with
  | nil =>
      intro points _ hpoints
      cases points with
      | nil => exact le_rfl
      | cons s points =>
          obtain ⟨a, hs, -⟩ := hpoints s List.mem_cons_self
          exact absurd (List.suffix_nil.mp hs) (List.cons_ne_nil _ _)
  | cons a l ih =>
      intro points hnodup hpoints
      classical
      -- the point right before `a` is one of them, or it is not
      have hrest : ∀ s ∈ points.erase l, ∃ b, b :: s <:+ l ∧ q b = true := by
        intro s hs
        obtain ⟨hne, hmem⟩ := hnodup.mem_erase_iff.mp hs
        obtain ⟨b, hb, hq⟩ := hpoints s hmem
        rcases List.suffix_cons_iff.mp hb with heq | hb
        · exact absurd (List.cons.inj heq).2 hne
        · exact ⟨b, hb, hq⟩
      have hle := ih (hnodup.erase l) hrest
      rw [List.countP_cons]
      by_cases hl : l ∈ points
      · obtain ⟨b, hb, hq⟩ := hpoints l hl
        have ha : b = a := by
          rcases List.suffix_cons_iff.mp hb with heq | hb
          · exact (List.cons.inj heq).1
          · exact absurd hb.length_le (by simp)
        rw [List.length_erase_of_mem hl] at hle
        rw [if_pos (ha ▸ hq)]
        omega
      · rw [List.erase_of_not_mem hl] at hle
        omega

/-- The process announced the event right after a call with `q` and one more. -/
theorem ToldBy.point {t : Trace Op Reply} {pid : Nat} {content : EventContent}
    {q : Done Op Reply → Bool} (h : ToldBy t pid content)
    (hq : ∀ h, Tells h content → ∃ d d' rest, h = d :: d' :: rest ∧ q d' = true) :
    ∃ d earlier, ∃ c : Call Op Reply, c :: earlier <:+ t ∧ c.pid = pid ∧
      q ⟨c.op, c.reply⟩ = true ∧
      ⟨.randomUUID, .ok content.id⟩ :: d :: ⟨c.op, c.reply⟩ :: own pid earlier <:+ own pid t := by
  obtain ⟨event, r, before, rfl, hs, h', hown, htells⟩ := h
  obtain ⟨d, d', rest, rfl, hd'⟩ := hq h' htells
  have hpast : own pid before <:+ own pid t :=
    ((List.suffix_cons _ _).trans (own_suffix hs))
  rw [hown] at hpast
  obtain ⟨earlier, hearlier, rfl⟩ := exists_call_of_suffix
    (((List.suffix_cons _ _).trans (List.suffix_cons _ _)).trans hpast)
  exact ⟨d, earlier, ⟨pid, d'.op, d'.reply⟩, hearlier, rfl, hd', hpast⟩

/-- Two lists of one length at the end of a list are the same. -/
theorem suffix_unique {α : Type} {a b l : List α} (ha : a <:+ l) (hb : b <:+ l)
    (hlength : a.length = b.length) : a = b := by
  rcases List.suffix_or_suffix_of_suffix ha hb with h | h
  · exact h.eq_of_length hlength
  · exact (h.eq_of_length hlength.symm).symm

/-- Events that each come right after a call with `q` are at most as many as these calls. -/
theorem told_le_calls {contents : List EventContent} {t : Trace Op Reply}
    {K : EventContent → Bool} {q : Done Op Reply → Bool}
    (hids : (contents.map EventContent.id).Nodup)
    (htold : ∀ content ∈ contents, ∃ pid, ToldBy t pid content)
    (hq : ∀ content h, K content = true → Tells h content →
      ∃ d d' rest, h = d :: d' :: rest ∧ q d' = true) :
    contents.countP K ≤ t.countP fun c => q ⟨c.op, c.reply⟩ := by
  have hpoint : ∀ content, ∃ earlier, content ∈ contents.filter K →
      ∃ d, ∃ c : Call Op Reply, c :: earlier <:+ t ∧ q ⟨c.op, c.reply⟩ = true ∧
        ⟨.randomUUID, .ok content.id⟩ :: d :: ⟨c.op, c.reply⟩ :: own c.pid earlier <:+
          own c.pid t := by
    intro content
    by_cases hmem : content ∈ contents.filter K
    · obtain ⟨hcontent, hk⟩ := List.mem_filter.mp hmem
      obtain ⟨pid, hp⟩ := htold content hcontent
      obtain ⟨d, earlier, c, hs, rfl, hc, hown⟩ := hp.point fun h => hq content h hk
      exact ⟨earlier, fun _ => ⟨d, c, hs, hc, hown⟩⟩
    · exact ⟨[], fun h => absurd h hmem⟩
  choose point hpoint using hpoint
  have hnodup : ((contents.filter K).map point).Nodup := by
    refine List.Nodup.map_on ?_ ((hids.of_map _).filter K)
    intro a ha b hb heq
    obtain ⟨d, c, hs, -, hown⟩ := hpoint a ha
    obtain ⟨d', c', hs', -, hown'⟩ := hpoint b hb
    rw [← heq] at hs' hown'
    -- one call, after which one UUID was drawn
    obtain ⟨rfl, -⟩ := List.cons.inj (suffix_unique hs hs' rfl)
    have huuid := (List.cons.inj (suffix_unique hown hown' rfl)).1
    have hid : a.id = b.id := by simpa using huuid
    exact List.inj_on_of_nodup_map hids (List.mem_of_mem_filter ha) (List.mem_of_mem_filter hb) hid
  have hle := length_le_countP (q := fun c : Call Op Reply => q ⟨c.op, c.reply⟩) t hnodup ?_
  · rwa [List.length_map, ← List.countP_eq_length_filter] at hle
  · intro s hs
    obtain ⟨content, hcontent, rfl⟩ := List.mem_map.mp hs
    obtain ⟨-, c, hs, hc, -⟩ := hpoint content hcontent
    exact ⟨c, hs, hc⟩

/-- The call released an escrow. -/
def hasReleased (d : Done Op Reply) : Bool :=
  match d.op, d.reply with
  | .releaseMilestone _, .ok _ => true
  | _, _ => false

/-- The call confiscated an escrow. -/
def hasConfiscated (d : Done Op Reply) : Bool :=
  match d.op, d.reply with
  | .confiscate _ _, .ok _ => true
  | _, _ => false

theorem Tells.released {h : Hist} {content : EventContent} (ht : Tells h content)
    (htype : content.type = "task_completed") :
    ∃ d d' rest, h = d :: d' :: rest ∧ hasReleased d' = true := by
  cases ht with
  | taskCompleted => exact ⟨_, _, _, rfl, rfl⟩
  | _ => simp at htype

theorem Tells.confiscated {h : Hist} {content : EventContent} (ht : Tells h content)
    (htype : content.type = "task_expired") :
    ∃ d d' rest, h = d :: d' :: rest ∧ hasConfiscated d' = true := by
  cases ht with
  | taskExpired => exact ⟨_, _, _, rfl, rfl⟩
  | _ => simp at htype

/-- **No false announcement**, from an empty outbox, whatever runs, fails or crashes: every event
of the outbox was inserted by a process that had just done what the event tells, and had been
answered that it took effect. Events have distinct ids, and no settlement is announced twice:
there are at most as many completed tasks announced as releases were made, and as many expired
ones as confiscations. -/
theorem announcements_true (m : Store) (hm : m.Consistent) (outbox : m.outbox = [])
    (sched : List (Act Job Outcome)) :
    let cfg := runSched market (.initial m) sched
    (∀ content ∈ cfg.state.contents, ∃ pid, ToldBy cfg.trace pid content) ∧
    (cfg.state.contents.map EventContent.id).Nodup ∧
    (cfg.state.contents.countP fun content => content.type = "task_completed") ≤
      (cfg.trace.countP fun c => hasReleased ⟨c.op, c.reply⟩) ∧
    (cfg.state.contents.countP fun content => content.type = "task_expired") ≤
      (cfg.trace.countP fun c => hasConfiscated ⟨c.op, c.reply⟩) := by
  intro cfg
  have htold := told_run m outbox sched
  have hids := (traceable_run m hm sched).1.traced.ids
  refine ⟨htold, hids, told_le_calls hids htold ?_, told_le_calls hids htold ?_⟩
  · exact fun content h hk ht => ht.released (of_decide_eq_true hk)
  · exact fun content h hk ht => ht.confiscated (of_decide_eq_true hk)

/-- From the task's creation to the worker that completes it. -/
theorem completion_announced_once :
    let cfg := runSched market (.initial emptyStore)
      (creates 0 "t" ++ bidsAt 1 "1" "b" "e" 1 ++ requests 2 ++ settles 3 ++
        [goes 3, .run 3 { text := "w" }, goes 3])
    cfg.state.contents.map EventContent.type = ["task_completion_requested", "task_completed"] ∧
    (cfg.state.contents.countP fun content => content.type = "task_completed") ≤
      (cfg.trace.countP fun c => hasReleased ⟨c.op, c.reply⟩) ∧
    ∀ content ∈ cfg.state.contents, ∃ pid, ToldBy cfg.trace pid content := by
  obtain ⟨htold, -, hreleased, -⟩ := announcements_true emptyStore emptyStore_consistent rfl
    (creates 0 "t" ++ bidsAt 1 "1" "b" "e" 1 ++ requests 2 ++ settles 3 ++
      [goes 3, .run 3 { text := "w" }, goes 3])
  exact ⟨by decide +kernel, hreleased, htold⟩

end TrustGate.Market
