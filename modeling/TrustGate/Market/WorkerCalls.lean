import TrustGate.Market.Calls

set_option autoImplicit false

/-! # What a worker's tick calls

The calls of a tick, with the dispatch they belong to: between a `tryStart` that answered `started`
and the mark that ends it, the tick is `inFlight` for one handler and event. `body_follows` then
covers every job of the market. -/

namespace TrustGate.Market

open Resumption

/-! ## The dispatch in flight -/

/-- What a call does to the dispatch in flight: start one, end it, or nothing. -/
def flight (d : Done Op Reply) : Option (Option (String × String)) :=
  match d.op, d.reply with
  | .tryStart args, .ok s => if s.started then some (some (args.handlerName, args.eventId)) else none
  | .markSucceeded _ _, .ok _ => some none
  | .markFailed _ _ _ _, _ => some none
  | _, _ => none

/-- The handler and event whose dispatch the process has started and not marked yet. -/
def inFlight : Hist → Option (String × String)
  | [] => none
  | d :: h => (flight d).getD (inFlight h)

@[simp] theorem inFlight_cons {d : Done Op Reply} (h : Hist) (hd : flight d = none) :
    inFlight (d :: h) = inFlight h := by
  rw [inFlight, hd]; rfl

theorem inFlight_append {l : Hist} (h : Hist) (hl : ∀ d ∈ l, d.op.emits = true) :
    inFlight (l ++ h) = inFlight h := by
  induction l with
  | nil => rfl
  | cons d l ih =>
      have hd := hl d (by simp)
      rw [List.cons_append, inFlight_cons, ih fun d hm => hl d (by simp [hm])]
      obtain ⟨o, r⟩ := d
      cases o <;> first | rfl | cases hd

/-! ## The handlers -/

inductive CompletionCall : Hist → Op → Prop
  | find (taskId : String) (h : Hist) : CompletionCall h (.findTask taskId)
  | bids (taskId : String) (task : Task) (h : Hist) (completing : task.status = .completing) :
      CompletionCall (⟨.findTask taskId, .ok (some task)⟩ :: h) (.findBids taskId)
  | release (taskId : String) (task : Task) (bids : List Bid) (winner : Bid) (h : Hist)
      (completing : task.status = .completing) (selected : winningBid bids = some winner) :
      CompletionCall (read taskId task bids h) (.releaseMilestone winner.escrowId)
  | completed (taskId : String) (task : Task) (bids : List Bid) (winner : Bid)
      (result : ReleaseResult) (h : Hist)
      (completing : task.status = .completing) (selected : winningBid bids = some winner) :
      CompletionCall (⟨.releaseMilestone winner.escrowId, .ok result⟩ :: read taskId task bids h)
        (.saveTask { task with status := .completed })
  | emits (h : Hist) (o : Op) (emit : EmitCall h o) : CompletionCall h o

/-- The calls of a dispatch. -/
inductive DispatchCall : Hist → Op → Prop
  | completion (h : Hist) (o : Op) (call : CompletionCall h o) : DispatchCall h o
  | now (h : Hist) : DispatchCall h .dateNow
  | webhook (h : Hist) (url : String) (payload : Json) : DispatchCall h (.postJson url payload)

/-- A dispatch for `x` is in flight, and the call is one of its own. -/
def DuringDispatch (x : Option (String × String)) (h : Hist) (o : Op) : Prop :=
  inFlight h = x ∧ DispatchCall h o

theorem handleTaskCompletionRequested_calls (eventId : String) (payload : Json)
    {x : Option (String × String)} (h : Hist) (hx : inFlight h = x) :
    Ensures (DuringDispatch x) (fun h _ => inFlight h = x)
      (handleTaskCompletionRequested eventId payload) h := by
  unfold handleTaskCompletionRequested
  split_ifs
  · exact hx
  dsimp only
  split_ifs
  · exact hx
  rw [ensures_call_bind]
  refine ⟨⟨hx, .completion _ _ (.find _ h)⟩, ?_, fun _ => hx⟩
  rintro (_ | task)
  · exact hx
  dsimp only
  split_ifs with hdone hcompleting
  · exact hx
  · exact hx
  rw [ne_eq, not_not] at hcompleting
  rw [ensures_call_bind]
  refine ⟨⟨hx, .completion _ _ (.bids _ task h hcompleting)⟩, ?_, fun _ => hx⟩
  intro bids
  cases hwin : winningBid bids with
  | none => exact hx
  | some winner =>
      dsimp only
      rw [ensures_call_bind]
      refine ⟨⟨hx, .completion _ _ (.release _ task bids winner h hcompleting hwin)⟩, ?_,
        fun _ => hx⟩
      intro result
      rw [ensures_call_bind]
      refine ⟨⟨hx, .completion _ _ (.completed _ task bids winner result h hcompleting hwin)⟩, ?_,
        fun _ => hx⟩
      intro _
      refine emit_calls (fun l o hl hc => ⟨?_, .completion _ o (.emits _ o hc)⟩) fun l r hl => ?_
      · rw [inFlight_append _ hl]; exact hx
      · rw [inFlight_append _ hl]; exact hx

theorem publishedAtOf_calls (payload : Json) {x : Option (String × String)} (h : Hist)
    (hx : inFlight h = x) :
    Ensures (DuringDispatch x) (fun h _ => inFlight h = x) (publishedAtOf payload) h := by
  unfold publishedAtOf
  split
  · exact ⟨⟨hx, .now h⟩, fun r => by cases r <;> exact hx⟩
  · exact ⟨⟨hx, .now h⟩, fun r => by cases r <;> exact hx⟩
  · exact hx

theorem handleResultPublished_calls (cfg : Settings) (eventId : String) (payload : Json)
    {x : Option (String × String)} (h : Hist) (hx : inFlight h = x) :
    Ensures (DuringDispatch x) (fun h _ => inFlight h = x)
      (handleResultPublished cfg eventId payload) h := by
  unfold handleResultPublished
  cases cfg.webhookUrl with
  | none => exact hx
  | some url =>
      dsimp only
      split_ifs
      · exact hx
      · rw [ensures_bind]
        refine (publishedAtOf_calls payload h hx).mono (fun _ _ hc => hc) ?_
        rintro h (_ | _) hx <;> exact hx
      · rw [ensures_bind]
        refine (publishedAtOf_calls payload h hx).mono (fun _ _ hc => hc) ?_
        rintro h (_ | publishedAt) hx
        · exact hx
        · exact ⟨⟨hx, .webhook h _ _⟩, fun _ => hx⟩

theorem dispatch_calls (cfg : Settings) (eventId type : String) (payload : Json)
    {x : Option (String × String)} (h : Hist) (hx : inFlight h = x) :
    Ensures (DuringDispatch x) (fun h _ => inFlight h = x) (dispatch cfg eventId type payload) h := by
  unfold dispatch
  split_ifs
  · exact handleTaskCompletionRequested_calls eventId payload h hx
  · exact handleResultPublished_calls cfg eventId payload h hx
  · exact hx

/-! ## A tick -/

inductive TickCall (cfg : Settings) : Hist → Op → Prop
  | unprocessed (h : Hist) (limit : Nat) : TickCall cfg h (.listUnprocessed limit)
  | add (h : Hist) (event : OutboxEvent) : TickCall cfg h (.xAdd event)
  | processed (h : Hist) (event : OutboxEvent) :
      TickCall cfg (⟨.xAdd event, .ok ()⟩ :: h) (.markEventProcessed event.id)
  | unpublished (h : Hist) (id error : String) : TickCall cfg h (.markEventFailed id error)
  | claim (h : Hist) (cursor count : Nat) :
      TickCall cfg h (.xAutoClaim cfg.consumerName cursor count)
  | poll (h : Hist) (count : Nat) : TickCall cfg h (.xReadGroup cfg.consumerName count)
  | due (h : Hist) (handlerName : String) (limit : Nat) :
      TickCall cfg h (.listDueRetries handlerName limit)
  | event (h : Hist) (id : String) : TickCall cfg h (.findEvent id)
  | ack (h : Hist) (entryId : Nat) : TickCall cfg h (.xAck entryId)
  | start (h : Hist) (args : StartArgs) (max : args.maxAttempts = cfg.maxAttempts) :
      TickCall cfg h (.tryStart args)
  | dispatch (h : Hist) (o : Op) (x : String × String) (call : DuringDispatch (some x) h o) :
      TickCall cfg h o
  | backoff (h : Hist) (x : String × String) (running : inFlight h = some x) :
      TickCall cfg h .dateNow
  | succeeded (h : Hist) (handlerName eventId : String)
      (running : inFlight h = some (handlerName, eventId)) :
      TickCall cfg h (.markSucceeded handlerName eventId)
  | failed (h : Hist) (handlerName eventId error : String) (nextRetryAt : Nat)
      (running : inFlight h = some (handlerName, eventId)) :
      TickCall cfg h (.markFailed handlerName eventId error nextRetryAt)

section

variable (cfg : Settings)

/-- Marking a dispatch in flight as failed. -/
theorem failDispatch_calls (handlerName eventId error : String) (attempts : Nat) (h : Hist)
    (hx : inFlight h = some (handlerName, eventId)) :
    Ensures (TickCall cfg) (fun _ _ => True) (do
      let nextRetryAt ← computeBackoff attempts
      await (.markFailed handlerName eventId error nextRetryAt)) h := by
  unfold computeBackoff
  rw [ensures_bind, ensures_call_bind]
  refine ⟨.backoff h _ hx, ?_, fun _ => trivial⟩
  intro now
  exact ⟨.failed _ _ _ _ _ hx, fun _ => trivial⟩

theorem dispatchStarted_calls (handlerName consumedId eventId type : String) (payload : Json)
    (attempts : Nat) (h : Hist) (hx : inFlight h = some (handlerName, consumedId)) :
    Ensures (TickCall cfg) (fun _ _ => True)
      (dispatchStarted cfg handlerName consumedId eventId type payload attempts) h := by
  unfold dispatchStarted
  rw [ensures_attempt_bind, ensures_bind]
  refine (dispatch_calls cfg eventId type payload h hx).mono (fun h o hc => .dispatch h o _ hc) ?_
  rintro h (e | _) hx
  · exact failDispatch_calls cfg _ _ _ _ h hx
  · refine ⟨.succeeded h _ _ hx, ?_⟩
    rintro (e | _)
    · exact failDispatch_calls cfg _ _ _ _ _ hx
    · trivial

theorem handleEntry_calls (entry : StreamEntry) (h : Hist) :
    Ensures (TickCall cfg) (fun _ _ => True) (handleEntry cfg entry) h := by
  unfold handleEntry
  split_ifs
  · exact ⟨.ack h _, fun _ => trivial⟩
  rw [ensures_call_bind]
  refine ⟨.start h _ rfl, ?_, fun _ => trivial⟩
  intro started
  split_ifs with hstarted
  swap
  · exact ⟨.ack _ _, fun _ => trivial⟩
  rw [ensures_attempt_bind]
  refine (dispatchStarted_calls cfg _ entry.id _ _ _ _ _ ?_).mono (fun _ _ hc => hc) ?_
  · simp [inFlight, flight, hstarted]
  · rintro h r -
    rw [ensures_call_bind]
    refine ⟨.ack h _, ?_, fun _ => trivial⟩
    intro _
    cases r <;> trivial

theorem retryRecord_calls (record : EventConsumptionRecord) (h : Hist) :
    Ensures (TickCall cfg) (fun _ _ => True) (retryRecord cfg record) h := by
  unfold retryRecord
  rw [ensures_call_bind]
  refine ⟨.start h _ rfl, ?_, fun _ => trivial⟩
  intro started
  split_ifs with hstarted
  swap
  · trivial
  rw [ensures_call_bind]
  refine ⟨.event _ _, ?_, fun _ => trivial⟩
  rintro (_ | event)
  · exact failDispatch_calls cfg _ _ _ _ _ (by simp [inFlight, flight, hstarted])
  · exact dispatchStarted_calls cfg _ _ _ _ _ _ _ (by simp [inFlight, flight, hstarted])

theorem publishEvent_calls (event : OutboxEvent) (h : Hist) :
    Ensures (TickCall cfg) (fun _ _ => True) (publishEvent event) h := by
  unfold publishEvent
  simp only [ensures_attempt_bind, ensures_call_bind]
  refine ⟨.add h event, ?_, fun e => ⟨.unpublished _ _ _, fun _ => trivial⟩⟩
  intro _
  refine ⟨.processed h event, ?_⟩
  rintro (e | _)
  · exact ⟨.unpublished _ _ _, fun _ => trivial⟩
  · trivial

/-- A loop whose rounds make calls of a tick makes calls of a tick. -/
theorem forEach_calls {ι : Type} {f : ι → Js Unit}
    (hf : ∀ x h, Ensures (TickCall cfg) (fun _ _ => True) (f x) h) (xs : List ι) (h : Hist) :
    Ensures (TickCall cfg) (fun _ _ => True) (forEach f xs) h := by
  refine ensures_forEach (fun _ _ => True) ?_ (fun _ _ => trivial) xs h trivial
  rintro x xs h -
  refine (hf x h).mono (fun _ _ hc => hc) ?_
  rintro _ (_ | _) _ <;> trivial

theorem tick_calls (claimCursor : Nat) :
    Ensures (TickCall cfg) (fun _ _ => True) (tick cfg claimCursor) [] := by
  unfold tick publishOnce
  rw [ensures_bind, ensures_call_bind]
  refine ⟨.unprocessed _ _, ?_, fun _ => trivial⟩
  intro events
  refine (forEach_calls cfg (publishEvent_calls cfg) events _).mono (fun _ _ hc => hc) ?_
  rintro h (e | _) -
  · trivial
  dsimp only
  split_ifs
  · trivial
  unfold autoClaimOnce
  rw [ensures_bind, ensures_call_bind]
  refine ⟨.claim _ _ _, ?_, fun _ => trivial⟩
  rintro ⟨next, entries⟩
  refine (forEach_calls cfg (handleEntry_calls cfg) entries _).mono (fun _ _ hc => hc) ?_
  rintro h (e | _) -
  · trivial
  unfold pollOnce
  dsimp only
  rw [ensures_bind, ensures_call_bind]
  refine ⟨.poll _ _, ?_, fun _ => trivial⟩
  intro entries
  refine (forEach_calls cfg (handleEntry_calls cfg) entries _).mono (fun _ _ hc => hc) ?_
  rintro h (e | _) -
  · trivial
  refine forEach_calls cfg ?_ _ h
  intro handlerName h
  unfold retryDue
  rw [ensures_call_bind]
  refine ⟨.due h _ _, ?_, fun _ => trivial⟩
  intro due
  exact forEach_calls cfg (retryRecord_calls cfg) due _

end

/-! ## Every job -/

/-- The calls a job can make, each after the replies it takes. -/
def Job.Calls : Job → Hist → Op → Prop
  | .createTask _ _ => CreateTaskCall
  | .createPaid _ _ => CreateTaskCall
  | .select _ taskId => SelectRequestCall taskId
  | .complete cfg taskId body => CompleteCall cfg taskId body
  | .createBid cfg (.ok b) => BidCall cfg b
  | .createBid _ (.error _) => fun _ _ => False
  | .publishResult cfg taskId _ _ => ResultCall cfg taskId
  | .runOnce _ => SweepCall
  | .tick cfg _ => TickCall cfg

/-- What is known when a job has returned. -/
def Job.Ended : Job → Hist → Prop
  | .select _ taskId => SelectedEnd taskId []
  | .createBid _ (.ok b) => BidEnd b
  | .createBid _ (.error _) => fun h => h = []
  | _ => fun _ => True

theorem toEnd_follows {α : Type} {P : Hist → Op → Prop} {Q : Hist → Prop} {x : Js α} {h : Hist}
    (hx : Ensures P (fun h _ => Q h) x h) : Follows P (fun h _ => Q h) (toEnd x) h :=
  (follows_bind _ _ _).mpr hx

/-- **No job makes a call that is not listed for it.** -/
theorem body_follows (j : Job) : Follows j.Calls (fun h _ => j.Ended h) j.body [] := by
  cases j with
  | createTask cfg body => exact toEnd_follows (createTask_calls cfg body)
  | createPaid cfg body => exact toEnd_follows (createPaid_calls cfg body)
  | select cfg taskId => exact toEnd_follows (select_calls cfg taskId)
  | complete cfg taskId body => exact toEnd_follows (complete_calls cfg taskId body)
  | createBid cfg body =>
      cases body with
      | ok b => exact toEnd_follows (createBid_calls b)
      | error detail =>
          refine toEnd_follows ?_
          unfold createBid
          split_ifs <;> rfl
  | publishResult cfg taskId key payload =>
      exact toEnd_follows (publishResult_calls cfg taskId key payload)
  | runOnce cfg => exact toEnd_follows (runOnce_calls cfg)
  | tick cfg claimCursor => exact toEnd_follows (tick_calls cfg claimCursor)

/-- The calls that only a worker's tick makes. -/
def Op.worker : Op → Bool
  | .listUnprocessed _ => true
  | .findEvent _ => true
  | .markEventProcessed _ => true
  | .markEventFailed _ _ => true
  | .tryStart _ => true
  | .markSucceeded _ _ => true
  | .markFailed _ _ _ _ => true
  | .listDueRetries _ _ => true
  | .xAdd _ => true
  | .xReadGroup _ _ => true
  | .xAutoClaim _ _ _ => true
  | .xAck _ => true
  | .postJson _ _ => true
  | _ => false

theorem Job.tick_of_worker {j : Job} {h : Hist} {o : Op} (hc : j.Calls h o)
    (ho : o.worker = true) : ∃ cfg claimCursor, j = .tick cfg claimCursor ∧ TickCall cfg h o := by
  have emits : ¬ EmitCall h o := fun he => by cases he <;> cases ho
  have selects : ∀ taskId, ¬ SelectCall taskId h o := fun taskId hs => by cases hs <;> cases ho
  cases j with
  | tick cfg claimCursor => exact ⟨cfg, claimCursor, rfl, hc⟩
  | select cfg taskId =>
      cases hc with
      | select hs => exact absurd hs (selects taskId)
      | emits he => exact absurd he emits
  | createBid cfg body =>
      cases body with
      | error detail => exact hc.elim
      | ok b =>
          cases hc with
          | select _ _ _ _ _ _ hs => exact absurd hs (selects b.taskId)
          | emits _ _ he => exact absurd he emits
          | _ => cases ho
  | createTask _ _
  | createPaid _ _
  | complete _ _ _
  | publishResult _ _ _ _
  | runOnce _ =>
      cases hc with
      | emits _ _ he => exact absurd he emits
      | _ => cases ho

/-- Of the worker's own calls, a dispatch makes the one to the webhook. -/
theorem DispatchCall.worker {h : Hist} {o : Op} (hc : DispatchCall h o) (ho : o.worker = true) :
    ∃ url payload, o = .postJson url payload := by
  cases hc with
  | completion _ hc =>
      cases hc with
      | emits _ _ he => cases he <;> cases ho
      | _ => cases ho
  | now => cases ho
  | webhook url payload => exact ⟨url, payload, rfl⟩

/-! ## Saving and settling -/

/-- The calls that save a task or a bid, or settle an escrow. -/
def Op.commits : Op → Bool
  | .saveTask _ => true
  | .saveBid _ => true
  | .releaseMilestone _ => true
  | .confiscate _ _ => true
  | _ => false

/-- Who makes such a call, and what it has been replied before. -/
inductive Commit : Job → Hist → Op → Prop
  | createTask (cfg : Settings) (body : Parsed CreateTaskBody) (row : Task) (h : Hist)
      (opened : row.status = .open) :
      Commit (.createTask cfg body) (⟨.randomUUID, .ok row.id⟩ :: h) (.saveTask row)
  | createPaid (cfg : Settings) (body : Parsed CreateTaskBody) (row : Task) (h : Hist)
      (opened : row.status = .open) :
      Commit (.createPaid cfg body) (⟨.randomUUID, .ok row.id⟩ :: h) (.saveTask row)
  | select (cfg : Settings) (taskId : String) (h : Hist) (o : Op) (call : SelectCall taskId h o) :
      Commit (.select cfg taskId) h o
  | bidSelect (cfg : Settings) (b : CreateBidBody) (h : Hist) (o : Op)
      (call : SelectCall b.taskId h o) : Commit (.createBid cfg (.ok b)) h o
  | bid (cfg : Settings) (b : CreateBidBody) (task : Task) (bid : Bid)
      (valid : Placed cfg b task bid) :
      Commit (.createBid cfg (.ok b))
        (⟨.dateNow, .ok bid.createdAt⟩ :: ⟨.randomUUID, .ok bid.id⟩ ::
          escrowed b task bid.escrowId)
        (.saveBid bid)
  | release (cfg : Settings) (taskId : String) (body : Parsed CompleteBody) (task : Task)
      (bids : List Bid) (winner : Bid) (admitted : Admitted cfg body task bids winner) :
      Commit (.complete cfg taskId body) (read taskId task bids [])
        (.releaseMilestone winner.escrowId)
  | completed (cfg : Settings) (taskId : String) (body : Parsed CompleteBody) (task : Task)
      (bids : List Bid) (winner : Bid) (result : ReleaseResult)
      (admitted : Admitted cfg body task bids winner) :
      Commit (.complete cfg taskId body)
        (⟨.releaseMilestone winner.escrowId, .ok result⟩ :: read taskId task bids [])
        (.saveTask { task with status := .completed })
  | completing (cfg : Settings) (taskId : String) (body : Parsed CompleteBody) (task : Task)
      (bids : List Bid) (winner : Bid) (admitted : Admitted cfg body task bids winner) :
      Commit (.complete cfg taskId body) (read taskId task bids [])
        (.saveTask { task with status := .completing })
  | confiscate (cfg : Settings) (now : Nat) (tasks : List Task) (task : Task) (bids : List Bid)
      (winner : Bid) (h : Hist) (snapshot : Snapshot h now tasks)
      (mem : task ∈ expiredAssignedTasks now tasks) (selected : winningBid bids = some winner) :
      Commit (.runOnce cfg) (⟨.findBids task.id, .ok bids⟩ :: h)
        (.confiscate winner.escrowId (formatUsdcStroopsToDecimal winner.collateralStroops))
  | expired (cfg : Settings) (now : Nat) (tasks : List Task) (task : Task) (bids : List Bid)
      (winner : Bid) (result : ConfiscateResult) (h : Hist) (snapshot : Snapshot h now tasks)
      (mem : task ∈ expiredAssignedTasks now tasks) (selected : winningBid bids = some winner) :
      Commit (.runOnce cfg)
        (⟨.confiscate winner.escrowId (formatUsdcStroopsToDecimal winner.collateralStroops),
          .ok result⟩ :: ⟨.findBids task.id, .ok bids⟩ :: h)
        (.saveTask { task with status := .expired })
  | handlerRelease (cfg : Settings) (claimCursor : Nat) (taskId : String) (task : Task)
      (bids : List Bid) (winner : Bid) (h : Hist) (completing : task.status = .completing)
      (selected : winningBid bids = some winner) :
      Commit (.tick cfg claimCursor) (read taskId task bids h) (.releaseMilestone winner.escrowId)
  | handlerCompleted (cfg : Settings) (claimCursor : Nat) (taskId : String) (task : Task)
      (bids : List Bid) (winner : Bid) (result : ReleaseResult) (h : Hist)
      (completing : task.status = .completing) (selected : winningBid bids = some winner) :
      Commit (.tick cfg claimCursor)
        (⟨.releaseMilestone winner.escrowId, .ok result⟩ :: read taskId task bids h)
        (.saveTask { task with status := .completed })

/-- **Nobody else saves a row or settles an escrow.** -/
theorem Job.commits {j : Job} {h : Hist} {o : Op} (hc : j.Calls h o) (ho : o.commits = true) :
    Commit j h o := by
  have emits : ¬ EmitCall h o := fun he => by cases he <;> cases ho
  cases j with
  | createTask cfg body =>
      cases hc with
      | save row h opened => exact .createTask cfg body row h opened
      | emits _ _ he => exact absurd he emits
      | _ => cases ho
  | createPaid cfg body =>
      cases hc with
      | save row h opened => exact .createPaid cfg body row h opened
      | emits _ _ he => exact absurd he emits
      | _ => cases ho
  | select cfg taskId =>
      cases hc with
      | select call => exact .select cfg taskId h o call
      | emits he => exact absurd he emits
  | complete cfg taskId body =>
      cases hc with
      | release task bids winner _ admitted =>
          exact .release cfg taskId body task bids winner admitted
      | completed task bids winner result _ admitted =>
          exact .completed cfg taskId body task bids winner result admitted
      | completing task bids winner _ admitted =>
          exact .completing cfg taskId body task bids winner admitted
      | emits _ _ he => exact absurd he emits
      | _ => cases ho
  | createBid cfg body =>
      cases body with
      | error detail => exact hc.elim
      | ok b =>
          cases hc with
          | save task bid valid => exact .bid cfg b task bid valid
          | select _ _ _ _ _ _ call => exact .bidSelect cfg b h o call
          | emits _ _ he => exact absurd he emits
          | _ => cases ho
  | publishResult cfg taskId key payload =>
      cases hc with
      | emits _ _ he => exact absurd he emits
      | _ => cases ho
  | runOnce cfg =>
      cases hc with
      | confiscate now tasks task bids winner h snapshot mem selected =>
          exact .confiscate cfg now tasks task bids winner h snapshot mem selected
      | expired now tasks task bids winner result h snapshot mem selected =>
          exact .expired cfg now tasks task bids winner result h snapshot mem selected
      | emits _ _ he => exact absurd he emits
      | _ => cases ho
  | tick cfg claimCursor =>
      cases hc with
      | dispatch _ _ x hc =>
          cases hc.2 with
          | completion _ hc =>
              cases hc with
              | release taskId task bids winner h completing selected =>
                  exact .handlerRelease cfg claimCursor taskId task bids winner h completing selected
              | completed taskId task bids winner result h completing selected =>
                  exact .handlerCompleted cfg claimCursor taskId task bids winner result h completing
                    selected
              | emits _ _ he => exact absurd he emits
              | _ => cases ho
          | _ => cases ho
      | _ => cases ho

end TrustGate.Market
