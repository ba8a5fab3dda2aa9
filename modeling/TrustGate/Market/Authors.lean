import TrustGate.Lib.Observer
import TrustGate.Market.Announced
import TrustGate.Market.Ticks

set_option autoImplicit false

/-! # Whose result it is

An executor sends its result, others read it (`getResult`), and a webhook tells the outside that it
is there. Between the check that the sender is the selected executor and any of that lie several
awaits, the results table, the outbox, the stream and a worker. All the same, what is stored, served
or told comes from a request of an executor whose bid that request had read as the selected one of
an assigned task. -/

namespace TrustGate.Market

open Resumption

/-! ## Reading a result -/

/-- `getResult`. -/
def getResult (taskId : String) : Js Response := do
  match ← await (.findTask taskId) with
  | none => return errorResponse 404 "task not found"
  | some task =>
    if task.status ∉ [TaskStatus.assigned, .completing, .completed] then
      return errorResponse 409 "task result is not available until the task is assigned"
    else
      match winningBid (← await (.findBids taskId)) with
      | none => return errorResponse 409 "no selected executor for this task"
      | some _ =>
        match ← await (.findResult taskId) with
        | none => return errorResponse 404 "result not found"
        | some result =>
          return ⟨200, .obj [
            ("taskId", .str result.taskId), ("payloadHash", .str result.payloadHash),
            ("payload", result.payload)]⟩

/-- A served result was found under its task. -/
theorem getResult_served (taskId : String) :
    Ensures (fun _ _ => True) (fun h r => ∀ body, r = .ok ⟨200, body⟩ → ∃ row,
        ⟨.findResult taskId, .ok (some row)⟩ ∈ h ∧ body = .obj [("taskId", .str row.taskId),
          ("payloadHash", .str row.payloadHash), ("payload", row.payload)])
      (getResult taskId) [] := by
  unfold getResult
  rw [ensures_call_bind]
  refine ⟨trivial, ?_, fun e body heq => by cases heq⟩
  rintro (_ | task)
  · rintro body heq
    cases heq
  dsimp only
  split_ifs
  swap
  · rintro body heq
    cases heq
  rw [ensures_call_bind]
  refine ⟨trivial, ?_, fun e body heq => by cases heq⟩
  intro bids
  cases winningBid bids with
  | none =>
      rintro body heq
      cases heq
  | some selectedBid =>
      dsimp only
      rw [ensures_call_bind]
      refine ⟨trivial, ?_, fun e body heq => by cases heq⟩
      rintro (_ | row) body heq
      · cases heq
      · cases heq
        exact ⟨row, List.mem_cons_self, rfl⟩

/-! ## Sending a result -/

/-- A request of `executor` comes to the point where it stores its payload: it has read the task as
assigned, with the bid of `executor` as the selected one. -/
inductive Sends (executor : String) : Job → Hist → TaskResultRecord → Prop
  | mk (cfg : Settings) (row : TaskResultRecord) (task : Task) (bids : List Bid) (selected : Bid)
      (assigned : task.status = .assigned) (winner : winningBid bids = some selected)
      (own : selected.executorPublicKey = executor)
      (hash : row.payloadHash = cfg.payloadHash row.payload) :
      Sends executor (.publishResult cfg row.taskId (some executor) (some row.payload))
        (read row.taskId task bids []) row

/-- The sender's bid is the selected one of the bids that it has read. -/
theorem Sends.selected {executor taskId : String} {j : Job} {row : TaskResultRecord} {task : Task}
    {bids : List Bid} {winner : Bid} {h : Hist}
    (hs : Sends executor j (read taskId task bids h) row) (hw : winningBid bids = some winner) :
    winner.executorPublicKey = executor := by
  generalize hread : read taskId task bids h = past at hs
  cases hs with
  | mk cfg row task' bids' selected assigned winner' own hash =>
      obtain ⟨-, hbids⟩ : taskId = row.taskId ∧ bids = bids' := by
        simpa using (List.cons.inj hread).1
      rw [← hbids, hw] at winner'
      cases winner'
      exact own

/-- A result that the job stores is one that an executor sends. -/
def StoresSent (j : Job) (h : Hist) (o : Op) : Prop :=
  ∀ row : TaskResultRecord, o = .upsertResult row.taskId row.payload row.payloadHash →
    ∃ executor, Sends executor j h row

/-- The call is one that stores a result. -/
def Op.storesResult : Op → Bool
  | .upsertResult _ _ _ => true
  | _ => false

theorem storesSent_of_ne {j : Job} {h : Hist} {o : Op} (ho : o.storesResult = false) :
    StoresSent j h o := by
  rintro row rfl
  cases ho

theorem EmitCall.storesSent {j : Job} {h h' : Hist} {o : Op} (hc : EmitCall h' o) :
    StoresSent j h o := by
  cases hc <;> exact storesSent_of_ne rfl

theorem publishResult_sent (cfg : Settings) (taskId : String) (key : Option String)
    (payload : Option Json) :
    Ensures (StoresSent (.publishResult cfg taskId key payload)) (fun _ _ => True)
      (publishResult cfg taskId key payload) [] := by
  unfold publishResult
  rw [ensures_call_bind]
  refine ⟨storesSent_of_ne rfl, ?_, fun _ => trivial⟩
  rintro (_ | task)
  · trivial
  dsimp only
  split_ifs with hassigned
  · trivial
  rw [ne_eq, not_not] at hassigned
  rw [ensures_call_bind]
  refine ⟨storesSent_of_ne rfl, ?_, fun _ => trivial⟩
  intro bids
  cases hwinner : winningBid bids with
  | none => trivial
  | some selectedBid =>
      cases key with
      | none => trivial
      | some executor =>
          dsimp only
          split_ifs with hother
          · trivial
          rw [ne_eq, not_not] at hother
          cases payload with
          | none => trivial
          | some payload =>
              dsimp only
              unfold publishPayload
              rw [ensures_bind, ensures_call_bind]
              refine ⟨?_, ?_, fun _ => trivial⟩
              · rintro ⟨taskId', payload', hash, createdAt⟩ heq
                dsimp only at heq
                cases heq
                exact ⟨executor, .mk cfg ⟨taskId, payload, _, createdAt⟩ task bids selectedBid
                  hassigned hwinner hother.symm rfl⟩
              intro _
              rw [ensures_call_bind]
              refine ⟨storesSent_of_ne rfl, ?_, fun _ => trivial⟩
              rintro (_ | stored)
              · trivial
              · simp only [ensures_pure]
                rw [ensures_bind]
                refine outboxEmit_calls cfg (fun l o _ hc => hc.storesSent) ?_
                rintro l (_ | _) _ <;> trivial

/-- Nobody else stores a result. -/
theorem Job.storesSent {j : Job} {h : Hist} {o : Op} (hc : j.Calls h o)
    (hj : ∀ cfg taskId key payload, j ≠ .publishResult cfg taskId key payload) :
    StoresSent j h o := by
  rintro row rfl
  have emits : ¬ EmitCall h (.upsertResult row.taskId row.payload row.payloadHash) :=
    fun he => by cases he
  have selects : ∀ taskId,
      ¬ SelectCall taskId h (.upsertResult row.taskId row.payload row.payloadHash) :=
    fun taskId hs => by cases hs
  cases j with
  | publishResult cfg taskId key payload => exact absurd rfl (hj cfg taskId key payload)
  | select cfg taskId =>
      cases hc with
      | select hs => exact absurd hs (selects taskId)
      | emits he => exact absurd he emits
  | createBid cfg body =>
      cases body with
      | error detail => exact hc.elim
      | ok b =>
          cases hc with
          | select _ _ _ _ _ _ hs => exact absurd hs (selects b.taskId)
          | emits _ _ he => exact absurd he emits
  | tick cfg claimCursor =>
      cases hc with
      | dispatch _ _ x hc =>
          cases hc.2 with
          | completion _ hc =>
              cases hc with
              | emits _ _ he => exact absurd he emits
  | createTask _ _ | createPaid _ _ | complete _ _ _ | runOnce _ =>
      cases hc with
      | emits _ _ he => exact absurd he emits

/-! ## Telling a webhook -/

/-- The event was delivered or looked up. -/
def Known (h : Hist) (content : EventContent) : Prop :=
  (∃ d ∈ h, ∃ entry ∈ entriesRead d, entry.content = content) ∨
    ∃ d ∈ h, ∃ event ∈ eventsRead d, event.content = content

theorem Known.mono {h h' : Hist} {content : EventContent} (hs : h <:+ h') (hk : Known h content) :
    Known h' content := by
  rcases hk with ⟨d, hd, hrest⟩ | ⟨d, hd, hrest⟩
  · exact .inl ⟨d, hs.subset hd, hrest⟩
  · exact .inr ⟨d, hs.subset hd, hrest⟩

/-- The call is one to a webhook. -/
def Op.notifies : Op → Bool
  | .postJson _ _ => true
  | _ => false

section

variable {cfg : Settings} {P : Hist → Op → Prop} (quiet : ∀ h o, o.notifies = false → P h o)

include quiet

theorem await_quiet {o : Op} (ho : o.notifies = false) : Throughout P (await o) :=
  fun h => ⟨quiet h o ho, fun _ => trivial⟩

theorem computeBackoff_quiet (attempts : Nat) : Throughout P (computeBackoff attempts) :=
  .bind (await_quiet quiet rfl) fun _ => .pure _

variable (dispatched : ∀ h content, Known h content → Ensures P (fun _ _ => True)
  (dispatch cfg content.id content.type content.payload) h)

include dispatched

theorem dispatchStarted_rule {h : Hist} (content : EventContent) (hknown : Known h content)
    (handlerName consumedId : String) (attempts : Nat) :
    Ensures P (fun _ _ => True) (dispatchStarted cfg handlerName consumedId content.id content.type
      content.payload attempts) h := by
  unfold dispatchStarted
  rw [ensures_attempt_bind, ensures_bind]
  have hfailed : ∀ e : JsError, Throughout P (do
      let nextRetryAt ← computeBackoff attempts
      await (.markFailed handlerName consumedId e.message nextRetryAt)) := fun e =>
    .bind (computeBackoff_quiet quiet attempts) fun _ => await_quiet quiet rfl
  refine (dispatched h content hknown).mono (fun _ _ hp => hp) ?_
  rintro h (e | _) -
  · exact hfailed e h
  · refine (await_quiet quiet rfl h).mono (fun _ _ hp => hp) ?_
    rintro h (e | _) -
    · exact hfailed e h
    · trivial

theorem handleEntry_rule {h : Hist} {entry : StreamEntry} (hknown : Known h entry.content) :
    Ensures P (fun _ _ => True) (handleEntry cfg entry) h := by
  unfold handleEntry
  split_ifs
  · exact await_quiet quiet rfl h
  rw [ensures_call_bind]
  refine ⟨quiet _ _ rfl, ?_, fun _ => trivial⟩
  intro started
  split_ifs
  swap
  · exact await_quiet quiet rfl _
  rw [ensures_attempt_bind]
  refine (dispatchStarted_rule quiet dispatched entry.content
    (hknown.mono (List.suffix_cons _ _)) _ _ _).mono (fun _ _ hp => hp) ?_
  rintro h result -
  refine Throughout.bind (await_quiet quiet rfl) (fun _ => ?_) h
  cases result with
  | ok _ => exact .pure _
  | error e => exact .throw _

theorem retryRecord_rule (record : EventConsumptionRecord) :
    Throughout P (retryRecord cfg record) := by
  intro h
  unfold retryRecord
  rw [ensures_call_bind]
  refine ⟨quiet _ _ rfl, ?_, fun _ => trivial⟩
  intro started
  split_ifs
  swap
  · trivial
  rw [ensures_call_bind]
  refine ⟨quiet _ _ rfl, ?_, fun _ => trivial⟩
  rintro (_ | event)
  · refine Throughout.bind (computeBackoff_quiet quiet _) (fun _ => ?_) _
    exact await_quiet quiet rfl
  · exact dispatchStarted_rule quiet dispatched event.content
      (.inr ⟨_, List.mem_cons_self, event, List.mem_singleton_self _, rfl⟩) _ _ _

/-- **A tick notifies only in a dispatch**, and dispatches only events that were delivered to it or
that it looked up. -/
theorem tick_rule (claimCursor : Nat) : Throughout P (tick cfg claimCursor) := by
  have hpublish : Throughout P publishOnce := by
    refine .bind (await_quiet quiet rfl) fun events => .forEach (fun event => ?_) events
    refine .bind (.attempt (.bind (await_quiet quiet rfl) fun _ => await_quiet quiet rfl))
      fun result => ?_
    cases result with
    | ok _ => exact .pure _
    | error e => exact await_quiet quiet rfl
  refine tick_throughout hpublish (fun h _ _ => quiet h _ rfl) (fun h _ => quiet h _ rfl) ?_
    (fun h _ _ => quiet h _ rfl) (fun record => retryRecord_rule quiet dispatched record) claimCursor
  rintro e h ⟨d, hd, he⟩
  exact handleEntry_rule quiet dispatched (.inl ⟨d, hd, e, he, rfl⟩)

end

/-- What a webhook is told about an event: its fields by their texts, with its date if it has one. -/
structure Notifies (content : EventContent) (body : Json) : Prop where
  type : content.type = "result_published"
  told : ∃ publishedAt, body = .obj [
      ("eventId", .str content.id),
      ("type", .str "result_published"),
      ("taskId", .str (content.payload.text "taskId")),
      ("executorPublicKey", .str (content.payload.text "executorPublicKey")),
      ("payloadHash", .str (content.payload.text "payloadHash")),
      ("publishedAt", publishedAt)] ∧
    ∀ x, content.payload.field "publishedAt" = some x → x ≠ .null → publishedAt = .str x.toText

/-- A webhook is called at the configured URL, about an event that the caller knows. -/
def Posts (cfg : Settings) (h : Hist) (o : Op) : Prop :=
  ∀ url body, o = .postJson url body →
    cfg.webhookUrl = some url ∧ ∃ content, Known h content ∧ Notifies content body

theorem posts_of_quiet {cfg : Settings} {h : Hist} {o : Op} (ho : o.notifies = false) :
    Posts cfg h o := by
  rintro url body rfl
  cases ho

theorem only_completion_quiet (eventId : String) (payload : Json) :
    Only (fun o => o.notifies = false) (handleTaskCompletionRequested eventId payload) := by
  refine only_completion (fun o _ hne => ?_) eventId payload
  cases o with
  | postJson url body => exact absurd rfl (hne url body)
  | _ => rfl

/-- The date of an event, or that of the call. -/
theorem publishedAtOf_posts (cfg : Settings) (payload : Json) {h : Hist} :
    Ensures (Posts cfg) (fun h' r => h <:+ h' ∧ ∀ publishedAt, r = .ok publishedAt →
        ∀ x, payload.field "publishedAt" = some x → x ≠ .null → publishedAt = .str x.toText)
      (publishedAtOf payload) h := by
  unfold publishedAtOf
  cases hfield : payload.field "publishedAt" with
  | none =>
      rw [ensures_call_bind]
      refine ⟨posts_of_quiet rfl, fun now => ⟨List.suffix_cons _ _, ?_⟩, fun e =>
        ⟨List.suffix_cons _ _, ?_⟩⟩
      · rintro publishedAt - x heq
        cases heq
      · rintro publishedAt - x heq
        cases heq
  | some date =>
      cases date with
      | null =>
          rw [ensures_call_bind]
          refine ⟨posts_of_quiet rfl, fun now => ⟨List.suffix_cons _ _, ?_⟩, fun e =>
            ⟨List.suffix_cons _ _, ?_⟩⟩
          · rintro publishedAt - x heq hne
            cases heq
            exact absurd rfl hne
          · rintro publishedAt - x heq hne
            cases heq
            exact absurd rfl hne
      | _ =>
          refine ⟨List.suffix_rfl, ?_⟩
          rintro publishedAt heq x hx -
          cases heq
          cases hx
          rfl

theorem handleResultPublished_posts (cfg : Settings) {h : Hist} (content : EventContent)
    (hknown : Known h content) (htype : content.type = "result_published") :
    Ensures (Posts cfg) (fun _ _ => True)
      (handleResultPublished cfg content.id content.payload) h := by
  unfold handleResultPublished
  cases hurl : cfg.webhookUrl with
  | none => trivial
  | some url =>
      dsimp only
      by_cases hnull : content.payload.isNull = true
      · rw [if_pos hnull]
        trivial
      rw [if_neg hnull, ensures_bind]
      refine (publishedAtOf_posts cfg content.payload).mono (fun _ _ hp => hp) ?_
      rintro h' (e | publishedAt) ⟨hs, hdate⟩
      · trivial
      dsimp only
      split_ifs
      · trivial
      refine ⟨?_, fun _ => trivial⟩
      rintro url' body heq
      cases heq
      exact ⟨hurl, content, hknown.mono hs, htype, publishedAt, rfl, hdate publishedAt rfl⟩

theorem dispatch_posts (cfg : Settings) (h : Hist) (content : EventContent)
    (hknown : Known h content) :
    Ensures (Posts cfg) (fun _ _ => True)
      (dispatch cfg content.id content.type content.payload) h := by
  unfold dispatch
  split_ifs with hcompletion hresult
  · exact (only_completion_quiet _ _).throughout (fun _ _ => posts_of_quiet) h
  · exact handleResultPublished_posts cfg content hknown hresult
  · trivial

/-! ## Every call -/

/-- The job stores what an executor sends, and calls webhooks about what it knows. -/
structure Job.Vouches (j : Job) (h : Hist) (o : Op) : Prop where
  sent : StoresSent j h o
  posts : ∀ url body, o = .postJson url body →
    ∃ cfg claimCursor, j = .tick cfg claimCursor ∧ Posts cfg h o

theorem body_vouches (j : Job) : Follows j.Vouches (fun _ _ => True) j.body [] := by
  have hsent : Follows (StoresSent j) (fun _ _ => True) j.body [] := by
    by_cases hj : ∃ cfg taskId key payload, j = .publishResult cfg taskId key payload
    · obtain ⟨cfg, taskId, key, payload, rfl⟩ := hj
      exact toEnd_follows (publishResult_sent cfg taskId key payload)
    · exact (body_follows j).mono (fun _ _ hc => Job.storesSent hc fun cfg taskId key payload heq =>
        hj ⟨cfg, taskId, key, payload, heq⟩) fun _ _ _ => trivial
  have hposts : Follows (fun h o => ∀ cfg claimCursor, j = .tick cfg claimCursor → Posts cfg h o)
      (fun _ _ => True) j.body [] := by
    by_cases hj : ∃ cfg claimCursor, j = .tick cfg claimCursor
    · obtain ⟨cfg, claimCursor, rfl⟩ := hj
      refine (toEnd_follows (tick_rule (P := Posts cfg) (fun _ _ => posts_of_quiet)
        (dispatch_posts cfg) claimCursor [])).mono (fun h o hp => ?_) fun _ _ hq => hq
      rintro s cursor heq
      cases heq
      exact hp
    · exact (body_follows j).mono (fun _ _ _ cfg claimCursor heq => absurd ⟨cfg, claimCursor, heq⟩ hj)
        fun _ _ _ => trivial
  refine (((body_follows j).and hsent).and hposts).mono (fun h o hp => ?_) fun _ _ _ => trivial
  obtain ⟨⟨hc, hsent⟩, hposts⟩ := hp
  refine ⟨hsent, ?_⟩
  rintro url body rfl
  obtain ⟨cfg, claimCursor, rfl, -⟩ := Job.tick_of_worker hc rfl
  exact ⟨cfg, claimCursor, rfl, hposts cfg claimCursor rfl⟩

/-! ## Runs -/

/-- A request of `executor` has stored the row's payload, by right. -/
def SentBy (jobs : Nat → Option Job) (t : Trace Op Reply) (executor : String)
    (row : TaskResultRecord) : Prop :=
  ∃ pid j earlier r, jobs pid = some j ∧
    ⟨pid, .upsertResult row.taskId row.payload row.payloadHash, r⟩ :: earlier <:+ t ∧
    Sends executor j (own pid earlier) row

theorem SentBy.mono {jobs jobs' : Nat → Option Job} {t t' : Trace Op Reply} {executor : String}
    {row : TaskResultRecord} (hjobs : ∀ pid j, jobs pid = some j → jobs' pid = some j)
    (ht : t <:+ t') (h : SentBy jobs t executor row) : SentBy jobs' t' executor row := by
  obtain ⟨pid, j, earlier, r, hj, hs, hsends⟩ := h
  exact ⟨pid, j, earlier, r, hjobs pid j hj, hs.trans ht, hsends⟩

/-- Every result that is stored, or was found under its task, was sent by an executor. -/
structure Authored (jobs : Nat → Option Job) (m : Store) (t : Trace Op Reply) : Prop where
  stored : ∀ row ∈ m.results, ∃ executor, SentBy jobs t executor row
  found : ∀ pid taskId row, ⟨pid, .findResult taskId, .ok (some row)⟩ ∈ t →
    row.taskId = taskId ∧ ∃ executor, SentBy jobs t executor row

theorem Authored.initial {jobs : Nat → Option Job} {m : Store} (results : m.results = []) :
    Authored jobs m [] where
  stored row hrow := by
    rw [results] at hrow
    cases hrow
  found _ _ _ hmem := nomatch hmem

theorem Authored.more {jobs jobs' : Nat → Option Job} {m : Store} {t : Trace Op Reply}
    (hjobs : ∀ pid j, jobs pid = some j → jobs' pid = some j) (h : Authored jobs m t) :
    Authored jobs' m t := by
  constructor
  · intro row hrow
    obtain ⟨executor, hs⟩ := h.stored row hrow
    exact ⟨executor, hs.mono hjobs List.suffix_rfl⟩
  · intro pid taskId row hmem
    obtain ⟨hid, executor, hs⟩ := h.found pid taskId row hmem
    exact ⟨hid, executor, hs.mono hjobs List.suffix_rfl⟩

section

variable {jobs : Nat → Option Job} {o : Op} {c : Outcome} {m m' : Store} {r : Reply o}
  {t : Trace Op Reply} {pid : Nat} {j : Job}

/-- A stored result was there before, or the call stores it. -/
theorem mem_results_exec {row : TaskResultRecord} (hx : exec o c m = some (r, m'))
    (hrow : row ∈ m'.results) :
    row ∈ m.results ∨ o = .upsertResult row.taskId row.payload row.payloadHash := by
  by_cases ho : ∃ taskId payload hash, o = .upsertResult taskId payload hash
  · obtain ⟨taskId, payload, hash, rfl⟩ := ho
    rcases exec_cases hx with ⟨-, rfl, -⟩ | ⟨-, v, hp, -⟩
    · exact .inl hrow
    · cases hp
      rcases mem_upsert hrow with hold | rfl | ⟨old, -, hkey, rfl⟩
      · exact .inl hold
      · exact .inr rfl
      · cases m.backend <;> exact .inr rfl
  · rw [exec_results hx fun taskId payload hash heq => ho ⟨taskId, payload, hash, heq⟩] at hrow
    exact .inl hrow

theorem findResult_exec {taskId : String} {row : TaskResultRecord}
    (hx : exec (.findResult taskId) c m = some (.ok (some row), m')) :
    row ∈ m.results ∧ row.taskId = taskId := by
  have hfind : m.findResult taskId = some row := congrArg Prod.fst (Option.some.inj (exec_ok hx))
  exact ⟨List.mem_of_find?_eq_some hfind, by simpa using List.find?_some hfind⟩

theorem Authored.call (h : Authored jobs m t) (hjob : jobs pid = some j)
    (hv : j.Vouches (own pid t) o) (hx : exec o c m = some (r, m')) :
    Authored jobs m' (⟨pid, o, r⟩ :: t) := by
  have hgrown : t <:+ ⟨pid, o, r⟩ :: t := List.suffix_cons _ _
  constructor
  · intro row hrow
    rcases mem_results_exec hx hrow with hold | rfl
    · obtain ⟨executor, hs⟩ := h.stored row hold
      exact ⟨executor, hs.mono (fun _ _ hj => hj) hgrown⟩
    · obtain ⟨executor, hsends⟩ := hv.sent row rfl
      exact ⟨executor, pid, j, t, r, hjob, List.suffix_rfl, hsends⟩
  · intro pid' taskId row hmem
    rcases List.mem_cons.mp hmem with heq | hmem
    · cases heq
      obtain ⟨hrow, hid⟩ := findResult_exec hx
      obtain ⟨executor, hs⟩ := h.stored row hrow
      exact ⟨hid, executor, hs.mono (fun _ _ hj => hj) hgrown⟩
    · obtain ⟨hid, executor, hs⟩ := h.found pid' taskId row hmem
      exact ⟨hid, executor, hs.mono (fun _ _ hj => hj) hgrown⟩

end

theorem authored_run (m : Store) (results : m.results = []) (sched : List (Act Job Outcome)) :
    Authored (runSched market (.initial m) sched).jobOf (runSched market (.initial m) sched).state
      (runSched market (.initial m) sched).trace :=
  (runSched_authored (I := Authored) (Q := fun _ _ => True) (R := .any)
    (fun j _ => body_vouches j) (fun _ _ _ _ hjobs h => h.more hjobs)
    (fun _ _ _ _ _ _ _ _ _ h hjob _ hv _ hx => h.call hjob hv hx) sched _ (.initial results)
    (.initial m) (meets_any _ sched _)).1

/-! ## What is served and told -/

/-- The body that `getResult` answers with. -/
def TaskResultRecord.served (row : TaskResultRecord) : Json :=
  .obj [("taskId", .str row.taskId), ("payloadHash", .str row.payloadHash),
    ("payload", row.payload)]

/-- The body that a webhook gets about the result `row` of `executor`. -/
def TaskResultRecord.notification (row : TaskResultRecord) (eventId executor : String) : Json :=
  .obj [
    ("eventId", .str eventId),
    ("type", .str "result_published"),
    ("taskId", .str row.taskId),
    ("executorPublicKey", .str executor),
    ("payloadHash", .str row.payloadHash),
    ("publishedAt", .str (dateJson row.createdAt).toText)]

/-- What stands behind the announcement of a result. -/
theorem Tells.result {h : Hist} {content : EventContent} (ht : Tells h content)
    (htype : content.type = "result_published") : ∃ taskId task bids executor payload hash stored h',
      h = ⟨.findResult taskId, .ok (some stored)⟩ ::
        ⟨.upsertResult taskId payload hash, .ok ()⟩ :: read taskId task bids h' ∧
      winningBid bids = some executor ∧ content.payload = .obj [
        ("taskId", .str stored.taskId),
        ("executorPublicKey", .str executor.executorPublicKey),
        ("payloadHash", .str stored.payloadHash),
        ("publishedAt", dateJson stored.createdAt)] := by
  cases ht with
  | resultPublished id taskId task bids executor payload hash stored h assigned selected =>
      exact ⟨taskId, task, bids, executor, payload, hash, stored, h, rfl, selected, rfl⟩
  | _ => simp at htype

theorem Notifies.notification {content : EventContent} {body : Json} {executor : String}
    {row : TaskResultRecord} (h : Notifies content body) (hpayload : content.payload = .obj [
      ("taskId", .str row.taskId), ("executorPublicKey", .str executor),
      ("payloadHash", .str row.payloadHash), ("publishedAt", dateJson row.createdAt)]) :
    body = row.notification content.id executor := by
  obtain ⟨publishedAt, rfl, hdate⟩ := h.told
  rw [hpayload] at hdate ⊢
  rw [hdate (dateJson row.createdAt) rfl (by simp [dateJson])]
  rfl

/-- A process tells the webhook of its settings about an event of the outbox: that `executor`, which
has sent a result for the task, published the result `row`, which somebody has sent for it. -/
def TellsOfResult (cfg : Config Op Reply Job Store) (pid : Nat) (url : String) (body : Json) :
    Prop :=
  (∃ s claimCursor, cfg.jobOf pid = some (.tick s claimCursor) ∧ s.webhookUrl = some url) ∧
  ∃ event ∈ cfg.state.contents, ∃ row executor sent author, event.type = "result_published" ∧
    body = row.notification event.id executor ∧ sent.taskId = row.taskId ∧
    SentBy cfg.jobOf cfg.trace executor sent ∧ SentBy cfg.jobOf cfg.trace author row

/-- **Who announces a result has sent one**, and what it announces was sent. -/
theorem ToldBy.result {jobs : Nat → Option Job} {m : Store} {t : Trace Op Reply} {pid : Nat}
    {content : EventContent} (htold : ToldBy t pid content)
    (htype : content.type = "result_published") (hauthored : Authored jobs m t)
    (hvouched : EachCall (fun earlier c =>
      ∃ j, jobs c.pid = some j ∧ j.Vouches (own c.pid earlier) c.op) t) :
    ∃ row executor sent author, content.payload = .obj [
        ("taskId", .str row.taskId), ("executorPublicKey", .str executor),
        ("payloadHash", .str row.payloadHash), ("publishedAt", dateJson row.createdAt)] ∧
      sent.taskId = row.taskId ∧ SentBy jobs t executor sent ∧ SentBy jobs t author row := by
  obtain ⟨event, r, earlier, rfl, hinserted, h', hown, htells⟩ := htold
  obtain ⟨taskId, task, bids, winner, payload, hash, stored, h, rfl, hwinner, hpayload⟩ :=
    htells.result htype
  have hpast := (List.suffix_cons _ _).trans (own_suffix hinserted)
  rw [hown] at hpast
  obtain ⟨hid, author, hauthor⟩ := hauthored.found pid taskId stored
    (mem_own.mp (hpast.subset (List.mem_cons_of_mem _ List.mem_cons_self)))
  obtain ⟨before, hbefore, hread⟩ := exists_call_of_suffix
    (((List.suffix_cons _ _).trans (List.suffix_cons _ _)).trans hpast)
  obtain ⟨j, hj, hv⟩ := hvouched.at hbefore
  obtain ⟨executor, hsends⟩ := hv.sent ⟨taskId, payload, hash, 0⟩ rfl
  -- the sender is the winner among the bids that it read
  have hexecutor : winner.executorPublicKey = executor := by
    rw [hread] at hsends
    exact hsends.selected hwinner
  subst hexecutor
  exact ⟨stored, _, ⟨taskId, payload, hash, 0⟩, author, hpayload, hid.symm,
    ⟨pid, j, before, _, hj, hbefore, hread ▸ hsends⟩, hauthor⟩

theorem tells_of_result (m : Store) (hm : m.Consistent) (outbox : m.outbox = [])
    (results : m.results = []) (sched : List (Act Job Outcome)) {pid : Nat} {url : String}
    {body : Json} {r : Reply (.postJson url body)}
    (hmem : ⟨pid, .postJson url body, r⟩ ∈ (runSched market (.initial m) sched).trace) :
    TellsOfResult (runSched market (.initial m) sched) pid url body := by
  have htraced := (traceable_run m hm sched).1.traced
  have hexplained := runSched_explained m sched (meets_any market sched _) fun j _ => body_vouches j
  have hvouched : EachCall (fun earlier c => ∃ j, (runSched market (.initial m) sched).jobOf c.pid =
      some j ∧ j.Vouches (own c.pid earlier) c.op) (runSched market (.initial m) sched).trace := by
    refine eachCall_of_at fun c earlier hs => ?_
    obtain ⟨j, hj, -, hv⟩ := hexplained.at hs
    exact ⟨j, hj, hv⟩
  obtain ⟨j, past, hj, hv, hs⟩ := hvouched.of_mem hmem
  obtain ⟨s, claimCursor, rfl, hposts⟩ := hv.posts url body rfl
  obtain ⟨hurl, event, hknown, hnotifies⟩ := hposts url body rfl
  -- what a worker knows of is in the outbox
  have hevent : event ∈ (runSched market (.initial m) sched).state.contents := by
    rcases hknown.mono ((List.suffix_cons _ _).trans hs) with
      ⟨d, hd, entry, hentry, rfl⟩ | ⟨d, hd, row, hrow, rfl⟩
    · exact htraced.delivered _ (mem_own.mp hd) entry hentry
    · exact htraced.read _ (mem_own.mp hd) row hrow
  obtain ⟨teller, htold⟩ := told_run m outbox sched event hevent
  obtain ⟨row, executor, sent, author, hpayload, hsame, hsent, hauthor⟩ :=
    htold.result hnotifies.type (authored_run m results sched) hvouched
  exact ⟨⟨s, claimCursor, hj, hurl⟩, event, hevent, row, executor, sent, author, hnotifies.type,
    hnotifies.notification hpayload, hsame, hsent, hauthor⟩

/-- **Whose result it is**, from empty results and an empty outbox, whatever runs, fails or crashes.
A result that is stored, or that a reader is served between any calls, was sent by an executor whose
bid its request had read as the selected one of the assigned task, and its hash is that of the
payload. A webhook is only told of such results, and by whom only if it has sent one. -/
theorem results_authentic (m : Store) (hm : m.Consistent) (outbox : m.outbox = [])
    (results : m.results = []) (sched : List (Act Job Outcome)) :
    let cfg := runSched market (.initial m) sched
    (∀ row ∈ cfg.state.results, ∃ executor, SentBy cfg.jobOf cfg.trace executor row) ∧
    (∀ taskId body, Observes market (states market (.initial m) sched) (getResult taskId).run
        (.ok ⟨200, body⟩) →
      ∃ row executor, row.taskId = taskId ∧ SentBy cfg.jobOf cfg.trace executor row ∧
        body = row.served) ∧
    ∀ pid url body r, ⟨pid, .postJson url body, r⟩ ∈ cfg.trace → TellsOfResult cfg pid url body := by
  intro cfg
  refine ⟨(authored_run m results sched).stored, ?_, fun pid url body r hmem =>
    tells_of_result m hm outbox results sched hmem⟩
  intro taskId body hserved
  obtain ⟨h, hrow, hseen⟩ := hserved.follows [] (getResult_served taskId) fun _ hd => nomatch hd
  obtain ⟨row, hfound, rfl⟩ := hrow body rfl
  obtain ⟨s, hs, c, hx⟩ := hseen _ hfound
  obtain ⟨hmem, hid⟩ := findResult_exec hx
  -- the reader saw the store after a part of the run
  obtain ⟨done, left, rfl, rfl⟩ := prefix_of_mem_states sched _ hs
  obtain ⟨executor, hsent⟩ := (authored_run m results done).stored row hmem
  refine ⟨row, executor, hid, hsent.mono ?_ ?_, rfl⟩
  · intro pid j hj
    rw [show cfg = runSched market (runSched market (.initial m) done) left from
      runSched_append done left _]
    exact jobOf_runSched left _ hj
  · rw [show cfg = runSched market (runSched market (.initial m) done) left from
      runSched_append done left _]
    exact trace_suffix_runSched left _

/-- The executor `E` sends its result, and a worker tells a webhook. -/
def sendsAndTells : List (Act Job Outcome) :=
  creates 0 "t" ++ bidsAt 1 "1" "b" "e" 1 ++
    [.spawn (.publishResult { payloadHash := fun _ => "h" } "t" (some "E") (some (.str "done"))),
      goes 2, goes 2, goes 2, goes 2, .run 2 { text := "v" }, goes 2,
      .spawn (.tick { webhookUrl := some "https://example.com" } 0)] ++
    List.replicate 7 (goes 3)

theorem webhook_told_of_result :
    let cfg := runSched market (.initial emptyStore) sendsAndTells
    (∀ row ∈ cfg.state.results, ∃ executor, SentBy cfg.jobOf cfg.trace executor row) ∧
    ∃ url body, TellsOfResult cfg 3 url body := by
  obtain ⟨hstored, -, htold⟩ :=
    results_authentic emptyStore emptyStore_consistent rfl rfl sendsAndTells
  have hcall : ∃ c ∈ (runSched market (.initial emptyStore) sendsAndTells).trace,
      c.pid = 3 ∧ c.op.notifies = true := by decide +kernel
  obtain ⟨⟨pid, o, r⟩, hmem, rfl, ho⟩ := hcall
  cases o with
  | postJson url body => exact ⟨hstored, url, body, htold 3 url body r hmem⟩
  | _ => cases ho

end TrustGate.Market
