import TrustGate.Market.Identity
import TrustGate.Market.Paused
import TrustGate.Market.Requested

set_option autoImplicit false

/-! # Events on their way

An event is a row of the outbox, then an entry of the stream, then the key of a consumption. What is
read of it on the way is what the row says (`Traced`), and no row is marked processed before its entry
is in the stream. -/

namespace TrustGate.Market

open Resumption

/-! ## What an event says -/

structure EventContent where
  id : String
  type : String
  aggregateType : String
  aggregateId : String
  payload : Json

def OutboxEvent.content (event : OutboxEvent) : EventContent :=
  ⟨event.id, event.type, event.aggregateType, event.aggregateId, event.payload⟩

def StreamEntry.content (entry : StreamEntry) : EventContent :=
  ⟨entry.id, entry.type, entry.aggregateType, entry.aggregateId, entry.payload⟩

/-- What the rows of the outbox say, in order. -/
def Store.contents (m : Store) : List EventContent := m.outbox.map OutboxEvent.content

/-- The record is of a row of the outbox, under the name of the handler of its type. -/
def Store.Handles (m : Store) (record : EventConsumptionRecord) : Prop :=
  ∃ content ∈ m.contents, content.id = record.eventId ∧
    record.handlerName = "event:" ++ content.type

/-- The events that were read from the outbox, or added to the stream. -/
def eventsRead (d : Done Op Reply) : List OutboxEvent :=
  match d with
  | ⟨.listUnprocessed _, .ok events⟩ => events
  | ⟨.findEvent _, .ok event⟩ => event.toList
  | ⟨.xAdd event, _⟩ => [event]
  | _ => []

/-- The entries that were delivered. -/
def entriesRead (d : Done Op Reply) : List StreamEntry :=
  match d with
  | ⟨.xReadGroup _ _, .ok entries⟩ => entries
  | ⟨.xAutoClaim _ _ _, .ok (_, entries)⟩ => entries
  | _ => []

/-- The records that are due. -/
def recordsRead (d : Done Op Reply) : List EventConsumptionRecord :=
  match d with
  | ⟨.listDueRetries _ _, .ok due⟩ => due
  | _ => []

/-! ## What a tick passes on -/

/-- Where a call has its arguments from. -/
def Taken (h : Hist) : Op → Prop
  | .xAdd event => ∃ d ∈ h, event ∈ eventsRead d
  | .tryStart args =>
      (∃ d ∈ h, ∃ entry ∈ entriesRead d,
        args.handlerName = "event:" ++ entry.type ∧ args.eventId = entry.id) ∨
      ∃ d ∈ h, ∃ record ∈ recordsRead d,
        args.handlerName = record.handlerName ∧ args.eventId = record.eventId
  | _ => True

/-- The other calls of a tick, but for the one that reads the batch. -/
def Op.plain : Op → Bool
  | .xAdd _ => false
  | .tryStart _ => false
  | .listUnprocessed _ => false
  | _ => true

def Op.lists : Op → Bool
  | .listUnprocessed _ => true
  | _ => false

theorem lists_of_plain {o : Op} (ho : o.plain = true) : o.lists = false := by
  cases o <;> first | rfl | cases ho

theorem taken_of_plain {h : Hist} {o : Op} (ho : o.plain = true) : Taken h o := by
  cases o <;> trivial

section

variable {cfg : Settings}

theorem publishEvent_taken {event : OutboxEvent} {h : Hist} (hread : ∃ d ∈ h, event ∈ eventsRead d) :
    Ensures Taken (fun _ _ => True) (publishEvent event) h := by
  unfold publishEvent
  simp only [ensures_attempt_bind, ensures_call_bind]
  refine ⟨hread, ?_, fun _ => ⟨trivial, fun _ => trivial⟩⟩
  intro _
  refine ⟨trivial, ?_⟩
  rintro (e | _)
  · exact ⟨trivial, fun _ => trivial⟩
  · trivial

theorem only_handleTaskCompletionRequested (eventId : String) (payload : Json) :
    Only (fun o => o.plain = true) (handleTaskCompletionRequested eventId payload) := by
  unfold handleTaskCompletionRequested
  split_ifs
  · exact .throw _
  dsimp only
  split_ifs
  · exact .throw _
  refine .bind (.call rfl) fun task => ?_
  cases task with
  | none => exact .throw _
  | some task =>
      dsimp only
      split_ifs
      · exact .pure _
      · exact .throw _
      refine .bind (.call rfl) fun bids => ?_
      split
      · exact .throw _
      · exact .bind (.call rfl) fun _ => .bind (.call rfl) fun _ => .bind (.call rfl) fun _ => .call rfl

theorem only_handleResultPublished (eventId : String) (payload : Json) :
    Only (fun o => o.plain = true) (handleResultPublished cfg eventId payload) := by
  unfold handleResultPublished
  split
  · exact .pure _
  split_ifs
  · exact .throw _
  refine .bind ?_ fun publishedAt => ?_
  · unfold publishedAtOf
    split
    · exact .bind (.call rfl) fun _ => .pure _
    · exact .bind (.call rfl) fun _ => .pure _
    · exact .pure _
  split_ifs
  · exact .throw _
  · exact .call rfl

theorem only_dispatchStarted (handlerName consumedId eventId type : String) (payload : Json)
    (attempts : Nat) : Only (fun o => o.plain = true)
      (dispatchStarted cfg handlerName consumedId eventId type payload attempts) := by
  have hdispatch : Only (fun o => o.plain = true) (dispatch cfg eventId type payload) := by
    unfold dispatch
    split_ifs
    · exact only_handleTaskCompletionRequested _ _
    · exact only_handleResultPublished _ _
    · exact .pure _
  refine .bind (.attempt (.bind hdispatch fun _ => .call rfl)) fun result => ?_
  cases result with
  | ok _ => exact .pure _
  | error e => exact .bind (.bind (.call rfl) fun _ => .pure _) fun _ => .call rfl

theorem dispatchStarted_taken (handlerName consumedId eventId type : String) (payload : Json)
    (attempts : Nat) (h : Hist) : Ensures Taken (fun _ _ => True)
      (dispatchStarted cfg handlerName consumedId eventId type payload attempts) h :=
  (only_dispatchStarted handlerName consumedId eventId type payload attempts h).mono
    (fun _ _ => taken_of_plain) fun _ _ hq => hq

theorem handleEntry_taken {entry : StreamEntry} {h : Hist}
    (hread : ∃ d ∈ h, entry ∈ entriesRead d) :
    Ensures Taken (fun _ _ => True) (handleEntry cfg entry) h := by
  unfold handleEntry
  split_ifs
  · exact ⟨trivial, fun _ => trivial⟩
  rw [ensures_call_bind]
  obtain ⟨d, hd, hmem⟩ := hread
  refine ⟨.inl ⟨d, hd, entry, hmem, rfl, rfl⟩, ?_, fun _ => trivial⟩
  intro started
  split_ifs
  swap
  · exact ⟨trivial, fun _ => trivial⟩
  rw [ensures_attempt_bind]
  refine (dispatchStarted_taken _ _ _ _ _ _ _).mono (fun _ _ hc => hc) ?_
  rintro h r -
  rw [ensures_call_bind]
  refine ⟨trivial, ?_, fun _ => trivial⟩
  intro _
  cases r <;> trivial

theorem retryRecord_taken {record : EventConsumptionRecord} {h : Hist}
    (hread : ∃ d ∈ h, record ∈ recordsRead d) :
    Ensures Taken (fun _ _ => True) (retryRecord cfg record) h := by
  unfold retryRecord
  rw [ensures_call_bind]
  obtain ⟨d, hd, hmem⟩ := hread
  refine ⟨.inr ⟨d, hd, record, hmem, rfl, rfl⟩, ?_, fun _ => trivial⟩
  intro started
  split_ifs
  swap
  · trivial
  rw [ensures_call_bind]
  refine ⟨trivial, ?_, fun _ => trivial⟩
  rintro (_ | event)
  · refine ⟨trivial, ?_⟩
    rintro (e | now)
    · trivial
    · exact ⟨trivial, fun _ => trivial⟩
  · exact dispatchStarted_taken _ _ _ _ _ _ _

/-- A loop over what was read. -/
theorem forEach_taken {ι : Type} {f : ι → Js Unit} (xs : List ι) {d : Done Op Reply} {h : Hist}
    (hd : d ∈ h) (hf : ∀ x h, d ∈ h → x ∈ xs → Ensures Taken (fun _ _ => True) (f x) h) :
    Ensures Taken (fun _ _ => True) (forEach f xs) h := by
  refine ensures_forEach (fun ys h => d ∈ h ∧ ys ⊆ xs) ?_ (fun _ _ => trivial) _ h
    ⟨hd, List.Subset.refl _⟩
  rintro x ys h ⟨hd, hsub⟩
  refine (hf x h hd (hsub List.mem_cons_self)).grows.mono (fun _ _ hc => hc.1) ?_
  rintro h' (e | _) ⟨-, hsuffix⟩
  · trivial
  · exact ⟨hsuffix.subset hd, fun y hy => hsub (List.mem_cons_of_mem _ hy)⟩

theorem tick_taken (claimCursor : Nat) :
    Ensures Taken (fun _ _ => True) (tick cfg claimCursor) [] := by
  unfold tick publishOnce
  rw [ensures_bind, ensures_call_bind]
  refine ⟨trivial, ?_, fun _ => trivial⟩
  intro events
  refine (forEach_taken events List.mem_cons_self fun _ _ hd hx =>
    publishEvent_taken ⟨_, hd, hx⟩).mono (fun _ _ hc => hc) ?_
  rintro h (e | _) -
  · trivial
  dsimp only
  split_ifs
  · trivial
  unfold autoClaimOnce
  rw [ensures_bind, ensures_call_bind]
  refine ⟨trivial, ?_, fun _ => trivial⟩
  rintro ⟨next, entries⟩
  refine (forEach_taken entries List.mem_cons_self fun _ _ hd hx =>
    handleEntry_taken ⟨_, hd, hx⟩).mono (fun _ _ hc => hc) ?_
  rintro h (e | _) -
  · trivial
  unfold pollOnce
  dsimp only
  rw [ensures_bind, ensures_call_bind]
  refine ⟨trivial, ?_, fun _ => trivial⟩
  intro entries
  refine (forEach_taken entries List.mem_cons_self fun _ _ hd hx =>
    handleEntry_taken ⟨_, hd, hx⟩).mono (fun _ _ hc => hc) ?_
  rintro h (e | _) -
  · trivial
  refine ensures_forEach (fun _ _ => True) ?_ (fun _ _ => trivial) _ h trivial
  rintro handlerName names h -
  unfold retryDue
  rw [ensures_call_bind]
  refine ⟨trivial, ?_, fun _ => trivial⟩
  intro due
  refine (forEach_taken due List.mem_cons_self fun _ _ hd hx =>
    retryRecord_taken ⟨_, hd, hx⟩).mono (fun _ _ hc => hc) ?_
  rintro h (e | _) - <;> trivial

end

theorem body_taken (j : Job) : Follows Taken (fun _ _ => True) j.body [] := by
  by_cases hj : ∃ cfg claimCursor, j = .tick cfg claimCursor
  · obtain ⟨cfg, claimCursor, rfl⟩ := hj
    exact (follows_bind _ _ _).mpr (tick_taken claimCursor)
  · refine (body_follows j).mono (fun h o hc => ?_) fun _ _ _ => trivial
    cases o with
    | xAdd _ | tryStart _ =>
        obtain ⟨cfg, claimCursor, heq, -⟩ := Job.tick_of_worker hc rfl
        exact absurd ⟨cfg, claimCursor, heq⟩ hj
    | _ => trivial

/-! ## The whole batch -/

/-- Every event of the batch was tried, unless a failure could not be recorded. -/
def Attempted (h : Hist) : Prop :=
  ∀ limit events, ⟨.listUnprocessed limit, .ok events⟩ ∈ h →
    (∀ id error e, ⟨.markEventFailed id error, .error e⟩ ∉ h) →
    ∀ event ∈ events, ∃ r, ⟨.xAdd event, r⟩ ∈ h

/-- The batch is read, and the rows before `left` were tried. -/
structure Publishing (events left : List OutboxEvent) (h : Hist) : Prop where
  batch : ∀ d ∈ h, d.op.lists = true → d = ⟨.listUnprocessed 50, .ok events⟩
  tried : ∀ event ∈ events, event ∈ left ∨ ∃ r, ⟨.xAdd event, r⟩ ∈ h

theorem Publishing.attempted {events : List OutboxEvent} {h : Hist} (hp : Publishing events [] h) :
    Attempted h := by
  intro limit events' hmem _ event hevent
  cases hp.batch _ hmem rfl
  exact (hp.tried event hevent).resolve_left List.not_mem_nil

/-- Later calls read no other batch. -/
theorem Publishing.later {events : List OutboxEvent} {h l : Hist} (hp : Publishing events [] h)
    (hl : ∀ d ∈ l, d.op.lists = false) : Publishing events [] (l ++ h) where
  batch d hd hlists := by
    rcases List.mem_append.mp hd with hd | hd
    · rw [hl d hd] at hlists
      cases hlists
    · exact hp.batch d hd hlists
  tried event hevent := (hp.tried event hevent).imp_right fun ⟨r, hr⟩ =>
    ⟨r, List.mem_append_right _ hr⟩

/-- A round is over when its row was tried, whatever was called after that. -/
theorem Publishing.round {events left : List OutboxEvent} {event : OutboxEvent} {h l : Hist}
    (hp : Publishing events (event :: left) h) (hl : ∀ d ∈ l, d.op.lists = false)
    {r : Reply (.xAdd event)} (hr : ⟨.xAdd event, r⟩ ∈ l) : Publishing events left (l ++ h) := by
  constructor
  · intro d hd hlists
    rcases List.mem_append.mp hd with hd | hd
    · rw [hl d hd] at hlists
      cases hlists
    · exact hp.batch d hd hlists
  · intro event' hevent'
    rcases hp.tried event' hevent' with hmem | ⟨r', hr'⟩
    · rcases List.mem_cons.mp hmem with rfl | hmem
      · exact .inr ⟨r, List.mem_append_left _ hr⟩
      · exact .inl hmem
    · exact .inr ⟨r', List.mem_append_right _ hr'⟩

theorem attempted_of_failed {id error : String} {e : JsError} {h : Hist} :
    Attempted (⟨.markEventFailed id error, .error e⟩ :: h) :=
  fun _ _ _ hnone => absurd List.mem_cons_self (hnone id error e)

theorem publishEvent_publishing {events left : List OutboxEvent} {event : OutboxEvent} {h : Hist}
    (hp : Publishing events (event :: left) h) :
    Ensures (fun _ _ => True) (fun h r => match r with
      | .ok _ => Publishing events left h
      | .error _ => Attempted h) (publishEvent event) h := by
  unfold publishEvent
  simp only [ensures_attempt_bind, ensures_call_bind]
  refine ⟨trivial, ?_, fun e => ⟨trivial, ?_⟩⟩
  · intro _
    refine ⟨trivial, ?_⟩
    rintro (e | _)
    · refine ⟨trivial, ?_⟩
      rintro (e' | _)
      · exact attempted_of_failed
      · exact hp.round (l := [_, _, _]) (by simp [Op.lists]) (.tail _ (.tail _ (.head _)))
    · exact hp.round (l := [_, _]) (by simp [Op.lists]) (.tail _ (.head _))
  · rintro (e' | _)
    · exact attempted_of_failed
    · exact hp.round (l := [_, _]) (by simp [Op.lists]) (.tail _ (.head _))

section

variable {cfg : Settings}

theorem only_handleEntry (entry : StreamEntry) :
    Only (fun o => o.lists = false) (handleEntry cfg entry) := by
  unfold handleEntry
  split_ifs
  · exact .call rfl
  refine .bind (.call rfl) fun started => ?_
  split_ifs
  swap
  · exact .call rfl
  refine .bind (.attempt ((only_dispatchStarted _ _ _ _ _ _).mono fun _ => lists_of_plain)) fun result => .bind (.call rfl)
    fun _ => ?_
  cases result with
  | ok _ => exact .pure _
  | error e => exact .throw _

theorem only_retryDue (handlerName : String) :
    Only (fun o => o.lists = false) (retryDue cfg handlerName) := by
  refine .bind (.call rfl) fun due => Only.forEach (fun record => ?_) due
  refine .bind (.call rfl) fun started => ?_
  split_ifs
  swap
  · exact .pure _
  refine .bind (.call rfl) fun found => ?_
  cases found with
  | none => exact .bind (.bind (.call rfl) fun _ => .pure _) fun _ => .call rfl
  | some event => exact (only_dispatchStarted _ _ _ _ _ _).mono fun _ => lists_of_plain

theorem tick_attempted (claimCursor : Nat) :
    Ensures (fun _ _ => True) (fun h _ => Attempted h) (tick cfg claimCursor) [] := by
  have hrest : Only (fun o => o.lists = false) (do
      autoClaimOnce cfg claimCursor
      pollOnce cfg
      forEach (retryDue cfg) ["event:task_completion_requested", "event:result_published"]) :=
    .bind (.bind (.call rfl) fun _ => Only.forEach only_handleEntry _) fun _ =>
      .bind (.bind (.call rfl) fun _ => Only.forEach only_handleEntry _) fun _ =>
        Only.forEach only_retryDue _
  unfold tick publishOnce
  rw [ensures_bind, ensures_call_bind]
  refine ⟨trivial, ?_, fun e _ _ hmem => by simp at hmem⟩
  intro events
  have hstart : Publishing events events [⟨.listUnprocessed 50, .ok events⟩] :=
    ⟨fun d hd _ => List.mem_singleton.mp hd, fun event hevent => .inl hevent⟩
  have hloop : Ensures (fun _ _ => True) (fun h r => match r with
      | .ok _ => Publishing events [] h
      | .error _ => Attempted h) (forEach publishEvent events)
      [⟨.listUnprocessed 50, .ok events⟩] := by
    refine ensures_forEach (Publishing events) (fun event left h hp => ?_) (fun _ hp => hp) events _
      hstart
    refine (publishEvent_publishing hp).mono (fun _ _ hc => hc) ?_
    rintro h (e | _) hq <;> exact hq
  refine hloop.mono (fun _ _ _ => trivial) ?_
  rintro h (e | _) hpublished
  · exact hpublished
  dsimp only
  split_ifs
  · exact hpublished.attempted
  · exact hrest.ensures (fun _ _ _ _ => trivial) fun l _ hl => (hpublished.later hl).attempted

end

/-! ## One call -/

section

variable {o : Op} {c : Outcome} {m m' : Store} {r : Reply o} {t : Trace Op Reply} {pid : Nat}
  {j : Job}

/-- What a row is later on. -/
structure OutboxEvent.Later (row row' : OutboxEvent) : Prop where
  content : row'.content = row.content
  processedAt : row.processedAt.isSome = true → row'.processedAt = row.processedAt

theorem OutboxEvent.Later.refl (row : OutboxEvent) : row.Later row := ⟨rfl, fun _ => rfl⟩

theorem OutboxEvent.Later.trans {a b d : OutboxEvent} (h : a.Later b) (h' : b.Later d) :
    a.Later d where
  content := h'.content.trans h.content
  processedAt hprocessed := by
    have hb := h.processedAt hprocessed
    rw [h'.processedAt (hb ▸ hprocessed), hb]

/-- **A row of the outbox stays** where it is, says what it said, and stays processed. -/
theorem outbox_later (hx : exec o c m = some (r, m')) {i : Nat} {row : OutboxEvent}
    (hrow : m.outbox[i]? = some row) : ∃ row', m'.outbox[i]? = some row' ∧ row.Later row' := by
  have update (p : OutboxEvent → Bool) (f : OutboxEvent → OutboxEvent)
      (hf : ∀ row, p row = true → row.Later (f row)) :
      ∃ row', (updateWhere p f m.outbox)[i]? = some row' ∧ row.Later row' := by
    refine ⟨if p row then f row else row, by rw [updateWhere, List.getElem?_map, hrow]; rfl, ?_⟩
    split_ifs with hp
    · exact hf row hp
    · exact .refl row
  rcases exec_cases hx with ⟨-, rfl, -⟩ | ⟨-, v, hp, -⟩
  · exact ⟨row, hrow, .refl row⟩
  cases o with
  | insertEvent event =>
      cases hp
      exact ⟨row, List.getElem?_append_left (List.getElem?_eq_some_iff.mp hrow).1 ▸ hrow, .refl row⟩
  | markEventProcessed id =>
      cases hp
      refine update _ _ fun row hdue => ⟨rfl, fun hsome => ?_⟩
      simp only [Bool.and_eq_true, Option.isNone_iff_eq_none] at hdue
      rw [hdue.2] at hsome
      cases hsome
  | markEventFailed id error =>
      cases hp
      exact update _ _ fun row _ => ⟨rfl, fun _ => rfl⟩
  | _ => exact ⟨row, (perform_frame hp).outbox nofun nofun nofun ▸ hrow, .refl row⟩

/-- What the outbox says only gets longer, by an event that is inserted. -/
theorem contents_exec (hx : exec o c m = some (r, m')) : m'.contents = m.contents ∨
    ∃ event, o = .insertEvent event ∧ m'.contents = m.contents ++ [event.content] := by
  have update (p : OutboxEvent → Bool) (f : OutboxEvent → OutboxEvent)
      (hf : ∀ row, (f row).content = row.content) :
      (updateWhere p f m.outbox).map OutboxEvent.content = m.contents := by
    rw [updateWhere, List.map_map]
    refine List.map_congr_left fun row _ => ?_
    show (if p row then f row else row).content = row.content
    split_ifs
    · exact hf row
    · rfl
  rcases exec_cases hx with ⟨-, rfl, -⟩ | ⟨-, v, hp, -⟩
  · exact .inl rfl
  cases o with
  | insertEvent event =>
      cases hp
      exact .inr ⟨event, rfl, List.map_append⟩
  | markEventProcessed id =>
      cases hp
      exact .inl (update _ _ fun _ => rfl)
  | markEventFailed id error =>
      cases hp
      exact .inl (update _ _ fun _ => rfl)
  | _ => exact .inl (congrArg (List.map _) ((perform_frame hp).outbox nofun nofun nofun))

theorem contents_mono (hx : exec o c m = some (r, m')) : m.contents ⊆ m'.contents := by
  rcases contents_exec hx with heq | ⟨event, -, heq⟩
  · exact heq ▸ List.Subset.refl _
  · exact heq ▸ List.subset_append_left _ _

/-- What is read of the outbox stands in it. -/
theorem mem_contents_of_eventsRead (hx : exec o c m = some (r, m')) {event : OutboxEvent}
    (he : event ∈ eventsRead ⟨o, r⟩) : o = .xAdd event ∨ event.content ∈ m.contents := by
  cases o with
  | xAdd event' =>
      cases List.mem_singleton.mp he
      exact .inl rfl
  | listUnprocessed limit =>
      cases r with
      | error e => cases he
      | ok events =>
          cases exec_ok hx
          exact .inr (List.mem_map_of_mem (List.mem_filter.mp (List.mem_of_mem_take he)).1)
  | findEvent id =>
      cases r with
      | error e => cases he
      | ok found =>
          cases exec_ok hx
          exact .inr (List.mem_map_of_mem (List.mem_of_find?_eq_some (Option.mem_toList.mp he)))
  | _ => cases he

/-- What is delivered stands in the stream. -/
theorem mem_entries_of_entriesRead (hx : exec o c m = some (r, m')) {entry : StreamEntry}
    (he : entry ∈ entriesRead ⟨o, r⟩) : entry ∈ m.stream.entries := by
  cases o with
  | xReadGroup consumer count =>
      cases r with
      | error e => cases he
      | ok entries =>
          cases exec_ok hx
          exact (List.mem_filter.mp (List.mem_of_mem_take he)).1
  | xAutoClaim consumer cursor count =>
      cases r with
      | error e => cases he
      | ok res =>
          cases exec_ok hx
          exact (List.mem_filter.mp he).1
  | _ => cases he

/-- An entry comes into the stream with the event it is added for. -/
theorem mem_entries_exec (hx : exec o c m = some (r, m')) {entry : StreamEntry}
    (he : entry ∈ m'.stream.entries) : entry ∈ m.stream.entries ∨
      ∃ event, o = .xAdd event ∧ entry.content = event.content := by
  rcases exec_cases hx with ⟨-, rfl, -⟩ | ⟨-, v, hp, -⟩
  · exact .inl he
  cases o with
  | xAdd event =>
      cases hp
      rw [Stream.add_entries] at he
      rcases List.mem_append.mp he with he | he
      · exact .inl (List.mem_of_mem_drop he)
      · cases List.mem_singleton.mp he
        exact .inr ⟨event, rfl, rfl⟩
  | xReadGroup _ _ | xAutoClaim _ _ _ | xAck _ =>
      cases hp
      exact .inl he
  | _ => exact .inl ((perform_frame hp).stream nofun nofun nofun nofun ▸ he)

/-- A record is of the same event under the same name as an old one, or it is the first of a start. -/
theorem mem_consumptions_exec (hx : exec o c m = some (r, m')) {record : EventConsumptionRecord}
    (hrecord : record ∈ m'.consumptions) :
    (∃ old ∈ m.consumptions, old.handlerName = record.handlerName ∧ old.eventId = record.eventId) ∨
      ∃ args, o = .tryStart args ∧ args.handlerName = record.handlerName ∧
        args.eventId = record.eventId := by
  have update {h e : String} {f : EventConsumptionRecord → EventConsumptionRecord}
      (hmem : record ∈ (m.updateConsumption h e f).consumptions)
      (hf : ∀ row, (f row).handlerName = row.handlerName ∧ (f row).eventId = row.eventId) :
      ∃ old ∈ m.consumptions, old.handlerName = record.handlerName ∧
        old.eventId = record.eventId := by
    obtain ⟨old, hold, rfl⟩ := List.mem_map.mp hmem
    refine ⟨old, hold, ?_⟩
    split_ifs
    · exact ⟨(hf old).1.symm, (hf old).2.symm⟩
    · exact ⟨rfl, rfl⟩
  rcases exec_cases hx with ⟨-, rfl, -⟩ | ⟨-, v, hp, -⟩
  · exact .inl ⟨record, hrecord, rfl, rfl⟩
  cases o with
  | tryStart args =>
      have hm : m' = (m.tryStart args c.now).2 := (congrArg Prod.snd (Option.some.inj hp)).symm
      subst hm
      unfold Store.tryStart at hrecord
      cases hfind : m.findConsumption args.handlerName args.eventId with
      | none =>
          rw [hfind] at hrecord
          rcases List.mem_append.mp hrecord with hrecord | hrecord
          · exact .inl ⟨record, hrecord, rfl, rfl⟩
          · cases List.mem_singleton.mp hrecord
            exact .inr ⟨args, rfl, rfl, rfl⟩
      | some existing =>
          rw [hfind] at hrecord
          dsimp only at hrecord
          split_ifs at hrecord
          · exact .inl ⟨record, hrecord, rfl, rfl⟩
          · exact .inl (update hrecord fun _ => ⟨rfl, rfl⟩)
  | markSucceeded h e =>
      cases hp
      exact .inl (update hrecord fun _ => ⟨rfl, rfl⟩)
  | markFailed h e error nextRetryAt =>
      cases hp
      exact .inl (update hrecord fun _ => ⟨rfl, rfl⟩)
  | _ => exact .inl ⟨record, (perform_frame hp).consumptions nofun nofun nofun ▸ hrecord, rfl, rfl⟩

/-- What is due is on record. -/
theorem mem_consumptions_of_recordsRead (hx : exec o c m = some (r, m'))
    {record : EventConsumptionRecord} (hrecord : record ∈ recordsRead ⟨o, r⟩) :
    record ∈ m.consumptions := by
  cases o with
  | listDueRetries handlerName limit =>
      cases r with
      | error e => cases hrecord
      | ok due =>
          cases exec_ok hx
          have hsorted := List.mem_of_mem_take hrecord
          exact (List.mem_filter.mp ((List.mem_insertionSort _).mp hsorted)).1
  | _ => cases hrecord

/-! ## Every call -/

/-- **What is known of an event is what its row says**, and each row has its own id. -/
structure Traced (m : Store) (t : Trace Op Reply) : Prop where
  ids : (m.contents.map EventContent.id).Nodup
  issued : ∀ content ∈ m.contents, content.id ∈ m.issued
  unused : ∀ pid id, heldId (own pid t) = some id → ∀ content ∈ m.contents, content.id ≠ id
  read : ∀ call ∈ t, ∀ event ∈ eventsRead ⟨call.op, call.reply⟩, event.content ∈ m.contents
  entries : ∀ entry ∈ m.stream.entries, entry.content ∈ m.contents
  delivered : ∀ call ∈ t, ∀ entry ∈ entriesRead ⟨call.op, call.reply⟩, entry.content ∈ m.contents
  records : ∀ record ∈ m.consumptions, m.Handles record
  due : ∀ call ∈ t, ∀ record ∈ recordsRead ⟨call.op, call.reply⟩, m.Handles record

/-- The stream and the consumptions are of events in the outbox. -/
structure Store.Consistent (m : Store) : Prop where
  keys : m.KeysIssued
  ids : (m.contents.map EventContent.id).Nodup
  issued : ∀ content ∈ m.contents, content.id ∈ m.issued
  entries : ∀ entry ∈ m.stream.entries, entry.content ∈ m.contents
  records : ∀ record ∈ m.consumptions, m.Handles record

theorem Traced.initial (h : m.Consistent) : Traced m [] where
  ids := h.ids
  issued := h.issued
  unused _ _ hid := nomatch hid
  read _ hcall := nomatch hcall
  entries := h.entries
  delivered _ hcall := nomatch hcall
  records := h.records
  due _ hcall := nomatch hcall

theorem Store.Handles.mono (hsub : m.contents ⊆ m'.contents) {record : EventConsumptionRecord}
    (h : m.Handles record) : m'.Handles record := by
  obtain ⟨content, hmem, hrest⟩ := h
  exact ⟨content, hsub hmem, hrest⟩

/-- What a tick passes on is known of the event. -/
theorem Traced.add (h : Traced m t) {event : OutboxEvent}
    (htaken : Taken (own pid t) (.xAdd event)) : event.content ∈ m.contents := by
  obtain ⟨d, hd, hmem⟩ := htaken
  exact h.read _ (mem_own.mp hd) event hmem

theorem Traced.start (h : Traced m t) {args : StartArgs}
    (htaken : Taken (own pid t) (.tryStart args)) :
    ∃ content ∈ m.contents, content.id = args.eventId ∧
      args.handlerName = "event:" ++ content.type := by
  rcases htaken with ⟨d, hd, entry, hmem, hname, hid⟩ | ⟨d, hd, record, hmem, hname, hid⟩
  · exact ⟨entry.content, h.delivered _ (mem_own.mp hd) entry hmem, hid.symm, hname⟩
  · obtain ⟨content, hcontent, hid', hname'⟩ := h.due _ (mem_own.mp hd) record hmem
    exact ⟨content, hcontent, hid'.trans hid.symm, hname.trans hname'⟩

theorem Traced.call (h : Traced m t) (hi : Identified m t) (hc : j.Calls (own pid t) o)
    (htaken : Taken (own pid t) o) (hx : exec o c m = some (r, m')) :
    Traced m' (⟨pid, o, r⟩ :: t) := by
  have hsub := contents_mono hx
  -- an event that is inserted has the UUID that its process holds
  have hinserted (event : OutboxEvent) (ho : o = .insertEvent event) :
      heldId (own pid t) = some event.id := by
    subst ho
    generalize own pid t = past at hc ⊢
    cases Job.emission hc with
    | insert _ _ _ => rfl
  constructor
  · rcases contents_exec hx with heq | ⟨event, ho, heq⟩
    · rw [heq]
      exact h.ids
    · rw [heq, List.map_append, List.nodup_append]
      refine ⟨h.ids, by simp, ?_⟩
      intro id hid id' hid'
      obtain ⟨content, hmem, rfl⟩ := List.mem_map.mp hid
      cases List.mem_singleton.mp hid'
      exact h.unused pid event.id (hinserted event ho) content hmem
  · intro content hmem
    apply Identified.issued_exec hx
    rcases contents_exec hx with heq | ⟨event, ho, heq⟩
    · exact h.issued content (heq ▸ hmem)
    · rw [heq] at hmem
      rcases List.mem_append.mp hmem with hmem | hmem
      · exact h.issued content hmem
      · cases List.mem_singleton.mp hmem
        exact (hi.held pid event.id (hinserted event ho)).1
  · intro pid' id hid content hmem
    rcases heldId_call hx hid with ⟨hold, hsame⟩ | ⟨-, hnew, rfl⟩
    · rcases contents_exec hx with heq | ⟨event, ho, heq⟩
      · exact h.unused pid' id hold content (heq ▸ hmem)
      · rw [heq] at hmem
        rcases List.mem_append.mp hmem with hmem | hmem
        · exact h.unused pid' id hold content hmem
        · cases List.mem_singleton.mp hmem
          -- only the holder could insert it, and it would not hold it any more
          rintro rfl
          have := hsame (hi.apart pid' pid event.id hold (hinserted event ho))
          rw [ho] at this
          cases this
    · rintro rfl
      exact hnew (h.issued content hmem)
  · rintro call hcall event hmem
    rcases List.mem_cons.mp hcall with rfl | hcall
    · rcases mem_contents_of_eventsRead hx hmem with rfl | hcontent
      · exact hsub (h.add htaken)
      · exact hsub hcontent
    · exact hsub (h.read call hcall event hmem)
  · intro entry hmem
    rcases mem_entries_exec hx hmem with hmem | ⟨event, rfl, heq⟩
    · exact hsub (h.entries entry hmem)
    · rw [heq]
      exact hsub (h.add htaken)
  · rintro call hcall entry hmem
    rcases List.mem_cons.mp hcall with rfl | hcall
    · exact hsub (h.entries entry (mem_entries_of_entriesRead hx hmem))
    · exact hsub (h.delivered call hcall entry hmem)
  · intro record hmem
    rcases mem_consumptions_exec hx hmem with ⟨old, hold, hname, hid⟩ | ⟨args, rfl, hname, hid⟩
    · obtain ⟨content, hcontent, hid', hname'⟩ := h.records old hold
      exact ⟨content, hsub hcontent, hid'.trans hid, hname.symm.trans hname'⟩
    · obtain ⟨content, hcontent, hid', hname'⟩ := h.start htaken
      exact ⟨content, hsub hcontent, hid'.trans hid, hname.symm.trans hname'⟩
  · rintro call hcall record hmem
    rcases List.mem_cons.mp hcall with rfl | hcall
    · exact (h.records record (mem_consumptions_of_recordsRead hx hmem)).mono hsub
    · exact (h.due call hcall record hmem).mono hsub

/-! ## No event is skipped -/

/-- An entry that says what the row says was added to the stream. -/
def Appended (t : Trace Op Reply) (row : OutboxEvent) : Prop :=
  ∃ call ∈ t, ∃ event, (⟨call.op, call.reply⟩ : Done Op Reply) = ⟨.xAdd event, .ok ()⟩ ∧
    event.content = row.content

/-- A row is marked right after its entry was added. -/
theorem appended_of_justAdded {id : String} (hadded : justAdded (own pid t) = some id) :
    ∃ event : OutboxEvent, event.id = id ∧ (⟨.xAdd event, .ok ()⟩ : Done Op Reply) ∈ own pid t := by
  cases hown : own pid t with
  | nil =>
      rw [hown] at hadded
      cases hadded
  | cons d past =>
      rw [hown] at hadded
      unfold justAdded at hadded
      split at hadded
      · rename_i event _ _ heq
        cases heq
        cases hadded
        exact ⟨event, rfl, List.mem_cons_self⟩
      · cases hadded

/-- **One call.** What is processed was added before. -/
theorem appended_call (h : Traced m t)
    (hprocessed : ∀ row ∈ m.outbox, row.processedAt.isSome = true → Appended t row)
    (hc : j.Calls (own pid t) o) (hx : exec o c m = some (r, m')) :
    ∀ row ∈ m'.outbox, row.processedAt.isSome = true → Appended (⟨pid, o, r⟩ :: t) row := by
  intro row hrow hsome
  have hold {old : OutboxEvent} (hmem : old ∈ m.outbox) (hcontent : old.content = row.content)
      (h : old.processedAt.isSome = true) : Appended (⟨pid, o, r⟩ :: t) row := by
    obtain ⟨call, hcall, event, hdone, heq⟩ := hprocessed old hmem h
    exact ⟨call, List.mem_cons_of_mem _ hcall, event, hdone, heq.trans hcontent⟩
  have same (heq : m'.outbox = m.outbox) : Appended (⟨pid, o, r⟩ :: t) row :=
    hold (heq ▸ hrow) rfl hsome
  rcases exec_cases hx with ⟨-, rfl, -⟩ | ⟨-, v, hp, -⟩
  · exact same rfl
  cases o with
  | insertEvent event =>
      cases hp
      rcases List.mem_append.mp hrow with hrow | hrow
      · exact hold hrow rfl hsome
      · cases List.mem_singleton.mp hrow
        rw [Job.inserts hc] at hsome
        cases hsome
  | markEventProcessed id =>
      cases hp
      obtain ⟨old, hmem, rfl⟩ := List.mem_map.mp hrow
      split_ifs at hsome ⊢ with hdue
      · obtain ⟨event, hid, hadded⟩ := appended_of_justAdded (Job.processes hc)
        have hcall := mem_own.mp hadded
        refine ⟨_, List.mem_cons_of_mem _ hcall, event, rfl, ?_⟩
        -- the event is in the outbox as well, and ids are unique
        have hevent := h.read _ hcall event List.mem_cons_self
        have holdId : old.id = id := by
          rw [Bool.and_eq_true, decide_eq_true_eq] at hdue
          exact hdue.1
        have hrow : old.content ∈ m.contents := List.mem_map_of_mem hmem
        exact List.inj_on_of_nodup_map h.ids hevent hrow (hid.trans holdId.symm)
      · rw [if_neg hdue] at hold
        exact hold hmem rfl hsome
  | markEventFailed id error =>
      cases hp
      obtain ⟨old, hmem, rfl⟩ := List.mem_map.mp hrow
      refine hold hmem ?_ ?_
      · split_ifs <;> rfl
      · split_ifs at hsome <;> exact hsome
  | _ => exact same ((perform_frame hp).outbox nofun nofun nofun)

end

/-! ## Runs -/

/-- The rows `listUnprocessed` selects from. -/
def Store.unprocessed (m : Store) : List OutboxEvent :=
  m.outbox.filter fun event => event.processedAt.isNone

/-- What is known after a run from consistent tables. -/
structure Traceable (m : Store) (t : Trace Op Reply) : Prop where
  identified : Identified m t
  traced : Traced m t

/-- A call of the market takes its arguments from where it may. -/
def Job.Takes (j : Job) (h : Hist) (o : Op) : Prop := j.Calls h o ∧ Taken h o

/-- A tick has tried its batch. -/
def Job.Tries (j : Job) (h : Hist) : Prop :=
  ∀ cfg claimCursor, j = .tick cfg claimCursor → Attempted h

theorem body_takes (j : Job) : Follows j.Takes (fun h _ => j.Tries h) j.body [] := by
  have hpost : Follows (fun _ _ => True) (fun h _ => j.Tries h) j.body [] := by
    by_cases hj : ∃ cfg claimCursor, j = .tick cfg claimCursor
    · obtain ⟨cfg, claimCursor, rfl⟩ := hj
      exact (toEnd_follows (tick_attempted claimCursor)).mono (fun _ _ hc => hc)
        fun _ _ hq _ _ _ => hq
    · exact (body_follows j).mono (fun _ _ _ => trivial)
        fun _ _ _ cfg claimCursor heq => absurd ⟨cfg, claimCursor, heq⟩ hj
  exact (((body_follows j).and (body_taken j)).and hpost).mono (fun _ _ hp => hp.1)
    fun _ _ hq => hq.2

theorem traceable_run (m : Store) (hm : m.Consistent) (sched : List (Act Job Outcome)) :
    Traceable (runSched market (.initial m) sched).state
      (runSched market (.initial m) sched).trace ∧
    Explained (.any : Regime Op Reply Job Outcome Store) Job.Takes Job.Tries
      (runSched market (.initial m) sched) := by
  refine runSched_rule (R := .any) (fun j _ => body_takes j) ?_ sched (.initial m)
    ⟨.initial hm.keys, .initial hm⟩ (.initial m) (meets_any market sched _)
  rintro m t pid j o c r m' ⟨hi, ht⟩ - ⟨hc, htaken⟩ - hx
  exact ⟨hi.call hc hx, ht.call hi hc htaken hx⟩

theorem outbox_later_run {cfg : Config Op Reply Job Store}
    (he : Explained (.any : Regime Op Reply Job Outcome Store) Job.Takes Job.Tries cfg)
    (sched : List (Act Job Outcome)) {i : Nat} {row : OutboxEvent}
    (hrow : cfg.state.outbox[i]? = some row) :
    ∃ row', (runSched market cfg sched).state.outbox[i]? = some row' ∧ row.Later row' := by
  refine (runSched_rule (I := fun m _ => ∃ row', m.outbox[i]? = some row' ∧ row.Later row')
    (fun j _ => body_takes j) ?_ sched cfg ⟨row, hrow, .refl row⟩ he (meets_any market sched _)).1
  rintro m t pid j o c r m' ⟨row', hrow', hsame⟩ - - - hx
  obtain ⟨row'', hrow'', hnext⟩ := outbox_later hx hrow'
  exact ⟨row'', hrow'', hsame.trans hnext⟩

theorem appended_run (m : Store) (hm : m.Consistent)
    (hnew : ∀ row ∈ m.outbox, row.processedAt = none) (sched : List (Act Job Outcome)) :
    ∀ row ∈ (runSched market (.initial m) sched).state.outbox, row.processedAt.isSome = true →
      Appended (runSched market (.initial m) sched).trace row := by
  refine (runSched_rule (R := .any) (I := fun m t => Traceable m t ∧
    ∀ row ∈ m.outbox, row.processedAt.isSome = true → Appended t row)
    (fun j _ => body_takes j) ?_ sched (.initial m) ⟨⟨.initial hm.keys, .initial hm⟩, ?_⟩
    (.initial m) (meets_any market sched _)).1.2
  · rintro m t pid j o c r m' ⟨⟨hi, ht⟩, hprocessed⟩ - ⟨hc, htaken⟩ - hx
    exact ⟨⟨hi.call hc hx, ht.call hi hc htaken hx⟩, appended_call ht hprocessed hc hx⟩
  · intro row hrow hsome
    rw [hnew row hrow] at hsome
    cases hsome

/-- **The publisher skips no event**, in any run of any number of publishers. -/
theorem publisher_skips_nothing (m : Store) (hm : m.Consistent)
    (hnew : ∀ row ∈ m.outbox, row.processedAt = none) (sched more : List (Act Job Outcome)) :
    let cfg := runSched market (.initial m) sched
    let later := runSched market cfg more
    (∀ row ∈ cfg.state.outbox, row.processedAt.isSome = true → Appended cfg.trace row) ∧
    (∀ (i : Nat) (row : OutboxEvent), cfg.state.outbox[i]? = some row →
      ∃ row', later.state.outbox[i]? = some row' ∧ row'.content = row.content ∧
        (row.processedAt.isSome = true → row'.processedAt = row.processedAt) ∧
        (¬ Appended later.trace row' → row' ∈ later.state.unprocessed)) ∧
    ∀ pid limit events, cfg.Returned pid →
      ⟨.listUnprocessed limit, .ok events⟩ ∈ own pid cfg.trace →
      (∀ id error e, ⟨.markEventFailed id error, .error e⟩ ∉ own pid cfg.trace) →
      ∀ event ∈ events, ∃ r, ⟨.xAdd event, r⟩ ∈ own pid cfg.trace := by
  intro cfg later
  have he := (traceable_run m hm sched).2
  refine ⟨appended_run m hm hnew sched, ?_, ?_⟩
  · intro i row hrow
    obtain ⟨row', hrow', hsame⟩ := outbox_later_run he more hrow
    refine ⟨row', hrow', hsame.content, hsame.processedAt, fun hnot => ?_⟩
    have happended := appended_run m hm hnew (sched ++ more)
    rw [runSched_append] at happended
    refine List.mem_filter.mpr ⟨List.mem_of_getElem? hrow', ?_⟩
    by_contra hsome
    exact hnot (happended row' (List.mem_of_getElem? hrow')
      (Option.isSome_iff_ne_none.mpr (by simpa using hsome)))
  · intro pid limit events hreturned hbatch hrecorded event hevent
    have hcalls := runSched_explained m sched (meets_any market sched _) fun j _ => body_takes j
    obtain ⟨newer, earlier, ht⟩ := List.append_of_mem (mem_own.mp hbatch)
    obtain ⟨j, hj, -, hc, -⟩ := hcalls.at ⟨newer, ht.symm⟩
    obtain ⟨settings, claimCursor, rfl, -⟩ := Job.tick_of_worker hc rfl
    exact he.ends hreturned hj settings claimCursor rfl limit events hbatch hrecorded event hevent

theorem emptyStore_consistent : emptyStore.Consistent where
  keys := ⟨fun _ h => (nomatch h), fun _ h => nomatch h⟩
  ids := .nil
  issued _ h := nomatch h
  entries _ h := nomatch h
  records _ h := nomatch h

/-- A task is created, and a worker publishes its event. -/
def publishesCreated : List (Act Job Outcome) :=
  [.spawn (.createPaid {} (.ok ⟨"R", "1", "work", 10, ""⟩)), .run 0 { text := "t" }, goes 0, goes 0,
    .run 0 { text := "e" }, goes 0, .spawn (.tick {} 0), goes 1, goes 1, goes 1]

theorem created_event_not_skipped :
    let cfg := runSched market (.initial emptyStore) publishesCreated
    cfg.state.outbox.map (fun row => (row.id, row.processedAt)) = [("e", some 0)] ∧
    ∀ row ∈ cfg.state.outbox, row.processedAt.isSome = true → Appended cfg.trace row :=
  ⟨by decide +kernel, (publisher_skips_nothing emptyStore emptyStore_consistent
    (fun _ h => nomatch h) publishesCreated []).1⟩

end TrustGate.Market
