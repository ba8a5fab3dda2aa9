import TrustGate.Lib.Backlog
import TrustGate.Lib.Observer
import TrustGate.Market.Ticks

set_option autoImplicit false

/-! # Which rows the publisher reaches

`publishOnce` takes the first 50 unprocessed rows of the outbox. One that Redis refuses stays where
it is and is in the next batch again. So a row gets its turn in a bounded number of publications,
whatever else is going on, unless 50 refused rows stand before it: then it is never offered. -/

namespace TrustGate.Market

open Resumption

/-! ## What a tick offers -/

/-- The publisher reads 50 rows at a time, and adds to the stream what it has read. -/
def Offers (h : Hist) : Op → Prop
  | .listUnprocessed limit => limit = 50
  | .xAdd event => ∃ events, ⟨.listUnprocessed 50, .ok events⟩ ∈ h ∧ event ∈ events
  | _ => True

/-- The event was offered, and if Redis took it, a call was made to mark its row. -/
def Offered (h : Hist) (event : OutboxEvent) : Prop :=
  ∃ r, ⟨.xAdd event, r⟩ ∈ h ∧ (r = .ok () → ∃ r', ⟨.markEventProcessed event.id, r'⟩ ∈ h)

/-- A batch was read, if it could be, and each of its rows was offered, or it was not possible to
record that one was refused. -/
def Attends (h : Hist) : Prop :=
  ∃ r, ⟨.listUnprocessed 50, r⟩ ∈ h ∧ ∀ events, r = .ok events →
    (∀ event ∈ events, Offered h event) ∨
      ∃ id error e, ⟨.markEventFailed id error, .error e⟩ ∈ h

/-- The publisher's calls apart. -/
def Op.publishes : Op → Bool
  | .listUnprocessed _ => true
  | .xAdd _ => true
  | _ => false

theorem offers_of_ne {h : Hist} {o : Op} (ho : o.publishes = false) : Offers h o := by
  cases o with
  | listUnprocessed _ | xAdd _ => cases ho
  | _ => trivial

theorem Offered.mono {h h' : Hist} (hs : h <:+ h') {event : OutboxEvent} (ho : Offered h event) :
    Offered h' event := by
  obtain ⟨r, hr, hmark⟩ := ho
  exact ⟨r, hs.subset hr, fun heq => (hmark heq).imp fun _ h => hs.subset h⟩

theorem Attends.mono {h h' : Hist} (hs : h <:+ h') (ha : Attends h) : Attends h' := by
  obtain ⟨r, hr, hall⟩ := ha
  refine ⟨r, hs.subset hr, fun events heq => (hall events heq).imp ?_ ?_⟩
  · exact fun hoffered event hevent => (hoffered event hevent).mono hs
  · exact fun ⟨id, error, e, h⟩ => ⟨id, error, e, hs.subset h⟩

section

variable {cfg : Settings}

/-- How the round of a row ends. -/
abbrev RoundEnds (event : OutboxEvent) (h : Hist) : Except JsError Unit → Prop
  | .ok _ => Offered h event
  | .error _ => ∃ id error e, ⟨.markEventFailed id error, .error e⟩ ∈ h

/-- One row is offered. -/
theorem publishEvent_offers {event : OutboxEvent} {h : Hist} (hoffers : Offers h (.xAdd event)) :
    Ensures Offers (RoundEnds event) (publishEvent event) h := by
  unfold publishEvent
  simp only [ensures_attempt_bind, ensures_call_bind]
  refine ⟨hoffers, ?_, fun e => ⟨trivial, ?_⟩⟩
  · intro _
    refine ⟨trivial, ?_⟩
    rintro (e | _)
    · refine ⟨trivial, ?_⟩
      rintro (e' | _)
      · exact ⟨_, _, _, List.mem_cons_self⟩
      · exact ⟨_, .tail _ (.tail _ (.head _)), fun _ => ⟨_, .tail _ (.head _)⟩⟩
    · exact ⟨_, .tail _ (.head _), fun _ => ⟨_, .head _⟩⟩
  · rintro (e' | _)
    · exact ⟨_, _, _, List.mem_cons_self⟩
    · exact ⟨_, .tail _ (.head _), by simp⟩

theorem publishOnce_offers (h : Hist) :
    Ensures Offers (fun h' _ => Attends h') publishOnce h := by
  unfold publishOnce
  rw [ensures_call_bind]
  refine ⟨rfl, fun events => ?_, fun e => ⟨_, List.mem_cons_self, by simp⟩⟩
  have hloop := ensures_forEach (P := Offers) (f := publishEvent)
    (Q := fun h' _ => Attends h') (fun left h' => ⟨.listUnprocessed 50, .ok events⟩ ∈ h' ∧
      left ⊆ events ∧ ∀ event ∈ events, event ∈ left ∨ Offered h' event) ?_ ?_ events
  · exact hloop _ ⟨List.mem_cons_self, List.Subset.refl _, fun event hevent => .inl hevent⟩
  -- the rows behind are left for the next rounds
  · rintro event left h' ⟨hbatch, hleft, htried⟩
    have hmem : event ∈ events := hleft List.mem_cons_self
    refine (publishEvent_offers ⟨events, hbatch, hmem⟩).grows.mono (fun _ _ hp => hp.1) ?_
    rintro h'' (e | _) ⟨hround, hs⟩
    · refine ⟨_, hs.subset hbatch, fun _ _ => .inr hround⟩
    · refine ⟨hs.subset hbatch, fun x hx => hleft (List.mem_cons_of_mem _ hx), fun x hx => ?_⟩
      rcases htried x hx with hx | hx
      · rcases List.mem_cons.mp hx with rfl | hx
        · exact .inr hround
        · exact .inl hx
      · exact .inr (hx.mono hs)
  · rintro h' ⟨hbatch, -, htried⟩
    refine ⟨_, hbatch, fun events' heq => .inl fun event hevent => ?_⟩
    cases heq
    exact (htried event hevent).resolve_left List.not_mem_nil

theorem only_handleEntry_offers (entry : StreamEntry) :
    Only (fun o => o.publishes = false) (handleEntry cfg entry) := by
  have hdispatched : ∀ o : Op, o.dispatched = true → o.publishes = false := by
    intro o ho
    cases o <;> first | rfl | cases ho
  unfold handleEntry
  split_ifs
  · exact .call rfl
  refine .bind (.call rfl) fun started => ?_
  split_ifs
  swap
  · exact .call rfl
  refine .bind (.attempt (only_dispatching hdispatched _ _ _ _ _ _)) fun result =>
    .bind (.call rfl) fun _ => ?_
  cases result with
  | ok _ => exact .pure _
  | error e => exact .throw _

theorem only_retryRecord_offers (record : EventConsumptionRecord) :
    Only (fun o => o.publishes = false) (retryRecord cfg record) := by
  have hdispatched : ∀ o : Op, o.dispatched = true → o.publishes = false := by
    intro o ho
    cases o <;> first | rfl | cases ho
  refine .bind (.call rfl) fun started => ?_
  split_ifs
  swap
  · exact .pure _
  refine .bind (.call rfl) fun found => ?_
  cases found with
  | none => exact .bind (.bind (.call rfl) fun _ => .pure _) fun _ => .call rfl
  | some event => exact only_dispatching hdispatched _ _ _ _ _ _

theorem tick_offers (claimCursor : Nat) :
    Ensures Offers (fun h _ => Attends h) (tick cfg claimCursor) [] := by
  have hthroughout : Throughout Offers (tick cfg claimCursor) :=
    tick_throughout (fun h => (publishOnce_offers h).mono (fun _ _ hp => hp) fun _ _ _ => trivial)
      (fun _ _ _ => trivial) (fun _ _ => trivial)
      (fun e _ _ => ((only_handleEntry_offers e).throughout fun _ _ => offers_of_ne) _)
      (fun _ _ _ => trivial)
      (fun record => (only_retryRecord_offers record).throughout fun _ _ => offers_of_ne) claimCursor
  have hattends : Ensures (fun _ _ => True) (fun h _ => Attends h) (tick cfg claimCursor) [] := by
    unfold tick
    rw [ensures_bind]
    refine (publishOnce_offers []).mono (fun _ _ _ => trivial) ?_
    rintro h (e | _) hattends
    · exact hattends
    dsimp only
    split_ifs
    · exact hattends
    · exact ((Throughout.any _) h).grows.mono (fun _ _ _ => trivial)
        fun _ _ hq => hattends.mono hq.2
  exact ((hthroughout []).and hattends).mono (fun _ _ hp => hp.1) fun _ _ hq => hq.2

end

/-- Every call of a job is made as a tick makes it, and a tick attends to its batch. -/
theorem body_offers (j : Job) :
    Follows (fun h o => j.Takes h o ∧ Offers h o)
      (fun h _ => ∀ cfg claimCursor, j = .tick cfg claimCursor → Attends h) j.body [] := by
  by_cases hj : ∃ cfg claimCursor, j = .tick cfg claimCursor
  · obtain ⟨cfg, claimCursor, rfl⟩ := hj
    refine ((body_takes _).and (toEnd_follows (tick_offers claimCursor))).mono
      (fun _ _ hp => hp) ?_
    exact fun _ _ hq _ _ _ => hq.2
  · refine (body_takes j).mono (fun h o hp => ⟨hp, ?_⟩)
      fun _ _ _ cfg claimCursor heq => absurd ⟨cfg, claimCursor, heq⟩ hj
    have hidle : ∀ ho : o.worker = true, False := fun ho => by
      obtain ⟨cfg, claimCursor, heq, -⟩ := Job.tick_of_worker hp.1 ho
      exact hj ⟨cfg, claimCursor, heq⟩
    cases o with
    | listUnprocessed _ | xAdd _ => exact (hidle rfl).elim
    | _ => trivial

/-! ## The outbox from one call to the next -/

section

variable {o : Op} {c : Outcome} {m m' : Store} {r : Reply o} {t : Trace Op Reply} {pid : Nat}
  {j : Job}

/-- A row of the outbox was there before, or has just been inserted. -/
theorem row_exec (hx : exec o c m = some (r, m')) {row : OutboxEvent} (hrow : row ∈ m'.outbox) :
    (∃ old ∈ m.outbox, old.Later row) ∨
      ∃ event, m'.contents = m.contents ++ [event] ∧ row.content = event := by
  obtain ⟨i, hi⟩ := List.mem_iff_getElem?.mp hrow
  cases hold : m.outbox[i]? with
  | some old =>
      obtain ⟨row', hrow', hlater⟩ := outbox_later hx hold
      cases hi.symm.trans hrow'
      exact .inl ⟨old, List.mem_of_getElem? hold, hlater⟩
  | none =>
      have hlong := List.getElem?_eq_none_iff.mp hold
      have hcontent : m'.contents[i]? = some row.content := by
        rw [Store.contents, List.getElem?_map, hi]
        rfl
      rcases contents_exec hx with heq | ⟨event, -, heq⟩
      · rw [heq, List.getElem?_eq_none (by rwa [Store.contents, List.length_map])] at hcontent
        cases hcontent
      · refine .inr ⟨event.content, heq, ?_⟩
        rw [heq, List.getElem?_append_right (by rwa [Store.contents, List.length_map])] at hcontent
        exact List.mem_singleton.mp (List.mem_of_getElem? hcontent)

/-- Only the call that marks it makes a row processed. -/
theorem marked_of_processed (hx : exec o c m = some (r, m')) {i : Nat} {row row' : OutboxEvent}
    (hrow : m.outbox[i]? = some row) (hwaits : row.processedAt = none)
    (hrow' : m'.outbox[i]? = some row') (hprocessed : row'.processedAt.isSome = true) :
    o = .markEventProcessed row.id := by
  have same (heq : m'.outbox = m.outbox) : False := by
    rw [heq, hrow] at hrow'
    cases hrow'
    rw [hwaits] at hprocessed
    cases hprocessed
  rcases exec_cases hx with ⟨-, rfl, -⟩ | ⟨-, v, hp, -⟩
  · exact (same rfl).elim
  cases o with
  | insertEvent event =>
      cases hp
      rw [Store.insertEvent, List.getElem?_append_left (List.getElem?_eq_some_iff.mp hrow).1,
        hrow] at hrow'
      cases hrow'
      rw [hwaits] at hprocessed
      cases hprocessed
  | markEventProcessed id =>
      cases hp
      rw [Store.markEventProcessed, updateWhere, List.getElem?_map, hrow] at hrow'
      cases hrow'
      dsimp only at hprocessed
      split_ifs at hprocessed with hdue
      · rw [Bool.and_eq_true, decide_eq_true_eq] at hdue
        rw [hdue.1]
      · rw [hwaits] at hprocessed
        cases hprocessed
  | markEventFailed id error =>
      cases hp
      rw [Store.markEventFailed, updateWhere, List.getElem?_map, hrow] at hrow'
      cases hrow'
      dsimp only at hprocessed
      split_ifs at hprocessed <;> (rw [hwaits] at hprocessed; cases hprocessed)
  | _ => exact (same ((perform_frame hp).outbox (by simp) (by simp) (by simp))).elim

end

/-! ## Runs in which Redis refuses some events -/

/-- Redis takes an event unless it is `refused`, and the publisher can read and mark its rows. -/
def Obeys (refused : String → Bool) (_ : Store) (_ : Trace Op Reply) (_ : Nat) (o : Op)
    (c : Outcome) : Prop :=
  match o with
  | .xAdd event => c.fault = .none ↔ refused event.id = false
  | .listUnprocessed _ => c.fault = .none
  | .markEventProcessed _ => c.fault = .none
  | .markEventFailed _ _ => c.fault = .none
  | _ => True

instance (refused : String → Bool) (m : Store) (t : Trace Op Reply) (pid : Nat) (o : Op)
    (c : Outcome) : Decidable (Obeys refused m t pid o c) := by
  cases o <;> unfold Obeys <;> infer_instance

/-- All jobs, and crashes at any time. -/
abbrev refusing (refused : String → Bool) : Regime Op Reply Job Outcome Store :=
  ⟨fun _ => True, Obeys refused, True⟩

/-- What the publisher's calls have come to. -/
structure Served (refused : String → Bool) (m : Store) (t : Trace Op Reply) : Prop where
  traceable : Traceable m t
  taken : ∀ pid event, ⟨pid, .xAdd event, .ok ()⟩ ∈ t → refused event.id = false
  accepted : ∀ pid event e, ⟨pid, .xAdd event, .error e⟩ ∈ t → refused event.id = true
  listed : ∀ pid limit e, ⟨pid, .listUnprocessed limit, .error e⟩ ∉ t
  recorded : ∀ pid id error e, ⟨pid, .markEventFailed id error, .error e⟩ ∉ t
  marked : ∀ pid id r, ⟨pid, .markEventProcessed id, r⟩ ∈ t → (∃ content ∈ m.contents, content.id = id) ∧
    ∀ row ∈ m.outbox, row.id = id → row.processedAt.isSome = true

section

variable {refused : String → Bool} {o : Op} {c : Outcome} {m m' : Store} {r : Reply o}
  {t : Trace Op Reply} {pid : Nat} {j : Job}

/-- A row that was marked stays processed, and no other gets its id. -/
theorem Served.marked_call (h : Served refused m t) (ht : Traced m' (⟨pid, o, r⟩ :: t))
    (hc : j.Calls (own pid t) o) (hcalm : ∀ id, o = .markEventProcessed id → c.fault = .none)
    (hx : exec o c m = some (r, m')) (pid' : Nat) (id : String) (r' : Reply (.markEventProcessed id))
    (hmem : ⟨pid', .markEventProcessed id, r'⟩ ∈ (⟨pid, o, r⟩ :: t : Trace Op Reply)) :
    (∃ content ∈ m'.contents, content.id = id) ∧
      ∀ row ∈ m'.outbox, row.id = id → row.processedAt.isSome = true := by
  rcases List.mem_cons.mp hmem with heq | hmem
  · cases heq
    obtain ⟨event, hid, hadded⟩ := appended_of_justAdded (Job.processes hc)
    refine ⟨⟨event.content, contents_mono hx
      (h.traceable.traced.read _ (mem_own.mp hadded) event List.mem_cons_self), hid⟩, ?_⟩
    intro row hrow hrowId
    obtain ⟨v, hp, -⟩ := exec_calm hx (hcalm id rfl)
    cases hp
    obtain ⟨old, hold, rfl⟩ := List.mem_map.mp hrow
    dsimp only at hrowId ⊢
    split_ifs at hrowId ⊢ with hdue
    · rfl
    · rw [Bool.and_eq_true, decide_eq_true_eq, not_and] at hdue
      simpa [Option.isSome_iff_ne_none] using hdue hrowId
  · obtain ⟨⟨content, hcontent, hid⟩, hrows⟩ := h.marked pid' id r' hmem
    refine ⟨⟨content, contents_mono hx hcontent, hid⟩, fun row hrow hrowId => ?_⟩
    rcases row_exec hx hrow with ⟨old, hold, hlater⟩ | ⟨event, heq, hrowContent⟩
    · have hprocessed := hrows old hold ((congrArg EventContent.id hlater.content).symm.trans hrowId)
      rwa [hlater.processedAt hprocessed]
    -- the id of an inserted row is a new one
    · have hids := ht.ids
      rw [heq, List.map_append, List.nodup_append] at hids
      refine absurd ?_ (hids.2.2 content.id (List.mem_map_of_mem hcontent) event.id (by simp))
      rw [hid, ← hrowContent, ← hrowId]
      rfl

theorem Served.call (h : Served refused m t) (hc : j.Takes (own pid t) o)
    (hobeys : Obeys refused m t pid o c) (hx : exec o c m = some (r, m')) :
    Served refused m' (⟨pid, o, r⟩ :: t) := by
  have htraced := h.traceable.traced.call h.traceable.identified hc.1 hc.2 hx
  constructor
  · exact ⟨h.traceable.identified.call hc.1 hx, htraced⟩
  · intro pid' event hmem
    rcases List.mem_cons.mp hmem with heq | hmem
    · cases heq
      exact hobeys.mp (fault_of_ok hx)
    · exact h.taken pid' event hmem
  · intro pid' event e hmem
    rcases List.mem_cons.mp hmem with heq | hmem
    · cases heq
      by_contra hno
      obtain ⟨v, -, hv⟩ := exec_calm hx (hobeys.mpr (by simpa using hno))
      cases hv
    · exact h.accepted pid' event e hmem
  · intro pid' limit e hmem
    rcases List.mem_cons.mp hmem with heq | hmem
    · cases heq
      obtain ⟨v, -, hv⟩ := exec_calm hx hobeys
      cases hv
    · exact h.listed pid' limit e hmem
  · intro pid' id error e hmem
    rcases List.mem_cons.mp hmem with heq | hmem
    · cases heq
      obtain ⟨v, -, hv⟩ := exec_calm hx hobeys
      cases hv
    · exact h.recorded pid' id error e hmem
  · exact h.marked_call htraced hc.1 (fun id ho => by subst ho; exact hobeys) hx

end

/-! ## Rows on their way -/

/-- How many unprocessed rows stand before the `i`-th one, of those whose ids satisfy `p`. -/
def Store.ahead (m : Store) (i : Nat) (p : String → Bool) : Nat :=
  Backlog.waiting (fun row => row.processedAt.isNone) (fun row : OutboxEvent => p row.id)
    (m.outbox.take i)

/-- In the schedule, a tick makes its first call and goes on to its end. -/
def Publishes (cfg : Config Op Reply Job Store) (sched : List (Act Job Outcome)) : Prop :=
  ∃ pid settings claimCursor, own pid cfg.trace = [] ∧
    (runSched market cfg sched).jobOf pid = some (.tick settings claimCursor) ∧
    (runSched market cfg sched).Returned pid

/-- One publication after the other, with anything else in between and at the same time. -/
def PublishesInTurn : Config Op Reply Job Store → List (List (Act Job Outcome)) → Prop
  | _, [] => True
  | cfg, sched :: rest => Publishes cfg sched ∧ PublishesInTurn (runSched market cfg sched) rest

section

variable {refused : String → Bool} {m : Store} {S T : List (Act Job Outcome)} {i : Nat}
  {row : OutboxEvent}

theorem served_run (hm : m.Consistent) (meets : Meets market (refusing refused) (.initial m) S) :
    Served refused (runSched market (.initial m) S).state (runSched market (.initial m) S).trace ∧
    Explained (refusing refused) (fun j h o => j.Takes h o ∧ Offers h o)
      (fun j h => ∀ cfg claimCursor, j = .tick cfg claimCursor → Attends h)
      (runSched market (.initial m) S) := by
  refine runSched_rule (R := refusing refused) (fun j _ => body_offers j) ?_ S (.initial m)
    ⟨⟨.initial hm.keys, .initial hm⟩, fun _ _ h => (nomatch h), fun _ _ _ h => (nomatch h),
      fun _ _ _ h => (nomatch h), fun _ _ _ _ h => (nomatch h), fun _ _ _ h => (nomatch h)⟩
    (.initial m) meets
  exact fun m t pid j o c r m' h _ hp hobeys hx => h.call hp.1 hobeys hx

/-- A row stays where it is. -/
theorem row_later (hm : m.Consistent) (S T : List (Act Job Outcome))
    (hrow : (runSched market (.initial m) S).state.outbox[i]? = some row) :
    ∃ row', (runSched market (.initial m) (S ++ T)).state.outbox[i]? = some row' ∧
      row.Later row' := by
  rw [runSched_append]
  exact outbox_later_run (traceable_run m hm S).2 T hrow

theorem before_later (hm : m.Consistent) (S T : List (Act Job Outcome))
    (hrow : (runSched market (.initial m) S).state.outbox[i]? = some row) :
    List.Forall₂ OutboxEvent.Later ((runSched market (.initial m) S).state.outbox.take i)
      ((runSched market (.initial m) (S ++ T)).state.outbox.take i) :=
  Backlog.forall₂_take (fun _ _ ha => row_later hm S T ha)
    (Nat.le_of_lt (List.getElem?_eq_some_iff.mp hrow).1)

/-- What waits later was waiting before. -/
theorem waits_before {p : String → Bool} (a b : OutboxEvent) (hlater : a.Later b)
    (hb : (b.processedAt.isNone && p b.id) = true) : (a.processedAt.isNone && p a.id) = true := by
  rw [Bool.and_eq_true] at hb ⊢
  have hid : b.id = a.id := congrArg EventContent.id hlater.content
  refine ⟨?_, hid ▸ hb.2⟩
  by_contra hno
  have hsome : a.processedAt.isSome = true := by simpa [Option.isSome_iff_ne_none] using hno
  have heq := hlater.processedAt hsome
  rw [← heq] at hsome
  rw [Option.isNone_iff_eq_none.mp hb.1] at hsome
  cases hsome

theorem ahead_le (hm : m.Consistent) (S T : List (Act Job Outcome)) (p : String → Bool)
    (hrow : (runSched market (.initial m) S).state.outbox[i]? = some row) :
    (runSched market (.initial m) (S ++ T)).state.ahead i p ≤
      (runSched market (.initial m) S).state.ahead i p :=
  Backlog.countP_le (before_later hm S T hrow) waits_before

/-- **A refused row stays unprocessed.** -/
theorem refused_stays (hm : m.Consistent)
    (meets : Meets market (refusing refused) (.initial m) (S ++ T))
    (hrow : (runSched market (.initial m) S).state.outbox[i]? = some row)
    (hwaits : row.processedAt = none) (hrefused : refused row.id = true) :
    ∃ row', (runSched market (.initial m) (S ++ T)).state.outbox[i]? = some row' ∧
      row.Later row' ∧ row'.processedAt = none := by
  rw [meets_append] at meets
  obtain ⟨hserved, hexplained⟩ := served_run hm meets.1
  rw [runSched_append]
  refine (runSched_rule (I := fun m t => Served refused m t ∧ ∃ row', m.outbox[i]? = some row' ∧
      row.Later row' ∧ row'.processedAt = none) (R := refusing refused) (fun j _ => body_offers j) ?_ T
    (runSched market (.initial m) S) ⟨hserved, row, hrow, .refl row, hwaits⟩ hexplained meets.2).1.2
  rintro m t pid j o c r m' ⟨hs, row', hrow', hlater, hnone⟩ - ⟨hc, -⟩ hobeys hx
  refine ⟨hs.call hc hobeys hx, ?_⟩
  obtain ⟨row'', hrow'', hnext⟩ := outbox_later hx hrow'
  refine ⟨row'', hrow'', hlater.trans hnext, ?_⟩
  by_contra hprocessed
  -- it would have been marked, and so taken
  have ho := marked_of_processed hx hrow' hnone hrow'' (Option.isSome_iff_ne_none.mpr hprocessed)
  subst ho
  obtain ⟨event, hid, hadded⟩ := appended_of_justAdded (Job.processes hc.1)
  have htaken := hs.taken pid event (mem_own.mp hadded)
  rw [hid, show row'.id = row.id from congrArg EventContent.id hlater.content, hrefused] at htaken
  cases htaken

/-- **The refused rows before a row stay there.** -/
theorem refused_ahead_le (hm : m.Consistent)
    (meets : Meets market (refusing refused) (.initial m) (S ++ T))
    (hrow : (runSched market (.initial m) S).state.outbox[i]? = some row) :
    (runSched market (.initial m) S).state.ahead i refused ≤
      (runSched market (.initial m) (S ++ T)).state.ahead i refused := by
  have hpairs : List.Forall₂ (fun a b => (a.processedAt.isNone && refused a.id) = true →
      (b.processedAt.isNone && refused b.id) = true)
      ((runSched market (.initial m) S).state.outbox.take i)
      ((runSched market (.initial m) (S ++ T)).state.outbox.take i) := by
    refine Backlog.forall₂_take (fun k a ha => ?_)
      (Nat.le_of_lt (List.getElem?_eq_some_iff.mp hrow).1)
    by_cases hwaits : (a.processedAt.isNone && refused a.id) = true
    · rw [Bool.and_eq_true, Option.isNone_iff_eq_none] at hwaits
      obtain ⟨b, hb, hlater, hnone⟩ := refused_stays hm meets ha hwaits.1 hwaits.2
      refine ⟨b, hb, fun _ => ?_⟩
      rw [hnone, show b.id = a.id from congrArg EventContent.id hlater.content, hwaits.2]
      rfl
    · obtain ⟨b, hb, -⟩ := row_later hm S T ha
      exact ⟨b, hb, fun h => absurd h hwaits⟩
  exact Backlog.countP_le hpairs.flip fun _ _ hab => hab

/-! ## One publication -/

/-- Where a row is, the outbox is the rows before it, the row, and the rest. -/
theorem split_at {rows : List OutboxEvent} (hrow : rows[i]? = some row) :
    rows = rows.take i ++ row :: rows.drop (i + 1) := by
  obtain ⟨hlt, heq⟩ := List.getElem?_eq_some_iff.mp hrow
  rw [← heq, List.cons_getElem_drop_succ, List.take_append_drop]

/-- Two rows with one id are one row. -/
theorem index_unique {t : Trace Op Reply} (ht : Traced m t) {k : Nat} {other : OutboxEvent}
    (hrow : m.outbox[i]? = some row) (hother : m.outbox[k]? = some other) (hid : other.id = row.id) :
    k = i := by
  have hids := ht.ids
  rw [Store.contents, List.map_map] at hids
  refine (List.getElem?_inj (by simpa using (List.getElem?_eq_some_iff.mp hother).1) hids).mp ?_
  rw [List.getElem?_map, List.getElem?_map, hrow, hother]
  exact congrArg some hid

/-- What the batch of a publication in `T` comes to. -/
theorem batch_served (hm : m.Consistent)
    (meets : Meets market (refusing refused) (.initial m) (S ++ T))
    (hpublishes : Publishes (runSched market (.initial m) S) T) :
    ∃ done left, T = done ++ left ∧
      ∀ event ∈ (runSched market (.initial m) (S ++ done)).state.listUnprocessed 50,
        refused event.id = false →
        ∀ row ∈ (runSched market (.initial m) (S ++ T)).state.outbox, row.id = event.id →
          row.processedAt.isSome = true := by
  obtain ⟨pid, settings, claimCursor, hnone, hjob, hreturned⟩ := hpublishes
  rw [← runSched_append] at hjob hreturned
  obtain ⟨hserved, hexplained⟩ := served_run hm meets
  obtain ⟨r, hread, hall⟩ := hexplained.ends hreturned hjob settings claimCursor rfl
  cases r with
  | error e => exact absurd (mem_own.mp hread) (hserved.listed pid 50 e)
  | ok events =>
      rw [runSched_append] at hread
      rcases prefix_of_call T _ (mem_own.mp hread) with hold | ⟨done, left, c, s', rfl, hx⟩
      · have : (⟨.listUnprocessed 50, .ok events⟩ : Done Op Reply) ∈
            own pid (runSched market (.initial m) S).trace := mem_own.mpr hold
        rw [hnone] at this
        cases this
      refine ⟨done, left, rfl, fun event hevent hwilling row hrow hid => ?_⟩
      rw [runSched_append] at hevent
      have hevents := exec_ok hx
      cases hevents
      rcases hall _ rfl with hoffered | ⟨id, error, e, hfailed⟩
      · obtain ⟨r', hadd, hmark⟩ := hoffered event hevent
        cases r' with
        | error e =>
            rw [hserved.accepted pid event e (mem_own.mp hadd)] at hwilling
            cases hwilling
        | ok u =>
            obtain ⟨r'', hmarked⟩ := hmark rfl
            exact (hserved.marked pid event.id r'' (mem_own.mp hmarked)).2 row hrow hid
      · exact absurd (mem_own.mp hfailed) (hserved.recorded pid id error e)

/-- **A publication ships the row, or one before it**, unless the refused rows before it fill the
batch. -/
theorem publication_progress (hm : m.Consistent)
    (meets : Meets market (refusing refused) (.initial m) (S ++ T))
    (hpublishes : Publishes (runSched market (.initial m) S) T)
    (hrow : (runSched market (.initial m) S).state.outbox[i]? = some row)
    (hwilling : refused row.id = false)
    (hfew : (runSched market (.initial m) S).state.ahead i refused < 50) :
    (∃ row', (runSched market (.initial m) (S ++ T)).state.outbox[i]? = some row' ∧
      row'.processedAt.isSome = true) ∨
    (runSched market (.initial m) (S ++ T)).state.ahead i (fun id => !refused id) <
      (runSched market (.initial m) S).state.ahead i (fun id => !refused id) := by
  obtain ⟨done, left, rfl, hserved⟩ := batch_served hm meets hpublishes
  rw [← List.append_assoc] at hserved ⊢
  obtain ⟨mid, hmid, hmidLater⟩ := row_later hm S done hrow
  obtain ⟨final, hfinal, hlater⟩ := row_later hm (S ++ done) left hmid
  cases hwaits : mid.processedAt with
  | some processedAt =>
      have hsome : mid.processedAt.isSome = true := by rw [hwaits]; rfl
      exact .inl ⟨final, hfinal, by rw [hlater.processedAt hsome]; exact hsome⟩
  | none =>
      have hbatch := @Backlog.served_or_ahead _ (fun row : OutboxEvent => row.processedAt.isNone) 50 _
        ((runSched market (.initial m) (S ++ done)).state.outbox.drop (i + 1)) mid
        (by simp [hwaits]) (fun row => refused row.id)
        (Nat.lt_of_le_of_lt (ahead_le hm S done refused hrow) hfew)
      rw [← split_at hmid] at hbatch
      rcases hbatch with hmem | ⟨y, hbefore, hmem, hy⟩
      · refine .inl ⟨final, hfinal, hserved mid hmem ?_ final (List.mem_of_getElem? hfinal) ?_⟩
        · rwa [show mid.id = row.id from congrArg EventContent.id hmidLater.content]
        · exact congrArg EventContent.id hlater.content
      · right
        obtain ⟨k, hk⟩ := List.mem_iff_getElem?.mp hbefore
        rw [List.getElem?_take] at hk
        split_ifs at hk with hki
        obtain ⟨y', hy', hyLater⟩ := row_later hm (S ++ done) left hk
        have hprocessed := hserved y hmem hy y' (List.mem_of_getElem? hy')
          (congrArg EventContent.id hyLater.content)
        refine Nat.lt_of_lt_of_le ?_ (ahead_le hm S done (fun id => !refused id) hrow)
        refine @Backlog.countP_lt _ _ _ _ _ (before_later hm (S ++ done) left hmid) waits_before k y y'
          (by rwa [List.getElem?_take, if_pos hki]) (by rwa [List.getElem?_take, if_pos hki]) ?_ ?_
        · have hyWaits := Backlog.waits_of_mem_batch hmem
          simp only [hyWaits, hy, Bool.not_false, Bool.and_self]
        · rw [Option.isSome_iff_ne_none, ne_eq, ← Option.isNone_iff_eq_none,
            Bool.not_eq_true] at hprocessed
          simp only [hprocessed, Bool.false_and]

/-- **The row gets its turn** within as many publications as rows before it are not refused, and
one. -/
theorem reached_in_turn (hm : m.Consistent) (rounds : List (List (Act Job Outcome))) :
    ∀ (S : List (Act Job Outcome)) (row : OutboxEvent),
      Meets market (refusing refused) (.initial m) (S ++ rounds.flatten) →
      (runSched market (.initial m) S).state.outbox[i]? = some row → refused row.id = false →
      (runSched market (.initial m) S).state.ahead i refused < 50 →
      PublishesInTurn (runSched market (.initial m) S) rounds →
      (runSched market (.initial m) S).state.ahead i (fun id => !refused id) < rounds.length →
      ∃ row', (runSched market (.initial m) (S ++ rounds.flatten)).state.outbox[i]? = some row' ∧
        row'.processedAt.isSome = true := by
  induction rounds with
  | nil => exact fun _ _ _ _ _ _ _ hlt => absurd hlt (Nat.not_lt_zero _)
  | cons T rounds ih =>
      rintro S row meets hrow hwilling hfew ⟨hpublishes, hrest⟩ hlt
      rw [List.flatten_cons, ← List.append_assoc] at meets ⊢
      have meetsT := ((meets_append _ _ _).mp meets).1
      rcases publication_progress hm meetsT hpublishes hrow hwilling hfew with
        ⟨row', hrow', hprocessed⟩ | hless
      · obtain ⟨row'', hrow'', hlater⟩ := row_later hm (S ++ T) rounds.flatten hrow'
        exact ⟨row'', hrow'', by rw [hlater.processedAt hprocessed]; exact hprocessed⟩
      · obtain ⟨row', hrow', hlater⟩ := row_later hm S T hrow
        have hid : row'.id = row.id := congrArg EventContent.id hlater.content
        rw [← runSched_append] at hrest
        refine ih (S ++ T) row' meets hrow' (hid ▸ hwilling)
          (Nat.lt_of_le_of_lt (ahead_le hm S T refused hrow) hfew) hrest ?_
        rw [List.length_cons] at hlt
        omega

/-- A row that became processed was taken by Redis. -/
theorem appended_since (hm : m.Consistent) (S T : List (Act Job Outcome))
    (hrow : (runSched market (.initial m) S).state.outbox[i]? = some row)
    (hwaits : row.processedAt = none) :
    ∃ row', (runSched market (.initial m) (S ++ T)).state.outbox[i]? = some row' ∧ row.Later row' ∧
      (row'.processedAt.isSome = true →
        Appended (runSched market (.initial m) (S ++ T)).trace row) := by
  obtain ⟨htraceable, hexplained⟩ := traceable_run m hm S
  rw [runSched_append]
  refine (runSched_rule (I := fun m t => Traceable m t ∧ ∃ row', m.outbox[i]? = some row' ∧
      row.Later row' ∧ (row'.processedAt.isSome = true → Appended t row)) (R := .any)
    (fun j _ => body_takes j) ?_ T (runSched market (.initial m) S)
    ⟨htraceable, row, hrow, .refl row, fun h => by rw [hwaits] at h; cases h⟩ hexplained
    (meets_any market T _)).1.2
  rintro m t pid j o c r m' ⟨⟨hi, ht⟩, row', hrow', hlater, hadded⟩ - ⟨hc, htaken⟩ - hx
  refine ⟨⟨hi.call hc hx, ht.call hi hc htaken hx⟩, ?_⟩
  obtain ⟨row'', hrow'', hnext⟩ := outbox_later hx hrow'
  refine ⟨row'', hrow'', hlater.trans hnext, fun hprocessed => ?_⟩
  cases hbefore : row'.processedAt with
  | some processedAt =>
      obtain ⟨call, hcall, hevent⟩ := hadded (by rw [hbefore]; rfl)
      exact ⟨call, List.mem_cons_of_mem _ hcall, hevent⟩
  | none =>
      have ho := marked_of_processed hx hrow' hbefore hrow'' hprocessed
      subst ho
      obtain ⟨event, hid, hmem⟩ := appended_of_justAdded (Job.processes hc)
      have hcall := mem_own.mp hmem
      refine ⟨_, List.mem_cons_of_mem _ hcall, event, rfl, ?_⟩
      have hcontent := ht.read _ hcall event List.mem_cons_self
      have hrowContent : row'.content ∈ m.contents :=
        List.mem_map_of_mem (List.mem_of_getElem? hrow')
      exact (List.inj_on_of_nodup_map ht.ids hcontent hrowContent hid).trans hlater.content

/-- **The row is never offered** while the refused rows before it fill a batch. -/
theorem never_offered (hm : m.Consistent)
    (meets : Meets market (refusing refused) (.initial m) (S ++ T))
    (hrow : (runSched market (.initial m) S).state.outbox[i]? = some row)
    (hfull : 50 ≤ (runSched market (.initial m) S).state.ahead i refused) {pid : Nat}
    {event : OutboxEvent} {r : Reply (.xAdd event)}
    (hcall : ⟨pid, .xAdd event, r⟩ ∈ (runSched market (.initial m) (S ++ T)).trace) :
    event.id ≠ row.id := by
  intro hid
  have hcalls := runSched_explained m (S ++ T) meets fun j _ => body_offers j
  obtain ⟨newer, earlier, ht⟩ := List.append_of_mem hcall
  obtain ⟨j, -, -, -, events, hread, hevent⟩ := hcalls.at ⟨newer, ht.symm⟩
  have hlisted : ⟨pid, .listUnprocessed 50, .ok events⟩ ∈
      (runSched market (.initial m) (S ++ T)).trace := by
    rw [ht]
    exact List.mem_append_right _ (List.mem_cons_of_mem _ (mem_own.mp hread))
  rcases prefix_of_call (S ++ T) _ hlisted with hold | ⟨done, left, c, s', heq, hx⟩
  · cases hold
  have hevents := exec_ok hx
  cases hevents
  -- the event is the row, where the row was when the batch was read
  have hmem : event ∈ (runSched market (.initial m) done).state.outbox :=
    Backlog.mem_of_mem_batch hevent
  obtain ⟨k, hk⟩ := List.mem_iff_getElem?.mp hmem
  obtain ⟨last, hlast, hlastLater⟩ := row_later hm done left hk
  obtain ⟨final, hfinal, hlater⟩ := row_later hm S T hrow
  rw [← heq] at hlast
  have htraced := (traceable_run m hm (S ++ T)).1.traced
  obtain rfl : k = i := index_unique htraced hfinal hlast
    (((congrArg EventContent.id hlastLater.content).trans hid).trans
      (congrArg EventContent.id hlater.content).symm)
  have hahead : 50 ≤ (runSched market (.initial m) done).state.ahead k refused := by
    rcases List.append_eq_append_iff.mp heq with ⟨rest, rfl, rfl⟩ | ⟨rest, rfl, rfl⟩
    · rw [← List.append_assoc] at meets
      exact hfull.trans (refused_ahead_le hm ((meets_append _ _ _).mp meets).1 hrow)
    · exact hfull.trans (ahead_le hm done rest refused hk)
  rw [Store.listUnprocessed, split_at hk] at hevent
  have hbefore := Backlog.not_mem_batch hahead hevent
  obtain ⟨k', hk'⟩ := List.mem_iff_getElem?.mp hbefore
  rw [List.getElem?_take] at hk'
  split_ifs at hk' with hlt
  exact absurd (index_unique (traceable_run m hm done).1.traced hk hk' rfl) (Nat.ne_of_lt hlt)

end

/-- **Which rows are published**, in any run in which Redis refuses some events for good and the
publisher can use its table. A row that is not refused gets its turn after as many publications as
such rows stand before it and one, if fewer than 50 refused ones do; otherwise it is never offered
and stays unprocessed. -/
theorem published_unless_blocked (m : Store) (hm : m.Consistent) (refused : String → Bool)
    (sched : List (Act Job Outcome)) (rounds : List (List (Act Job Outcome)))
    (meets : Meets market (refusing refused) (.initial m) (sched ++ rounds.flatten))
    (i : Nat) (row : OutboxEvent)
    (hrow : (runSched market (.initial m) sched).state.outbox[i]? = some row)
    (hwaits : row.processedAt = none) (hwilling : refused row.id = false) :
    let cfg := runSched market (.initial m) sched
    let later := runSched market cfg rounds.flatten
    (cfg.state.ahead i refused < 50 → PublishesInTurn cfg rounds →
      cfg.state.ahead i (fun id => !refused id) < rounds.length →
      Appended later.trace row ∧ ∃ row', later.state.outbox[i]? = some row' ∧ row.Later row' ∧
        row'.processedAt.isSome = true) ∧
    (50 ≤ cfg.state.ahead i refused →
      (∀ pid event r, ⟨pid, .xAdd event, r⟩ ∈ later.trace → event.id ≠ row.id) ∧
      ∃ row', later.state.outbox[i]? = some row' ∧ row.Later row' ∧ row'.processedAt = none) := by
  intro cfg later
  have hlaterEq : later = runSched market (.initial m) (sched ++ rounds.flatten) :=
    (runSched_append _ _ _).symm
  rw [hlaterEq]
  obtain ⟨row', hrow', hlater, hadded⟩ := appended_since hm sched rounds.flatten hrow hwaits
  constructor
  · intro hfew hturns hlt
    obtain ⟨row'', hrow'', hprocessed⟩ :=
      reached_in_turn hm rounds sched row meets hrow hwilling hfew hturns hlt
    cases hrow'.symm.trans hrow''
    exact ⟨hadded hprocessed, row', hrow', hlater, hprocessed⟩
  · intro hfull
    refine ⟨fun pid event r hcall => never_offered hm meets hrow hfull hcall,
      row', hrow', hlater, ?_⟩
    by_contra hno
    obtain ⟨call, hcall, event, hdone, hcontent⟩ := hadded (Option.isSome_iff_ne_none.mpr hno)
    obtain ⟨pid, o, r⟩ := call
    cases hdone
    exact never_offered hm meets hrow hfull hcall (congrArg EventContent.id hcontent)

/-- Two tasks are created; Redis will refuse the event of the first one. -/
def createsTwo : List (Act Job Outcome) :=
  [.spawn (.createPaid {} (.ok ⟨"R", "1", "work", 10, ""⟩)), .run 0 { text := "t" }, goes 0, goes 0,
    .run 0 { text := "p" }, goes 0,
    .spawn (.createPaid {} (.ok ⟨"R", "2", "work", 10, ""⟩)), .run 1 { text := "u" }, goes 1, goes 1,
    .run 1 { text := "e" }, goes 1]

/-- A tick of a paused worker. -/
def publishesSecond : List (Act Job Outcome) :=
  [.spawn (.tick { pauseWorkerConsumption := true } 0), goes 2,
    .run 2 { fault := .refused (.other "ERR") }, goes 2, goes 2, goes 2]

theorem second_row_published :
    let later := runSched market (runSched market (.initial emptyStore) createsTwo)
      [publishesSecond].flatten
    later.state.outbox.map (fun row => (row.id, row.processedAt)) = [("p", none), ("e", some 0)] ∧
    ∃ row : OutboxEvent, row.id = "e" ∧ Appended later.trace row := by
  have hsome :
      ((runSched market (.initial emptyStore) createsTwo).state.outbox[1]?).isSome = true := by
    decide +kernel
  have hreached := (published_unless_blocked emptyStore emptyStore_consistent (fun id => id = "p")
    createsTwo [publishesSecond] (by decide +kernel) 1 (Option.get _ hsome) (Option.some_get hsome).symm
    (by decide +kernel +revert) (by decide +kernel +revert)).1 (by decide +kernel)
    ⟨⟨2, { pauseWorkerConsumption := true }, 0, rfl, rfl, ⟨_, rfl⟩⟩, trivial⟩ (by decide +kernel)
  exact ⟨by decide +kernel, _, by clear hreached; decide +kernel +revert, hreached.1⟩

end TrustGate.Market
