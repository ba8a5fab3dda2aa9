import TrustGate.Market.Stranded
import TrustGate.Market.Ticks
import TrustGate.Market.Wire

set_option autoImplicit false

/-! # No event is lost on its way to a handler

An event goes from the outbox into the stream, is delivered to a worker of the group, and is
acknowledged there. A worker acknowledges an entry whatever has become of it, but not before it has
started the handler or was told that somebody had. So every entry of the stream is ahead of the
group, or pending, or its handling is on record, through any crashes and lost replies
(`Store.Accounted`). -/

namespace TrustGate.Market

open Resumption

/-! ## Acknowledging -/

/-- The handling of the entry has begun, or there is nothing to handle. -/
def Store.Begun (m : Store) (e : StreamEntry) : Prop := e.id = "" ∨ e.type = "" ∨ m.Tried e.key

/-- Every entry of the stream awaits the group, or its handling has begun. -/
def Store.Accounted (m : Store) : Prop :=
  ∀ e ∈ m.stream.entries, m.stream.Awaits e ∨ m.Begun e

/-- The process was told whether it may start the handler of the entry. -/
def Asks (h : Hist) (e : StreamEntry) : Prop :=
  ∃ args started, ⟨.tryStart args, .ok started⟩ ∈ h ∧ args.key = e.key

/-- The entry was delivered to the process. -/
def Given (h : Hist) (e : StreamEntry) : Prop := ∃ d ∈ h, e ∈ entriesRead d

/-- The caller was told of a failure. -/
def failed (d : Done Op Reply) : Bool :=
  match d.reply with
  | .ok _ => false
  | .error _ => true

/-- What the call has put on record the end of. -/
def markOf (d : Done Op Reply) : Option (String × String) :=
  match d with
  | ⟨.markSucceeded handlerName eventId, .ok ()⟩ => some (handlerName, eventId)
  | ⟨.markFailed handlerName eventId _ _, .ok ()⟩ => some (handlerName, eventId)
  | _ => none

/-- The call asks whether `x` may be started. -/
def Op.asksFor (x : String × String) : Op → Bool
  | .tryStart args => args.key = x
  | _ => false

/-- The dispatch of `x` has come to its end: with a mark, unless it was not begun at all or
something failed. -/
def Concluded (x : String × String) (h : Hist) : Prop :=
  ∃ d h', h = d :: h' ∧ (failed d = true ∨ d.op.asksFor x = true ∨ markOf d = some x)

/-- How a worker serves the entries that are delivered to it: it starts their handlers, and
acknowledges an entry when it has seen to it. -/
def Serves (h : Hist) : Op → Prop
  | .tryStart args => ∀ entryId ∈ args.streamEntryId, ∃ e, Given h e ∧ e.entryId = entryId ∧
      args.key = e.key
  | .xAck entryId => ∃ e, Given h e ∧ e.entryId = entryId ∧
      (e.id = "" ∨ e.type = "" ∨ Asks h e ∧ Concluded e.key h)
  | _ => True

def Op.serves : Op → Bool
  | .tryStart _ => true
  | .xAck _ => true
  | _ => false

theorem serves_of_ne {h : Hist} {o : Op} (ho : o.serves = false) : Serves h o := by
  cases o with
  | tryStart _ => cases ho
  | xAck _ => cases ho
  | _ => trivial

theorem Asks.mono {h h' : Hist} {e : StreamEntry} (hs : h <:+ h') (ha : Asks h e) : Asks h' e := by
  obtain ⟨args, started, hmem, hkey⟩ := ha
  exact ⟨args, started, hs.subset hmem, hkey⟩

theorem Given.mono {h h' : Hist} {e : StreamEntry} (hs : h <:+ h') (hg : Given h e) :
    Given h' e := by
  obtain ⟨d, hd, he⟩ := hg
  exact ⟨d, hs.subset hd, he⟩

section

variable {cfg : Settings}

theorem serves_of_dispatched {h : Hist} {o : Op} (ho : o.dispatched = true) : Serves h o :=
  serves_of_ne (by cases o <;> first | rfl | cases ho)

/-- Marking a dispatch as failed concludes it. -/
theorem failDispatch_concludes (handlerName eventId error : String) (attempts : Nat) (h : Hist) :
    Ensures Serves (fun h _ => Concluded (handlerName, eventId) h) (do
      let nextRetryAt ← computeBackoff attempts
      await (.markFailed handlerName eventId error nextRetryAt)) h := by
  unfold computeBackoff
  rw [ensures_bind, ensures_call_bind]
  refine ⟨trivial, fun now => ⟨trivial, ?_⟩, fun e => ⟨_, h, rfl, .inl rfl⟩⟩
  rintro (e | _)
  · exact ⟨_, _, rfl, .inl rfl⟩
  · exact ⟨_, _, rfl, .inr (.inr rfl)⟩

/-- A dispatch ends with a mark, or with a call that failed. -/
theorem dispatchStarted_concludes (handlerName consumedId eventId type : String) (payload : Json)
    (attempts : Nat) (h : Hist) : Ensures Serves (fun h _ => Concluded (handlerName, consumedId) h)
      (dispatchStarted cfg handlerName consumedId eventId type payload attempts) h := by
  have hdispatch : Throughout Serves (dispatch cfg eventId type payload) :=
    (only_dispatch (fun _ ho => ho) eventId type payload).throughout fun _ _ => serves_of_dispatched
  unfold dispatchStarted
  rw [ensures_attempt_bind, ensures_bind]
  refine (hdispatch h).mono (fun _ _ hp => hp) ?_
  rintro h (e | _) -
  · exact failDispatch_concludes _ _ _ _ h
  -- a mark of success that fails is followed by one of failure
  · refine ⟨trivial, ?_⟩
    rintro (e | _)
    · exact failDispatch_concludes _ _ _ _ _
    · exact ⟨_, h, rfl, .inr (.inr rfl)⟩

theorem handleEntry_serves {e : StreamEntry} {h : Hist} (hgiven : Given h e) :
    Ensures Serves (fun _ _ => True) (handleEntry cfg e) h := by
  unfold handleEntry
  split_ifs with hblank
  · refine ⟨⟨e, hgiven, rfl, ?_⟩, fun _ => trivial⟩
    exact hblank.imp_right .inl
  rw [ensures_call_bind]
  refine ⟨?_, ?_, fun _ => trivial⟩
  · rintro _ ⟨⟩
    exact ⟨e, hgiven, rfl, rfl⟩
  intro started
  have hasks : Asks (⟨.tryStart ⟨"event:" ++ e.type, e.id, some e.entryId, cfg.maxAttempts⟩,
      .ok started⟩ :: h) e := ⟨_, started, List.mem_cons_self, rfl⟩
  split_ifs
  swap
  -- refused, so the start is the last call
  · refine ⟨⟨e, hgiven.mono (List.suffix_cons _ _), rfl, .inr (.inr ⟨hasks, ?_⟩)⟩, fun _ => trivial⟩
    exact ⟨_, h, rfl, .inr (.inl (decide_eq_true rfl))⟩
  rw [ensures_attempt_bind]
  refine (dispatchStarted_concludes _ _ _ _ _ _ _).grows.mono (fun _ _ hp => hp.1) ?_
  rintro h' result ⟨hconcluded, hs⟩
  rw [ensures_call_bind]
  refine ⟨⟨e, hgiven.mono ((List.suffix_cons _ _).trans hs), rfl,
    .inr (.inr ⟨hasks.mono hs, hconcluded⟩)⟩, fun _ => ?_, fun _ => trivial⟩
  cases result <;> trivial

/-- A due retry has no entry to serve. -/
theorem retryRecord_serves (record : EventConsumptionRecord) :
    Throughout Serves (retryRecord cfg record) := by
  refine .bind (.call fun _ _ hentry => nomatch hentry) fun started => ?_
  split_ifs
  swap
  · exact .pure _
  refine .bind (.call fun _ => trivial) fun event => ?_
  cases event with
  | none =>
      exact .bind (.bind (.call fun _ => trivial) fun _ => .pure _) fun _ => .call fun _ => trivial
  | some event =>
      exact (only_dispatching (fun _ ho => ho) _ _ _ _ _ _).throughout
        fun _ _ => serves_of_dispatched

theorem tick_serves (claimCursor : Nat) : Throughout Serves (tick cfg claimCursor) := by
  have hpublish : Only (fun o => o.serves = false) publishOnce := by
    refine .bind (.call rfl) fun events => .forEach (fun event => ?_) events
    refine .bind (.attempt (.bind (.call rfl) fun _ => .call rfl)) fun result => ?_
    cases result with
    | ok _ => exact .pure _
    | error e => exact .call rfl
  exact tick_throughout (hpublish.throughout fun _ _ => serves_of_ne) (fun _ _ _ => trivial)
    (fun _ _ => trivial) (fun e h hread => handleEntry_serves hread) (fun _ _ _ => trivial)
    retryRecord_serves claimCursor

end

def Job.Ships (j : Job) (h : Hist) (o : Op) : Prop := j.Takes h o ∧ Serves h o

theorem body_ships (j : Job) : Follows j.Ships (fun h _ => j.Tries h) j.body [] := by
  have hserves : Follows Serves (fun _ _ => True) j.body [] := by
    by_cases hj : ∃ cfg claimCursor, j = .tick cfg claimCursor
    · obtain ⟨cfg, claimCursor, rfl⟩ := hj
      exact toEnd_follows (tick_serves claimCursor [])
    · refine (body_follows j).mono (fun h o hc => serves_of_ne ?_) fun _ _ _ => trivial
      by_contra hserves
      have hworker : o.worker = true := by
        cases o <;> first | rfl | exact absurd rfl hserves
      obtain ⟨cfg, claimCursor, heq, -⟩ := Job.tick_of_worker hc hworker
      exact hj ⟨cfg, claimCursor, heq⟩
  exact ((body_takes j).and hserves).mono (fun _ _ hp => hp) fun _ _ hq => hq.1

/-! ## Copies of entries -/

/-- The entries that are in the stream or were delivered to somebody. -/
def entryCopies (m : Store) (t : Trace Op Reply) : Set StreamEntry :=
  {e | e ∈ m.stream.entries ∨ ∃ c ∈ t, e ∈ entriesRead ⟨c.op, c.reply⟩}

section

variable {o : Op} {c : Outcome} {m m' : Store} {r : Reply o} {t : Trace Op Reply} {pid : Nat}
  {j : Job}

theorem mem_entryCopies_of_own {d : Done Op Reply} {e : StreamEntry} (hd : d ∈ own pid t)
    (he : e ∈ entriesRead d) : e ∈ entryCopies m t :=
  .inr ⟨_, mem_own.mp hd, he⟩

/-- The call adds the entry to the stream. -/
def AddsEntry (m m' : Store) (o : Op) (e : StreamEntry) : Prop :=
  ∃ event, o = .xAdd event ∧ e = m.stream.entryFor event ∧
    m'.stream.lastId = m.stream.lastId + 1

theorem entries_exec (hx : exec o c m = some (r, m')) {e : StreamEntry}
    (he : e ∈ m'.stream.entries) : e ∈ m.stream.entries ∨ AddsEntry m m' o e := by
  cases streamStep hx with
  | same _ stream => exact .inl (stream ▸ he)
  | add event stream =>
      rw [stream, Stream.add_entries] at he
      rcases List.mem_append.mp he with he | he
      · exact .inl (List.mem_of_mem_drop he)
      · refine .inr ⟨event, rfl, List.mem_singleton.mp he, ?_⟩
        rw [stream]
        rfl
  | read consumer count stream =>
      rw [stream] at he
      exact .inl he
  | claim consumer cursor count stream =>
      rw [stream] at he
      exact .inl he
  | ack entryId stream =>
      rw [stream] at he
      exact .inl he

/-- A call brings a copy of an entry into use by adding it, if at all. -/
theorem entryCopies_call (hx : exec o c m = some (r, m')) {e : StreamEntry}
    (he : e ∈ entryCopies m' (⟨pid, o, r⟩ :: t)) : e ∈ entryCopies m t ∨ AddsEntry m m' o e := by
  rcases he with he | ⟨call, hcall, he⟩
  · exact (entries_exec hx he).imp_left .inl
  · rcases List.mem_cons.mp hcall with rfl | hcall
    · exact .inl (.inl (mem_entries_of_entriesRead hx he))
    · exact .inl (.inr ⟨call, hcall, he⟩)

theorem lastId_exec (hx : exec o c m = some (r, m')) : m.stream.lastId ≤ m'.stream.lastId := by
  cases streamStep hx with
  | same _ stream => rw [stream]
  | add event stream =>
      rw [stream]
      exact Nat.le_succ _
  | read consumer count stream => rw [stream]; exact le_rfl
  | claim consumer cursor count stream => rw [stream]; exact le_rfl
  | ack entryId stream => rw [stream]; exact le_rfl

theorem ordered_exec (hx : exec o c m = some (r, m')) (h : m.stream.Ordered) :
    m'.stream.Ordered := by
  cases streamStep hx with
  | same _ stream => rwa [stream]
  | add event stream =>
      rw [stream]
      exact h.add event c.drop
  | read consumer count stream =>
      rw [stream]
      exact (h.readGroup consumer count).1
  | claim consumer cursor count stream =>
      rw [stream]
      exact ⟨h.sorted, h.bounded, h.read⟩
  | ack entryId stream =>
      rw [stream]
      exact ⟨h.sorted, h.bounded, h.read⟩

/-! ## Runs -/

/-- Entries are told apart by their ids, who was answered by `tryStart` has a row, and every entry is
accounted for. -/
structure Accounting (m : Store) (t : Trace Op Reply) : Prop where
  ordered : m.stream.Ordered
  bounded : ∀ e ∈ entryCopies m t, e.entryId ≤ m.stream.lastId
  apart : ∀ a ∈ entryCopies m t, ∀ b ∈ entryCopies m t, a.entryId = b.entryId → a = b
  tried : ∀ pid args started, ⟨pid, .tryStart args, .ok started⟩ ∈ t → m.Tried args.key
  accounted : m.Accounted

theorem Accounting.initial {m : Store} (ordered : m.stream.Ordered) (accounted : m.Accounted) :
    Accounting m [] := by
  have hentry : ∀ e ∈ entryCopies m [], e ∈ m.stream.entries := by
    rintro e (he | ⟨c, hc, -⟩)
    · exact he
    · cases hc
  have hids : (m.stream.entries.map StreamEntry.entryId).Nodup := by
    rw [List.Nodup, List.pairwise_map]
    exact ordered.sorted.imp fun hlt => Nat.ne_of_lt hlt
  constructor
  · exact ordered
  · exact fun e he => ordered.bounded e (hentry e he)
  · exact fun a ha b hb heq => List.inj_on_of_nodup_map hids (hentry a ha) (hentry b hb) heq
  · exact fun _ _ _ hmem => nomatch hmem
  · exact accounted

/-- An answer of `tryStart` leaves a row. -/
theorem tried_of_start {args : StartArgs} {started : Started}
    (hx : exec (.tryStart args) c m = some (.ok started, m')) : m'.Tried args.key := by
  have hm : (m.tryStart args c.now).2 = m' := congrArg Prod.snd (Option.some.inj (exec_ok hx))
  show (m'.row args.key).isSome = true
  rw [← hm]
  rcases m.tryStart_cases args c.now with ⟨hrow, heq⟩ | ⟨row, hrow, -, heq⟩ | ⟨row, hrow, -, heq⟩
  · rw [heq, Store.row_append, hrow, if_pos rfl]
    rfl
  · rw [heq, hrow]
    rfl
  · have hself : args.key = (args.handlerName, args.eventId) := rfl
    rw [heq, Store.row_update, if_pos hself, hrow]
    · rfl
    · exact fun _ => ⟨rfl, rfl⟩

theorem Store.Begun.exec {e : StreamEntry} (hx : exec o c m = some (r, m')) (h : m.Begun e) :
    m'.Begun e :=
  h.imp_right fun h => h.imp_right (rows_exec hx e.key).1

/-- What is acknowledged has been seen to. -/
theorem Accounting.ack (h : Accounting m t) {entryId : Nat}
    (hserves : Serves (own pid t) (.xAck entryId)) {e : StreamEntry} (he : e ∈ m.stream.entries)
    (hid : e.entryId = entryId) : m.Begun e := by
  obtain ⟨e', ⟨d, hd, he'⟩, hid', hbegun⟩ := hserves
  obtain rfl := h.apart e (.inl he) e' (mem_entryCopies_of_own hd he') (hid.trans hid'.symm)
  refine hbegun.imp_right fun hb => hb.imp_right ?_
  rintro ⟨⟨args, started, hmem, hkey⟩, -⟩
  exact hkey ▸ h.tried pid args started (mem_own.mp hmem)

/-- An entry that awaits the group goes on to do so, unless it is acknowledged. -/
theorem Accounting.awaits_call (h : Accounting m t) (hserves : Serves (own pid t) o)
    (hx : exec o c m = some (r, m')) {e : StreamEntry} (he : e ∈ m.stream.entries)
    (hawaits : m.stream.Awaits e) : m'.stream.Awaits e ∨ m'.Begun e := by
  cases streamStep hx with
  | same _ stream =>
      rw [stream]
      exact .inl hawaits
  | add event stream =>
      rw [stream]
      exact .inl hawaits
  | read consumer count stream =>
      rw [stream]
      refine .inl ?_
      rcases hawaits with hahead | hheld
      · rcases Nat.lt_or_ge (m.stream.readGroup consumer count).2.lastDelivered e.entryId with
          hstill | hread
        · exact .inl hstill
        · -- the group has read past the entry, so it was delivered
          have hmem := (h.ordered.readGroup consumer count).2.2 e he hahead hread
          exact .inr ((m.stream.holds_readGroup consumer count _).mpr (.inr ⟨e, hmem, rfl⟩))
      · exact .inr ((m.stream.holds_readGroup consumer count _).mpr (.inl hheld))
  | claim consumer cursor count stream =>
      rw [stream]
      refine .inl (hawaits.imp_right fun hheld => ?_)
      refine (m.stream.holds_autoClaim consumer cursor count c.idle _).mpr ⟨hheld, fun hgone => ?_⟩
      -- only what is not in the stream any more is given up
      have hnone := (List.mem_filter.mp hgone).2
      rw [List.all_eq_true] at hnone
      simpa using hnone e he
  | ack entryId stream =>
      rw [stream]
      rcases hawaits with hahead | hheld
      · exact .inl (.inl hahead)
      · by_cases hid : e.entryId = entryId
        · exact .inr ((h.ack hserves he hid).exec hx)
        · exact .inl (.inr ((m.stream.holds_ack entryId _).mpr ⟨hheld, hid⟩))

/-- **One call.** An entry is no longer pending only when it was acknowledged. -/
theorem Accounting.call (h : Accounting m t) (hserves : Serves (own pid t) o)
    (hx : exec o c m = some (r, m')) : Accounting m' (⟨pid, o, r⟩ :: t) := by
  refine ⟨ordered_exec hx h.ordered, ?_, ?_, ?_, ?_⟩
  · intro e he
    rcases entryCopies_call hx he with hold | ⟨event, -, rfl, hlast⟩
    · exact (h.bounded e hold).trans (lastId_exec hx)
    · rw [hlast]
      exact le_rfl
  · intro a ha b hb heq
    rcases entryCopies_call hx ha with hold | ⟨event, ho, rfl, -⟩ <;>
      rcases entryCopies_call hx hb with hold' | ⟨event', ho', rfl, -⟩
    · exact h.apart a hold b hold' heq
    · exact absurd (heq ▸ h.bounded a hold) (Nat.not_succ_le_self _)
    · exact absurd (heq.symm ▸ h.bounded b hold') (Nat.not_succ_le_self _)
    · cases ho.symm.trans ho'
      rfl
  · intro p args started hmem
    rcases List.mem_cons.mp hmem with heq | hmem
    · cases heq
      exact tried_of_start hx
    · exact (rows_exec hx args.key).1 (h.tried p args started hmem)
  · intro e he
    rcases entries_exec hx he with hold | ⟨event, ho, rfl, -⟩
    · rcases h.accounted e hold with hawaits | hbegun
      · exact h.awaits_call hserves hx hold hawaits
      · exact .inr (hbegun.exec hx)
    · subst ho
      cases streamStep hx with
      | same _ stream =>
          rw [stream] at he
          exact absurd (h.ordered.bounded _ he) (Nat.not_succ_le_self _)
      | add _ stream =>
          refine .inl (.inl ?_)
          rw [stream]
          exact Nat.lt_succ_of_le h.ordered.read

/-! ## Nothing is trimmed -/

/-- Every processed row of the outbox has an entry in the stream that tells the same. -/
def Store.Shipped (m : Store) : Prop :=
  ∀ row ∈ m.outbox, row.processedAt.isSome = true →
    ∃ e ∈ m.stream.entries, e.content = row.content

/-- `XADD` drops nothing: the stream is short, or Redis does not bother. -/
def DropsNothing (m : Store) (_ : Trace Op Reply) (_ : Nat) (o : Op) (c : Outcome) : Prop :=
  match o with
  | .xAdd _ => m.stream.trimmed c.drop = 0
  | _ => True

instance (m : Store) (t : Trace Op Reply) (pid : Nat) (o : Op) (c : Outcome) :
    Decidable (DropsNothing m t pid o c) := by
  apply Op.casesOn (motive := fun o => Decidable (DropsNothing m t pid o c)) o <;> intros <;>
    unfold DropsNothing <;> infer_instance

/-- All jobs, with any faults and crashes, and a stream that keeps its entries. -/
abbrev untrimmed : Regime Op Reply Job Outcome Store := ⟨fun _ => True, DropsNothing, True⟩

theorem stays_exec (hx : exec o c m = some (r, m')) (hdrop : DropsNothing m t pid o c)
    {e : StreamEntry} (he : e ∈ m.stream.entries) : e ∈ m'.stream.entries := by
  cases streamStep hx with
  | same _ stream => rwa [stream]
  | add event stream =>
      have hkept : m.stream.trimmed c.drop = 0 := hdrop
      rw [stream, Stream.add_entries, hkept, List.drop_zero]
      exact List.mem_append_left _ he
  | read consumer count stream =>
      rw [stream]
      exact he
  | claim consumer cursor count stream =>
      rw [stream]
      exact he
  | ack entryId stream =>
      rw [stream]
      exact he

/-- What was added is in the stream, and so is what is processed. -/
structure Shipping (m : Store) (t : Trace Op Reply) : Prop where
  added : ∀ pid event, ⟨pid, .xAdd event, .ok ()⟩ ∈ t →
    ∃ e ∈ m.stream.entries, e.content = event.content
  shipped : m.Shipped

theorem Shipping.call (h : Shipping m t) (ht : Traced m' (⟨pid, o, r⟩ :: t))
    (hc : j.Calls (own pid t) o) (hdrop : DropsNothing m t pid o c)
    (hx : exec o c m = some (r, m')) : Shipping m' (⟨pid, o, r⟩ :: t) := by
  have stays {content : EventContent} (he : ∃ e ∈ m.stream.entries, e.content = content) :
      ∃ e ∈ m'.stream.entries, e.content = content := by
    obtain ⟨e, he, heq⟩ := he
    exact ⟨e, stays_exec hx hdrop he, heq⟩
  constructor
  · intro p event hmem
    rcases List.mem_cons.mp hmem with heq | hmem
    · cases heq
      cases exec_ok hx
      refine ⟨m.stream.entryFor event, ?_, rfl⟩
      show _ ∈ (m.stream.add event c.drop).entries
      rw [Stream.add_entries]
      simp
    · exact stays (h.added p event hmem)
  · intro row hrow hprocessed
    have hid : ∃ e ∈ m'.stream.entries, e.id = row.id := by
      rcases exec_cases hx with ⟨-, rfl, -⟩ | ⟨-, v, hp, -⟩
      · obtain ⟨e, he, heq⟩ := h.shipped row hrow hprocessed
        exact ⟨e, he, congrArg EventContent.id heq⟩
      · rcases processed_perform hp hc hrow hprocessed with ⟨old, hold, hid, hold'⟩ | hadded
        · obtain ⟨e, he, heq⟩ := stays (h.shipped old hold hold')
          exact ⟨e, he, (congrArg EventContent.id heq).trans hid⟩
        · obtain ⟨event, hevent, hmem⟩ := appended_of_justAdded hadded
          obtain ⟨e, he, heq⟩ := stays (h.added pid event (mem_own.mp hmem))
          exact ⟨e, he, (congrArg EventContent.id heq).trans hevent⟩
    -- one row has that id, so the entry tells what the row tells
    obtain ⟨e, he, hsame⟩ := hid
    exact ⟨e, he, List.inj_on_of_nodup_map ht.ids (ht.entries e he) (List.mem_map_of_mem hrow) hsame⟩

end

theorem accounting_run (m : Store) (ordered : m.stream.Ordered) (accounted : m.Accounted)
    (sched : List (Act Job Outcome)) :
    Accounting (runSched market (.initial m) sched).state
      (runSched market (.initial m) sched).trace :=
  (runSched_rule (R := .any) (fun j _ => body_ships j)
    (fun _ _ _ _ _ _ _ _ h _ hs _ hx => h.call hs.2 hx) sched (.initial m)
    (.initial ordered accounted) (.initial m) (meets_any market sched _)).1

theorem shipping_run (m : Store) (hm : m.Consistent) (shipped : m.Shipped)
    (sched : List (Act Job Outcome)) (kept : Meets market untrimmed (.initial m) sched) :
    Shipping (runSched market (.initial m) sched).state
      (runSched market (.initial m) sched).trace := by
  refine (runSched_rule (I := fun m t => Traceable m t ∧ Shipping m t) (R := untrimmed)
    (fun j _ => body_takes j) ?_ sched (.initial m)
    ⟨⟨.initial hm.keys, .initial hm⟩, ⟨fun _ _ hmem => (nomatch hmem), shipped⟩⟩ (.initial m) kept).1.2
  rintro m t pid j o c r m' ⟨⟨hi, ht⟩, hs⟩ - ⟨hc, htaken⟩ hdrop hx
  have ht' := ht.call hi hc htaken hx
  exact ⟨⟨hi.call hc hx, ht'⟩, hs.call ht' hc hdrop hx⟩

/-- **No event is lost on its way to a handler**, whatever runs, fails or crashes: every entry of the
stream is ahead of the group, or pending, or its handling has begun. If the stream keeps its
entries, every row of the outbox is still unprocessed or has such an entry. -/
theorem no_event_lost (m : Store) (hm : m.Consistent) (ordered : m.stream.Ordered)
    (accounted : m.Accounted) (shipped : m.Shipped) (sched : List (Act Job Outcome)) :
    let cfg := runSched market (.initial m) sched
    cfg.state.Accounted ∧
    (Meets market untrimmed (.initial m) sched → ∀ row ∈ cfg.state.outbox, row.processedAt = none ∨
      ∃ e ∈ cfg.state.stream.entries, e.content = row.content ∧
        (cfg.state.stream.Awaits e ∨ cfg.state.Begun e)) := by
  intro cfg
  have haccounted := (accounting_run m ordered accounted sched).accounted
  refine ⟨haccounted, fun kept row hrow => ?_⟩
  cases hprocessed : row.processedAt with
  | none => exact .inl rfl
  | some processedAt =>
      obtain ⟨e, he, heq⟩ := (shipping_run m hm shipped sched kept).shipped row hrow
        (by rw [hprocessed]; rfl)
      exact .inr ⟨e, he, heq, haccounted e he⟩

/-- A task is created, and a worker publishes its event and polls the entry. -/
def deliversCreated : List (Act Job Outcome) := publishesCreated ++ [goes 1, goes 1]

/-- A worker publishes an event, is given its entry, and crashes. -/
theorem crashed_worker_loses_nothing :
    let sched := deliversCreated ++ [.crash 1]
    let cfg := runSched market (.initial emptyStore) sched
    cfg.state.stream.Holds 1 ∧ cfg.state.Accounted ∧
    ∀ row ∈ cfg.state.outbox, row.processedAt = none ∨
      ∃ e ∈ cfg.state.stream.entries, e.content = row.content ∧
        (cfg.state.stream.Awaits e ∨ cfg.state.Begun e) := by
  obtain ⟨haccounted, hrows⟩ := no_event_lost emptyStore emptyStore_consistent
    ⟨.nil, fun _ he => (nomatch he), le_rfl⟩ (fun _ he => (nomatch he)) (fun _ hrow => (nomatch hrow))
    (deliversCreated ++ [.crash 1])
  exact ⟨by decide +kernel, haccounted, hrows (by decide +kernel)⟩

end TrustGate.Market
