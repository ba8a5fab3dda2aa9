import TrustGate.Market.Pipeline

set_option autoImplicit false

/-! # Keeping hold of the events

Whether a call keeps hold of the events (`KeepsHold`) is a question about the rows and the pending
list. Here it is answered for the three ways in which a tick comes by an event. A handler that was
given an entry, polled or claimed, does its part: it acknowledges the entry only after a mark,
unless the mark failed. What can go wrong is up to the others, and to the due retries (`Careful`). -/

namespace TrustGate.Market

open Resumption

/-! ## What the others do -/

/-- The calls that others have made since the process made its last one. -/
def since (pid : Nat) (t : Trace Op Reply) : Trace Op Reply :=
  t.takeWhile fun call => call.pid ≠ pid

/-- A mark of `x` went through, and nobody has asked to start it since. -/
def MarkedLast (x : String × String) : Trace Op Reply → Prop
  | [] => False
  | call :: t => markOf ⟨call.op, call.reply⟩ = some x ∨ call.op.asksFor x = false ∧ MarkedLast x t

theorem markedLast_of_own {x : String × String} {pid : Nat} {d : Done Op Reply} {h : Hist}
    {t : Trace Op Reply} (hown : own pid t = d :: h) (hmark : markOf d = some x)
    (halone : ∀ call ∈ since pid t, call.op.asksFor x = false) : MarkedLast x t := by
  induction t with
  | nil => cases hown
  | cons call t ih =>
      obtain ⟨pid', o, r⟩ := call
      -- the calls of others come first, then the mark
      by_cases hp : pid' = pid
      · subst hp
        rw [own_cons_self] at hown
        cases hown
        exact .inl hmark
      · rw [own_cons_ne hp] at hown
        rw [since, List.takeWhile_cons_of_pos (by simpa using hp), List.forall_mem_cons] at halone
        exact .inr ⟨halone.1, ih hown halone.2⟩

/-- What a call has to leave to a handler or a retry, at the moment it is made. A handler starts
while its entry is still pending, and a retry while some entry of its event is, unless no attempts
are left after it. Whoever claims entries finds them in the stream. And an entry is acknowledged
after a call that went through, with nobody asking for its event in the meantime; if it may not be
started, the event is decided. -/
def Careful (N : Nat) (s : Store × List StreamEntry) (t : Trace Op Reply) (pid : Nat) (o : Op)
    (c : Outcome) : Prop :=
  match o with
  | .tryStart args => (∀ entryId ∈ args.streamEntryId, s.1.stream.Holds entryId) ∧
      (args.streamEntryId = none →
        N ≤ s.1.attempts args.key + 1 ∨ HeldBut [] s.1 s.2 args.key)
  | .xAutoClaim _ cursor count => s.1.stream.gone cursor count c.idle = []
  | .xAck entryId => ∀ d ∈ (own pid t).head?, failed d = false ∧
      ∀ e ∈ s.2, e.entryId = entryId → e.id ≠ "" ∧ e.type ≠ "" ∧
        (∀ call ∈ since pid t, call.op.asksFor e.key = false) ∧
        (d.op.asksFor e.key = true → ¬ Undecided N s.1 e.key)
  | _ => True

instance (N : Nat) (s : Store × List StreamEntry) (t : Trace Op Reply) (pid : Nat) (o : Op)
    (c : Outcome) : Decidable (Careful N s t pid o c) := by
  apply Op.casesOn (motive := fun o => Decidable (Careful N s t pid o c)) o <;> intros <;>
    unfold Careful <;> infer_instance

/-- The runs in which every call that takes effect is careful. -/
abbrev careful (N : Nat) : Regime Op Reply Job Outcome (Store × List StreamEntry) :=
  ⟨fun _ => True, fun s t pid o c => c.fault.applies = true → Careful N s t pid o c, True⟩

/-! ## What the run knows -/

/-- Whoever reads an entry is told of a delivered one, and the rows know of the marks. -/
structure Keeping (s : Store × List StreamEntry) (t : Trace Op Reply) : Prop where
  logged : Logged s.1 s.2
  pending : ∀ entryId, s.1.stream.Holds entryId → entryId ≤ s.1.stream.lastDelivered
  apart : ∀ a ∈ s.2, ∀ b ∈ s.2, a.entryId = b.entryId → a = b
  read : ∀ call ∈ t, ∀ e ∈ entriesRead ⟨call.op, call.reply⟩, e ∈ s.2
  tried : ∀ pid args started, ⟨pid, .tryStart args, .ok started⟩ ∈ t → s.1.Tried args.key
  marked : ∀ x, MarkedLast x t → s.1.consumption x ≠ some .processing

section

variable {m m' : Store} {log : List StreamEntry} {t : Trace Op Reply} {pid : Nat} {o : Op}
  {c : Outcome} {r : Reply o}

/-- What is pending was delivered. -/
theorem pending_exec (h : m.stream.Ordered)
    (hpending : ∀ entryId, m.stream.Holds entryId → entryId ≤ m.stream.lastDelivered)
    (hx : exec o c m = some (r, m')) (entryId : Nat) (hholds : m'.stream.Holds entryId) :
    entryId ≤ m'.stream.lastDelivered := by
  cases streamStep hx with
  | same _ stream =>
      rw [stream] at hholds ⊢
      exact hpending entryId hholds
  | add event stream =>
      rw [stream] at hholds ⊢
      exact hpending entryId hholds
  | read consumer count stream =>
      rw [stream] at hholds ⊢
      rcases (Stream.holds_readGroup _ _ _ _).mp hholds with hheld | ⟨e, he, rfl⟩
      · exact (hpending entryId hheld).trans (h.readGroup consumer count).2.1
      · exact h.le_lastDelivered consumer count he
  | claim consumer cursor count stream =>
      rw [stream] at hholds ⊢
      exact hpending entryId ((Stream.holds_autoClaim _ _ _ _ _ _).mp hholds).1
  | ack acked stream =>
      rw [stream] at hholds ⊢
      exact hpending entryId ((Stream.holds_ack _ _ _).mp hholds).1

/-- What a call hands out is in the stream and delivered. -/
theorem delivered_of_read (h : Logged m log)
    (hpending : ∀ entryId, m.stream.Holds entryId → entryId ≤ m.stream.lastDelivered)
    (hx : exec o c m = some (r, m')) {e : StreamEntry} (he : e ∈ entriesRead ⟨o, r⟩) :
    e ∈ delivered log m' := by
  have hentry := mem_entries_of_entriesRead hx he
  have hboth : e ∈ m'.stream.entries ∧ e.entryId ≤ m'.stream.lastDelivered := by
    cases o with
    | xReadGroup consumer count =>
        cases r with
        | error _ => cases he
        | ok entries =>
            cases exec_ok hx
            exact ⟨hentry, h.ordered.le_lastDelivered consumer count he⟩
    | xAutoClaim consumer cursor count =>
        cases r with
        | error _ => cases he
        | ok claimed =>
            cases exec_ok hx
            obtain ⟨p, hp, hid⟩ := List.mem_map.mp (of_decide_eq_true (List.mem_filter.mp he).2)
            have hheld : p ∈ m.stream.pending := (List.mem_filter.mp (List.mem_of_mem_take hp)).1
            exact ⟨hentry, hpending e.entryId ⟨p, hheld, hid⟩⟩
    | _ => cases he
  exact (h.call hx).complete e hboth.1 hboth.2

/-- The log stays free of doubles. -/
theorem apart_exec (h : Logged m log) (hapart : ∀ a ∈ log, ∀ b ∈ log, a.entryId = b.entryId → a = b)
    (hx : exec o c m = some (r, m')) :
    ∀ a ∈ delivered log m', ∀ b ∈ delivered log m', a.entryId = b.entryId → a = b := by
  have hids : (m'.stream.entries.map StreamEntry.entryId).Nodup := by
    rw [List.Nodup, List.pairwise_map]
    exact (h.call hx).ordered.sorted.imp fun hlt => Nat.ne_of_lt hlt
  intro a ha b hb heq
  rcases mem_delivered.mp ha with ha | ⟨ha, -, hnew⟩ <;>
    rcases mem_delivered.mp hb with hb | ⟨hb, -, hnew'⟩
  · exact hapart a ha b hb heq
  · exact absurd heq (hnew' a ha)
  · exact absurd heq.symm (hnew b hb)
  · exact List.inj_on_of_nodup_map hids ha hb heq

/-- A mark that goes through leaves no row that is being processed. -/
theorem consumption_of_mark {x : String × String} (hx : exec o c m = some (r, m'))
    (hmark : markOf ⟨o, r⟩ = some x) : m'.consumption x ≠ some .processing := by
  unfold markOf at hmark
  split at hmark
  · rename_i handlerName eventId heq
    cases heq
    cases hmark
    cases exec_ok hx
    rw [Store.consumption, m.row_markSucceeded (handlerName, eventId) c.now]
    cases m.row (handlerName, eventId) <;> simp [EventConsumptionRecord.succeed]
  · rename_i handlerName eventId error nextRetryAt heq
    cases heq
    cases hmark
    cases exec_ok hx
    rw [Store.consumption, m.row_markFailed (handlerName, eventId) error nextRetryAt c.now]
    cases m.row (handlerName, eventId) <;> simp [EventConsumptionRecord.fail]
  · cases hmark

/-- Without being started again, an event is not processed again. -/
theorem consumption_kept {x : String × String} (hx : exec o c m = some (r, m'))
    (hquiet : o.asksFor x = false) (h : m.consumption x ≠ some .processing) :
    m'.consumption x ≠ some .processing := by
  unfold Store.consumption at *
  cases rowStep hx x with
  | same _ row => rwa [row]
  | first args key _ _ => exact absurd hquiet (by simp [Op.asksFor, key])
  | again args _ key _ _ _ => exact absurd hquiet (by simp [Op.asksFor, key])
  | succeeded row =>
      rw [row]
      cases m.row x <;> simp [EventConsumptionRecord.succeed]
  | failed error nextRetryAt row =>
      rw [row]
      cases m.row x <;> simp [EventConsumptionRecord.fail]

theorem Keeping.call (h : Keeping (m, log) t) (hx : exec o c m = some (r, m')) :
    Keeping (m', delivered log m') (⟨pid, o, r⟩ :: t) where
  logged := h.logged.call hx
  pending := pending_exec h.logged.ordered h.pending hx
  apart := apart_exec h.logged h.apart hx
  read := by
    intro call hcall e he
    rcases List.mem_cons.mp hcall with rfl | hcall
    · exact delivered_of_read h.logged h.pending hx he
    · exact mem_delivered.mpr (.inl (h.read call hcall e he))
  tried := by
    intro p args started hmem
    rcases List.mem_cons.mp hmem with heq | hmem
    · cases heq
      exact tried_of_start hx
    · exact (rows_exec hx args.key).1 (h.tried p args started hmem)
  marked := by
    rintro x (hmark | ⟨hquiet, hlast⟩)
    · exact consumption_of_mark hx hmark
    · exact consumption_kept hx hquiet (h.marked x hlast)

/-! ## The calls of the three paths -/

variable {N : Nat}

/-- An event with a row is decided once a mark went through and nobody has asked for it since. -/
theorem Keeping.decided (h : Keeping (m, log) t) {x : String × String} (htried : m.Tried x)
    (hlast : MarkedLast x t) : ¬ Undecided N m x := by
  obtain ⟨row, hrow⟩ := Option.isSome_iff_exists.mp htried
  have hprocessing := h.marked x hlast
  rintro ⟨hsucceeded, -, hfailed⟩
  have hstatus : m.consumption x = some row.status := congrArg (Option.map _) hrow
  rw [hstatus] at hprocessing hsucceeded hfailed
  cases hs : row.status <;> simp [hs] at hprocessing hsucceeded hfailed

/-- A handler that was given the entry finds it pending when it starts. -/
theorem Keeping.starts (h : Keeping (m, log) t) (hserves : Serves (own pid t) o)
    (hcareful : Careful N (m, log) t pid o c) : StartsHeld N (m, log) c o := by
  cases o with
  | tryStart args =>
      intro _ _ _ hlt
      obtain ⟨hgiven, hretry⟩ := hcareful
      cases hentry : args.streamEntryId with
      | some entryId =>
          obtain ⟨e, ⟨d, hd, he⟩, hid, hkey⟩ := hserves entryId hentry
          have hheld : m.stream.Holds e.entryId := hid ▸ hgiven entryId hentry
          exact ⟨e, h.read _ (mem_own.mp hd) e he, hkey.symm, hheld, List.not_mem_nil⟩
      | none => exact (hretry hentry).resolve_left (Nat.not_le_of_lt hlt)
  | _ => trivial

/-- What a handler acknowledges is decided. -/
theorem Keeping.acks (h : Keeping (m, log) t) {entryId : Nat}
    (hserves : Serves (own pid t) (.xAck entryId))
    (hcareful : Careful N (m, log) t pid (.xAck entryId) c) {e : StreamEntry} (he : e ∈ log)
    (hid : e.entryId = entryId) : ¬ Undecided N m e.key := by
  obtain ⟨e', ⟨d, hd, he'⟩, hid', hserved⟩ := hserves
  -- the entry with that id is the one that the handler was given
  obtain rfl := h.apart e he e' (h.read _ (mem_own.mp hd) e' he') (hid.trans hid'.symm)
  obtain ⟨last, past, hown⟩ := List.exists_cons_of_ne_nil (List.ne_nil_of_mem hd)
  unfold Careful at hcareful
  obtain ⟨hok, hentry⟩ := hcareful last (by rw [hown]; rfl)
  obtain ⟨hnamed, htyped, halone, hrefused⟩ := hentry e he hid
  obtain ⟨⟨args, started, hmem, hkey⟩, last', past', hown', hend⟩ :=
    (hserved.resolve_left hnamed).resolve_left htyped
  cases hown.symm.trans hown'
  -- nothing failed; what was refused is decided; of a mark the row knows
  rcases hend with hfailed | hasked | hmark
  · exact absurd hfailed (by simp [hok])
  · exact hrefused hasked
  · have htried : m.Tried e.key := hkey ▸ h.tried pid args started (mem_own.mp hmem)
    exact h.decided htried (markedLast_of_own hown hmark halone)

theorem Keeping.leaves (h : Keeping (m, log) t) (hserves : Serves (own pid t) o)
    (hcareful : Careful N (m, log) t pid o c) : LeavesHeld N (m, log) c o := by
  intro e he hremoved _ hu
  cases o with
  | xAutoClaim consumer cursor count =>
      have hgone : m.stream.gone cursor count c.idle = [] := hcareful
      simp [removed, hgone] at hremoved
  | xAck entryId =>
      exact absurd hu (h.acks hserves hcareful he (List.mem_singleton.mp hremoved))
  | _ => exact absurd hremoved List.not_mem_nil

end

/-! ## Runs -/

section

variable (N : Nat) (m : Store) (log : List StreamEntry) (logged : Logged m log)
  (pending : ∀ entryId, m.stream.Holds entryId → entryId ≤ m.stream.lastDelivered)
  (apart : ∀ a ∈ log, ∀ b ∈ log, a.entryId = b.entryId → a = b) (sched : List (Act Job Outcome))

include logged pending apart

/-- **The three paths keep hold of the events**, as long as the others leave them their part. -/
theorem paths_keep_hold :
    let sys := market.recording delivered
    Meets sys (careful N) (.initial (m, log)) sched →
      Meets sys (.calls (KeepsHold N)) (.initial (m, log)) sched := by
  intro sys
  refine Meets.calls (P := Job.Ships) (Q := Job.Tries) (I := Keeping) (fun j _ => body_ships j)
    ?_ ?_ sched (.initial (m, log)) ?_ (.initial (m, log))
  · rintro ⟨m, log⟩ t pid j o c r s' h - - - hsys
    obtain ⟨⟨r', m'⟩, hx, heq⟩ := Option.map_eq_some_iff.mp hsys
    cases heq
    exact h.call hx
  · rintro ⟨m, log⟩ t pid j o c h ⟨-, hserves⟩ hcareful happlies
    exact ⟨h.starts hserves (hcareful happlies), h.leaves hserves (hcareful happlies)⟩
  · exact ⟨logged, pending, apart, fun _ hcall => (nomatch hcall), fun _ _ _ hmem => (nomatch hmem),
      fun _ hlast => hlast.elim⟩

/-- **No event is stranded in a careful run**, with any jobs, from any store with nothing stranded. A
due retry without an entry to fall back on is not careful, and the handler has acknowledged the entry
by then; nor is an acknowledgement after a mark that failed, or with another dispatch in between. -/
theorem careful_unstranded (held : Unstranded N (m, log)) :
    let sys := market.recording delivered
    Meets sys (careful N) (.initial (m, log)) sched →
      ∀ s ∈ states sys (.initial (m, log)) sched, Unstranded N s := fun hcareful =>
  (unstranded_run N m log logged held sched).mpr
    (paths_keep_hold N m log logged pending apart sched hcareful)

end

/-- A published result that the webhook does not answer for is acknowledged with care. -/
example : Meets (market.recording delivered) (careful 10) (.initial (publishedStore, []))
    webhookDown := by
  decide +kernel

end TrustGate.Market
