import TrustGate.Lib.History
import TrustGate.Market.Attempts
import TrustGate.Market.Entries

set_option autoImplicit false

/-! # Stranded events

A delivered entry is acknowledged after its handler has run, so that what a crashed worker leaves
behind can be claimed; an event that failed is left to the retries. Both nets have a hole. A retry is
started without an entry to fall back on, and an entry is acknowledged whether or not the row says
how the handler ended. -/

namespace TrustGate.Market

open Resumption

/-! ## What was delivered -/

/-- The handlers for which retries are listed. -/
def retriedHandlers : List String := ["event:task_completion_requested", "event:result_published"]

/-- The handler and the event of an entry. -/
def StreamEntry.key (e : StreamEntry) : String × String := ("event:" ++ e.type, e.id)

/-- The entries that the group has been given: those in the stream that it has read are added to the
ones on record. Trimming takes none away. -/
def delivered (log : List StreamEntry) (m : Store) : List StreamEntry :=
  log ++ m.stream.entries.filter fun e =>
    e.entryId ≤ m.stream.lastDelivered && log.all fun e' => e'.entryId ≠ e.entryId

/-- The log has the entries that the group has read, and no later ones. -/
structure Logged (m : Store) (log : List StreamEntry) : Prop where
  ordered : m.stream.Ordered
  read : ∀ e ∈ log, e.entryId ≤ m.stream.lastDelivered
  complete : ∀ e ∈ m.stream.entries, e.entryId ≤ m.stream.lastDelivered → e ∈ log

section

variable {m m' : Store} {log : List StreamEntry} {o : Op} {c : Outcome} {r : Reply o}

theorem mem_delivered {e : StreamEntry} : e ∈ delivered log m ↔
    e ∈ log ∨ e ∈ m.stream.entries ∧ e.entryId ≤ m.stream.lastDelivered ∧
      ∀ e' ∈ log, e'.entryId ≠ e.entryId := by
  simp [delivered]

/-- The log after a call that keeps the stream in order and delivers entries that were there. -/
theorem Logged.next (h : Logged m log) (ordered : m'.stream.Ordered)
    (forward : m.stream.lastDelivered ≤ m'.stream.lastDelivered)
    (old : ∀ e ∈ m'.stream.entries, e.entryId ≤ m'.stream.lastDelivered → e ∈ m.stream.entries) :
    Logged m' (delivered log m') where
  ordered := ordered
  read := by
    intro e he
    rcases mem_delivered.mp he with he | ⟨-, hle, -⟩
    · exact (h.read e he).trans forward
    · exact hle
  complete := by
    intro e he hle
    by_cases hread : e.entryId ≤ m.stream.lastDelivered
    · exact mem_delivered.mpr (.inl (h.complete e (old e he hle) hread))
    · refine mem_delivered.mpr (.inr ⟨he, hle, fun e' he' heq => ?_⟩)
      exact hread (heq ▸ h.read e' he')

/-- What `XADD` leaves of the part that was read was there before. -/
theorem mem_of_add (h : Logged m log) (event : OutboxEvent) (drop : Nat) :
    ∀ e ∈ (m.stream.add event drop).entries, e.entryId ≤ m.stream.lastDelivered →
      e ∈ m.stream.entries := by
  intro e he hle
  rw [Stream.add_entries] at he
  rcases List.mem_append.mp he with he | he
  · exact List.mem_of_mem_drop he
  · cases List.mem_singleton.mp he
    exact absurd (hle.trans h.ordered.read) (Nat.not_succ_le_self _)

theorem Logged.call (h : Logged m log) (hx : exec o c m = some (r, m')) :
    Logged m' (delivered log m') := by
  cases streamStep hx with
  | same _ stream =>
      refine h.next ?_ ?_ ?_ <;> rw [stream]
      · exact h.ordered
      · exact fun e he _ => he
  | add event stream =>
      refine h.next ?_ ?_ ?_ <;> rw [stream]
      · exact h.ordered.add event c.drop
      · exact le_rfl
      · exact mem_of_add h event c.drop
  | read consumer count stream =>
      obtain ⟨hordered, hforward, -⟩ := h.ordered.readGroup consumer count
      refine h.next ?_ ?_ ?_ <;> rw [stream]
      · exact hordered
      · exact hforward
      · exact fun e he _ => he
  | claim consumer cursor count stream =>
      refine h.next ?_ ?_ ?_ <;> rw [stream]
      · exact ⟨h.ordered.sorted, h.ordered.bounded, h.ordered.read⟩
      · exact le_rfl
      · exact fun e he _ => he
  | ack entryId stream =>
      refine h.next ?_ ?_ ?_ <;> rw [stream]
      · exact ⟨h.ordered.sorted, h.ordered.bounded, h.ordered.read⟩
      · exact le_rfl
      · exact fun e he _ => he

/-- Nothing is delivered without `XREADGROUP`. -/
theorem Logged.same (h : Logged m log) (hx : exec o c m = some (r, m'))
    (ho : ∀ consumer count, o ≠ .xReadGroup consumer count) : delivered log m' = log := by
  have of_old : m'.stream.lastDelivered = m.stream.lastDelivered →
      (∀ e ∈ m'.stream.entries, e.entryId ≤ m.stream.lastDelivered → e ∈ m.stream.entries) →
      delivered log m' = log := by
    intro hread hold
    unfold delivered
    rw [List.append_right_eq_self, List.filter_eq_nil_iff]
    intro e he hkept
    simp only [hread, Bool.and_eq_true, decide_eq_true_eq, List.all_eq_true] at hkept
    exact hkept.2 e (h.complete e (hold e he hkept.1) hkept.1) rfl
  cases streamStep hx with
  | same _ stream => exact of_old (by rw [stream]) fun e he _ => stream ▸ he
  | add event stream =>
      refine of_old (by rw [stream]; rfl) ?_
      rw [stream]
      exact mem_of_add h event c.drop
  | read consumer count _ => exact absurd rfl (ho consumer count)
  | claim _ _ _ stream => exact of_old (by rw [stream]; rfl) (by rw [stream]; exact fun e he _ => he)
  | ack _ stream => exact of_old (by rw [stream]; rfl) (by rw [stream]; exact fun e he _ => he)

/-- What is delivered is pending. -/
theorem Logged.fresh (h : Logged m log) (hx : exec o c m = some (r, m')) {e : StreamEntry}
    (he : e ∈ delivered log m') : e ∈ log ∨ m'.stream.Holds e.entryId := by
  by_cases hread : ∃ consumer count, o = .xReadGroup consumer count
  · obtain ⟨consumer, count, rfl⟩ := hread
    rcases mem_delivered.mp he with he | ⟨hentry, hle, hnew⟩
    · exact .inl he
    cases streamStep hx with
    | same _ stream =>
        rw [stream] at hentry hle
        exact .inl (h.complete e hentry hle)
    | read _ _ stream =>
        rw [stream] at hentry hle
        rw [stream, Stream.holds_readGroup]
        refine .inr (.inr ⟨e, ?_, rfl⟩)
        refine (h.ordered.readGroup consumer count).2.2 e hentry (Nat.lt_of_not_le fun hold => ?_) hle
        exact hnew e (h.complete e hentry hold) rfl
  · refine .inl ?_
    rwa [h.same hx fun consumer count heq => hread ⟨consumer, count, heq⟩] at he

end

/-! ## Nothing is stranded -/

/-- What the row of `x` says of its last dispatch. -/
def Store.consumption (m : Store) (x : String × String) : Option ConsumptionStatus :=
  (m.row x).map EventConsumptionRecord.status

/-- A delivered entry of `x` is pending that is not one of `gone`. -/
def HeldBut (gone : List Nat) (m : Store) (log : List StreamEntry) (x : String × String) : Prop :=
  ∃ e ∈ log, e.key = x ∧ m.stream.Holds e.entryId ∧ e.entryId ∉ gone

instance (gone : List Nat) (m : Store) (log : List StreamEntry) (x : String × String) :
    Decidable (HeldBut gone m log x) :=
  inferInstanceAs (Decidable (∃ e ∈ log, _))

/-- Of the delivered events that are retried, each one that has not succeeded and has attempts left
has a pending entry or a `FAILED` row. -/
def Unstranded (N : Nat) (s : Store × List StreamEntry) : Prop :=
  ∀ e ∈ s.2, e.key.1 ∈ retriedHandlers → s.1.consumption e.key ≠ some .succeeded →
    s.1.attempts e.key < N →
    HeldBut [] s.1 s.2 e.key ∨ s.1.consumption e.key = some .failed

instance (N : Nat) (s : Store × List StreamEntry) : Decidable (Unstranded N s) :=
  inferInstanceAs (Decidable (∀ e ∈ s.2, _))

/-! ## Calls that keep hold of an event -/

/-- `x` has attempts left, and its row says neither that it succeeded nor that it failed: there is
no row, or it is `PROCESSING`. -/
def Undecided (N : Nat) (m : Store) (x : String × String) : Prop :=
  m.consumption x ≠ some .succeeded ∧ m.attempts x < N ∧ m.consumption x ≠ some .failed

instance (N : Nat) (m : Store) (x : String × String) : Decidable (Undecided N m x) :=
  inferInstanceAs (Decidable (_ ∧ _ ∧ _))

/-- A dispatch of a delivered event that is started has a pending entry, unless it is the last. -/
def StartsHeld (N : Nat) (s : Store × List StreamEntry) (c : Outcome) : Op → Prop
  | .tryStart args =>
      args.handlerName ∈ retriedHandlers → (∃ e ∈ s.2, e.key = args.key) →
        (∀ r ∈ s.1.row args.key, Store.refuses c.now args.maxAttempts r = false) →
        s.1.attempts args.key + 1 < N → HeldBut [] s.1 s.2 args.key
  | _ => True

/-- The entries that a call takes from the pending list. -/
def removed (m : Store) (c : Outcome) : Op → List Nat
  | .xAck entryId => [entryId]
  | .xAutoClaim _ cursor count => m.stream.gone cursor count c.idle
  | _ => []

/-- An entry is taken from the pending list only if its event is decided or has another one. -/
def LeavesHeld (N : Nat) (s : Store × List StreamEntry) (c : Outcome) (o : Op) : Prop :=
  ∀ e ∈ s.2, e.entryId ∈ removed s.1 c o → e.key.1 ∈ retriedHandlers → Undecided N s.1 e.key →
    HeldBut (removed s.1 c o) s.1 s.2 e.key

/-- A call that takes effect leaves nothing behind that nobody comes back to. -/
def KeepsHold (N : Nat) (s : Store × List StreamEntry) (o : Op) (c : Outcome) : Prop :=
  c.fault.applies = true → StartsHeld N s c o ∧ LeavesHeld N s c o

instance (N : Nat) (s : Store × List StreamEntry) (c : Outcome) (o : Op) :
    Decidable (StartsHeld N s c o) := by
  apply Op.casesOn (motive := fun o => Decidable (StartsHeld N s c o)) o <;> intros <;>
    unfold StartsHeld <;> infer_instance

instance (N : Nat) (s : Store × List StreamEntry) (o : Op) (c : Outcome) :
    Decidable (KeepsHold N s o c) := by
  unfold KeepsHold LeavesHeld
  infer_instance

theorem unstranded_iff_held {N : Nat} {s : Store × List StreamEntry} : Unstranded N s ↔
    ∀ e ∈ s.2, e.key.1 ∈ retriedHandlers → Undecided N s.1 e.key → HeldBut [] s.1 s.2 e.key := by
  unfold Unstranded Undecided
  refine forall₃_congr fun e _ _ => ⟨fun h hu => ?_, fun h hopen hleft => ?_⟩
  · exact (h hu.1 hu.2.1).resolve_right hu.2.2
  · by_cases hfailed : s.1.consumption e.key = some .failed
    · exact .inr hfailed
    · exact .inl (h ⟨hopen, hleft, hfailed⟩)

section

variable {N : Nat} {m m' : Store} {log : List StreamEntry} {x : String × String} {o : Op}
  {c : Outcome} {r : Reply o}

theorem undecided_congr (hrow : m'.row x = m.row x) : Undecided N m' x ↔ Undecided N m x := by
  unfold Undecided Store.consumption Store.attempts
  rw [hrow]

/-- A mark decides, and anything but a start leaves what is decided. -/
theorem RowStep.undecided (h : RowStep x c m m' o) (ho : ∀ args, o ≠ .tryStart args)
    (hu : Undecided N m' x) : Undecided N m x := by
  cases h with
  | same _ row => exact (undecided_congr row).mp hu
  | first args _ _ _ => exact absurd rfl (ho args)
  | again args _ _ _ _ _ => exact absurd rfl (ho args)
  -- a mark of no row changes nothing; of a row, it decides it
  | succeeded row =>
      cases hrow : m.row x with
      | none =>
          rw [hrow] at row
          exact (undecided_congr (row.trans hrow.symm)).mp hu
      | some r =>
          rw [hrow] at row
          exact absurd (by simp [Store.consumption, row, EventConsumptionRecord.succeed]) hu.1
  | failed error nextRetryAt row =>
      cases hrow : m.row x with
      | none =>
          rw [hrow] at row
          exact (undecided_congr (row.trans hrow.symm)).mp hu
      | some r =>
          rw [hrow] at row
          exact absurd (by simp [Store.consumption, row, EventConsumptionRecord.fail]) hu.2.2

/-- The rows after `tryStart`: refused, nothing changes; otherwise the row of its key is undecided as
long as attempts are left after this one. -/
theorem tryStart_undecided (m : Store) (args : StartArgs) (now : Nat) :
    ((∃ r ∈ m.row args.key, Store.refuses now args.maxAttempts r = true) ∧
      (m.tryStart args now).2 = m) ∨
    (∀ r ∈ m.row args.key, Store.refuses now args.maxAttempts r = false) ∧
      (Undecided N (m.tryStart args now).2 args.key ↔ m.attempts args.key + 1 < N) ∧
      ∀ y, y ≠ args.key → (m.tryStart args now).2.row y = m.row y := by
  have hother : ∀ y, y ≠ args.key → (m.tryStart args now).2.row y = m.row y := by
    intro y hy
    cases tryStart_rowStep m args { now := now } y with
    | same _ row => exact row
    | first _ key _ _ => exact absurd key.symm hy
    | again _ _ key _ _ _ => exact absurd key.symm hy
  rcases m.tryStart_cases args now with ⟨hrow, heq⟩ | ⟨r, hrow, hrefuses, heq⟩ | ⟨r, hrow, hdue, heq⟩
  · refine .inr ⟨by simp [hrow], ?_, hother⟩
    -- the first attempt: the row is new
    have hnew : (m.tryStart args now).2.row args.key = some (.first args now) := by
      rw [heq, Store.row_append, hrow, if_pos rfl]
      rfl
    simp [Undecided, Store.consumption, Store.attempts, hnew, hrow, EventConsumptionRecord.first]
  · exact .inl ⟨⟨r, hrow, hrefuses⟩, by rw [heq]⟩
  · refine .inr ⟨by simp [hrow, hdue], ?_, hother⟩
    have hself : args.key = (args.handlerName, args.eventId) := rfl
    have hnew : (m.tryStart args now).2.row args.key = some (r.again args now) := by
      rw [heq, Store.row_update, if_pos hself, hrow]
      · rfl
      · exact fun _ => ⟨rfl, rfl⟩
    simp [Undecided, Store.consumption, Store.attempts, hnew, hrow, EventConsumptionRecord.again]

/-- A delivered entry stays pending unless the call removes it. -/
theorem Logged.holds (h : Logged m log) {v : Value o} (hp : perform c m o = some (v, m'))
    {e : StreamEntry} (he : e ∈ log) :
    m'.stream.Holds e.entryId ↔ m.stream.Holds e.entryId ∧ e.entryId ∉ removed m c o := by
  have same : m'.stream.pending = m.stream.pending → removed m c o = [] →
      (m'.stream.Holds e.entryId ↔ m.stream.Holds e.entryId ∧ e.entryId ∉ removed m c o) := by
    intro hpending hremoved
    unfold Stream.Holds
    simp [hpending, hremoved]
  cases o with
  | xReadGroup consumer count =>
      cases hp
      refine (Stream.holds_readGroup _ _ _ _).trans ?_
      simp only [removed, List.not_mem_nil, not_false_iff, and_true]
      refine or_iff_left ?_
      -- what is read now comes after all that was read
      rintro ⟨e', he', heq⟩
      have hnew : m.stream.lastDelivered < e'.entryId := by
        simpa [Stream.unread] using (List.mem_filter.mp (List.mem_of_mem_take he')).2
      exact absurd (h.read e he) (Nat.not_le_of_lt (heq ▸ hnew))
  | xAutoClaim consumer cursor count =>
      cases hp
      exact Stream.holds_autoClaim _ _ _ _ _ _
  | xAck entryId =>
      cases hp
      refine (Stream.holds_ack _ _ _).trans ?_
      simp [removed]
  | xAdd event =>
      cases hp
      exact same rfl rfl
  | _ => exact same (congrArg Stream.pending ((perform_frame hp).stream (by simp)
      (by simp) (by simp) (by simp))) rfl

/-- A call that keeps hold of the events leaves none stranded. -/
theorem Unstranded.keep (hI : Unstranded N (m, log)) (h : Logged m log)
    (hx : exec o c m = some (r, m')) {v : Value o} (hp : perform c m o = some (v, m'))
    (starts : StartsHeld N (m, log) c o) (leaves : LeavesHeld N (m, log) c o) :
    Unstranded N (m', delivered log m') := by
  rw [unstranded_iff_held] at *
  intro e he hretried hu
  rcases h.fresh hx he with hlog | hholds
  swap
  · exact ⟨e, he, rfl, hholds, List.not_mem_nil⟩
  have hrow : (∀ args, o ≠ .tryStart args) → Undecided N m e.key :=
    fun ho => (rowStep hx e.key).undecided ho hu
  -- before the call, an entry of the event was pending
  have hheld : HeldBut [] m log e.key := by
    by_cases hstart : ∃ args, o = .tryStart args
    · obtain ⟨args, rfl⟩ := hstart
      have hm : (m.tryStart args c.now).2 = m' := congrArg Prod.snd (Option.some.inj hp)
      subst hm
      rcases tryStart_undecided (N := N) m args c.now with ⟨-, heq⟩ | ⟨hdue, hlast, hother⟩
      · rw [heq] at hu
        exact hI e hlog hretried hu
      · by_cases hkey : e.key = args.key
        · have hhandler : e.key.1 = args.handlerName := congrArg Prod.fst hkey
          rw [hhandler] at hretried
          rw [hkey] at hu ⊢
          exact starts hretried ⟨e, hlog, hkey⟩ hdue (hlast.mp hu)
        · exact hI e hlog hretried ((undecided_congr (hother _ hkey)).mp hu)
    · exact hI e hlog hretried (hrow fun args heq => hstart ⟨args, heq⟩)
  obtain ⟨e₂, he₂, hkey₂, hholds₂, -⟩ := hheld
  by_cases hremoved : e₂.entryId ∈ removed m c o
  · have ho : ∀ args, o ≠ .tryStart args := by
      rintro args rfl
      exact absurd hremoved List.not_mem_nil
    have hu₂ : Undecided N m e₂.key := hkey₂ ▸ hrow ho
    obtain ⟨e₃, he₃, hkey₃, hholds₃, hkept⟩ := leaves e₂ he₂ hremoved (hkey₂ ▸ hretried) hu₂
    exact ⟨e₃, mem_delivered.mpr (.inl he₃), hkey₃.trans hkey₂,
      (h.holds hp he₃).mpr ⟨hholds₃, hkept⟩, List.not_mem_nil⟩
  · exact ⟨e₂, mem_delivered.mpr (.inl he₂), hkey₂,
      (h.holds hp he₂).mpr ⟨hholds₂, hremoved⟩, List.not_mem_nil⟩

/-- A call that loses hold of an event strands it. -/
theorem keepsHold_of_unstranded (h : Logged m log) (hx : exec o c m = some (r, m')) {v : Value o}
    (hp : perform c m o = some (v, m')) (hI : Unstranded N (m', delivered log m')) :
    StartsHeld N (m, log) c o ∧ LeavesHeld N (m, log) c o := by
  rw [unstranded_iff_held] at hI
  -- an entry that is pending after the call was pending before, and was not removed
  have held : delivered log m' = log → ∀ {x}, HeldBut [] m' (delivered log m') x →
      HeldBut (removed m c o) m log x := by
    rintro hsame x ⟨e, he, hkey, hholds, -⟩
    rw [hsame] at he
    obtain ⟨hheld, hkept⟩ := (h.holds hp he).mp hholds
    exact ⟨e, he, hkey, hheld, hkept⟩
  constructor
  · cases o with
    | tryStart args =>
        rintro hretried ⟨e, he, hkey⟩ hdue hlt
        have hm : (m.tryStart args c.now).2 = m' := congrArg Prod.snd (Option.some.inj hp)
        rcases tryStart_undecided (N := N) m args c.now with ⟨⟨r, hr, hrefuses⟩, -⟩ | ⟨-, hlast, -⟩
        · exact absurd (hdue r hr) (by simp [hrefuses])
        · rw [hm] at hlast
          have hhandler : e.key.1 = args.handlerName := congrArg Prod.fst hkey
          rw [← hhandler] at hretried
          rw [← hkey] at hlast hlt ⊢
          exact held (h.same hx nofun) (hI e (mem_delivered.mpr (.inl he)) hretried (hlast.mpr hlt))
    | _ => trivial
  · intro e he hremoved hretried hu
    have hquiet : (∀ consumer count, o ≠ .xReadGroup consumer count) ∧ m'.row e.key = m.row e.key := by
      cases o with
      | xAck entryId =>
          cases hp
          exact ⟨nofun, rfl⟩
      | xAutoClaim consumer cursor count =>
          cases hp
          exact ⟨nofun, rfl⟩
      | _ => exact absurd hremoved List.not_mem_nil
    exact held (h.same hx hquiet.1) (hI e (mem_delivered.mpr (.inl he)) hretried
      ((undecided_congr hquiet.2).mpr hu))

/-- **One call.** -/
theorem unstranded_call (h : Logged m log) (hI : Unstranded N (m, log))
    (hx : exec o c m = some (r, m')) :
    Unstranded N (m', delivered log m') ↔ KeepsHold N (m, log) o c := by
  rcases exec_cases hx with ⟨hf, rfl, -⟩ | ⟨hf, v, hp, -⟩
  · -- a refused call is as good as none
    have hsame : delivered log m' = log := by
      have hnow : exec .dateNow {} m' = some (.ok 0, m') := rfl
      exact h.same hnow nofun
    rw [hsame]
    exact ⟨fun _ happlies => absurd happlies (by simp [hf]), fun _ => hI⟩
  · exact ⟨fun hI' _ => keepsHold_of_unstranded h hx hp hI',
      fun hkeeps => hI.keep h hx hp (hkeeps hf).1 (hkeeps hf).2⟩

end

/-! ## Runs -/

theorem unstranded_run (N : Nat) (m : Store) (log : List StreamEntry) (logged : Logged m log)
    (held : Unstranded N (m, log)) (sched : List (Act Job Outcome)) :
    let sys := market.recording delivered
    (∀ s ∈ states sys (.initial (m, log)) sched, Unstranded N s) ↔
      Meets sys (.calls (KeepsHold N)) (.initial (m, log)) sched := by
  intro sys
  have hexec : ∀ {s : Store × List StreamEntry} {o : Op} {c : Outcome} {r : Reply o}
      {s' : Store × List StreamEntry}, sys.exec o c s = some (r, s') →
      exec o c s.1 = some (r, s'.1) ∧ s'.2 = delivered s.2 s'.1 := by
    intro s o c r s' hx
    obtain ⟨rs, hrs, heq⟩ := Option.map_eq_some_iff.mp hx
    cases heq
    exact ⟨hrs, rfl⟩
  refine throughout_iff_meets (J := fun s => Logged s.1 s.2) ?_ ?_ ?_ sched _ logged held
  · intro s o c r s' hJ hx
    obtain ⟨hx, hlog⟩ := hexec hx
    rw [hlog]
    exact hJ.call hx
  · rintro s o c r ⟨m', log'⟩ hJ hI hx
    obtain ⟨hx, hlog⟩ := hexec hx
    dsimp only at hx hlog
    rw [hlog]
    exact unstranded_call hJ hI hx
  · intro s o c hnone _
    have hnone : exec o c s.1 = none := Option.map_eq_none_iff.mp hnone
    cases hlocal : o.isLocal with
    | false => exact absurd hnone (exec_ne_none hlocal)
    | true =>
        cases o with
        -- the clock and the UUIDs remove nothing, so they are meant also where they cannot answer
        | dateNow => exact ⟨trivial, fun _ _ hremoved => absurd hremoved List.not_mem_nil⟩
        | randomUUID => exact ⟨trivial, fun _ _ hremoved => absurd hremoved List.not_mem_nil⟩
        | _ => cases hlocal

/-- **No event is stranded** in any state of a run exactly if every call of the run keeps hold of the
events: for every maximum `N`, from any store with nothing stranded, with any jobs, faults and
crashes. The log is a history: the run is one of the market. -/
theorem unstranded_iff (N : Nat) (m : Store) (log : List StreamEntry) (logged : Logged m log)
    (held : Unstranded N (m, log)) (sched : List (Act Job Outcome)) :
    let sys := market.recording delivered
    (runSched sys (.initial (m, log)) sched).forget = runSched market (.initial m) sched ∧
    ((∀ s ∈ states sys (.initial (m, log)) sched, Unstranded N s) ↔
      Meets sys (.calls (KeepsHold N)) (.initial (m, log)) sched) :=
  ⟨runSched_forget sched _, unstranded_run N m log logged held sched⟩

/-- A tick in which the webhook does not answer: the published result is put off until 2000, and its
entry is acknowledged. -/
def webhookDown : List (Act Job Outcome) :=
  .spawn webhookTick :: List.replicate 4 (goes 0) ++
  .run 0 { fault := .refused (.other "timeout") } :: List.replicate 5 (goes 0)

theorem webhook_down_held :
    let sys := market.recording delivered
    (runSched sys (.initial (publishedStore, [])) webhookDown).forget =
      runSched market (.initial publishedStore) webhookDown ∧
    ∀ s ∈ states sys (.initial (publishedStore, [])) webhookDown, Unstranded 10 s := by
  intro sys
  have logged : Logged publishedStore [] :=
    ⟨⟨by simp [publishedStore], by simp [publishedStore], by decide⟩, nofun,
      by simp [publishedStore]⟩
  obtain ⟨hforget, hiff⟩ := unstranded_iff 10 publishedStore [] logged (by decide) webhookDown
  exact ⟨hforget, hiff.mpr (by decide +kernel)⟩

/-- The next tick starts the retry, and its worker crashes while it waits for the webhook: the row says
`PROCESSING`, and nothing is pending. -/
theorem crashed_retry_stranded :
    ¬ Unstranded 10 (runSched (market.recording delivered) (.initial (publishedStore, []))
      (webhookDown ++ .spawn webhookTick :: List.replicate 6 (.run 1 { now := 2000 }) ++
        [.crash 1])).state := by
  decide +kernel

end TrustGate.Market
