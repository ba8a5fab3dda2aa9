import TrustGate.Market.Winner

set_option autoImplicit false

/-! # A state change and its event

An operation that announces what it does writes its rows first and inserts the event into the
outbox afterwards, each in a query of its own. What becomes of the pair depends on where the
operation is cut off, by a query that fails or by a crash: it is torn exactly if that happens in
the gap between the two. -/

namespace TrustGate.Market

open Resumption

/-! ## The operations -/

def withOutbox (cfg : Settings) : Settings := { cfg with hasOutbox := true }

/-- The operations that change state and emit an event about it. -/
inductive Operation where
  | createTask (cfg : Settings) (body : Parsed CreateTaskBody)
  | createPaid (cfg : Settings) (body : Parsed CreateTaskBody)
  | select (cfg : Settings) (taskId : String)
  | complete (cfg : Settings) (taskId : String) (body : Parsed CompleteBody)
  | createBid (cfg : Settings) (body : Parsed CreateBidBody)
  | publishResult (cfg : Settings) (taskId : String) (executorPublicKey : Option String)
      (payload : Option Json)
  | expireTask (cfg : Settings) (task : Task)
  | handleTaskCompletionRequested (eventId : String) (payload : Json)

def Operation.body : Operation → Prog Op Reply Unit
  | .createTask cfg body => toEnd (Market.createTask (withOutbox cfg) body)
  | .createPaid cfg body => toEnd (Market.createPaid (withOutbox cfg) body)
  | .select cfg taskId => toEnd (Market.select (withOutbox cfg) taskId)
  | .complete cfg taskId body => toEnd (Market.complete (withOutbox cfg) taskId body)
  | .createBid cfg body => toEnd (Market.createBid (withOutbox cfg) body)
  | .publishResult cfg taskId key payload =>
      toEnd (Market.publishResult (withOutbox cfg) taskId key payload)
  | .expireTask cfg task => toEnd (Market.expireTask (withOutbox cfg) task)
  | .handleTaskCompletionRequested eventId payload =>
      toEnd (Market.handleTaskCompletionRequested eventId payload)

/-- The queries that change a state row. -/
def Op.writes : Op → Bool
  | .saveTask _ => true
  | .saveBid _ => true
  | .upsertResult _ _ _ => true
  | _ => false

def Op.inserts : Op → Bool
  | .insertEvent _ => true
  | _ => false

/-- The state change that the operation's event is about. The event of a bid request is about the
bid alone; the selection that follows has none. -/
def Operation.changes : Operation → Op → Bool
  | .createBid _ _, .saveBid bid => bid.status = .pending
  | .createBid _ _, _ => false
  | _, o => o.writes

theorem Operation.changes_writes {op : Operation} {o : Op} (h : op.changes o = true) :
    o.writes = true := by
  cases op with
  | createBid cfg body => cases o <;> first | rfl | cases h
  | _ => exact h

/-! ## An operation by itself -/

/-- A query that was carried out, and whether it took effect. -/
structure Query where
  done : Done Op Reply
  applied : Bool

/-- Run a program with one outcome for each query, until it returns or the outcomes are used up:
there it crashes. Returned are the queries, newest first, and what is left of the program. -/
def alone : List Outcome → Prog Op Reply Unit → Store → List Query →
    List Query × Prog Op Reply Unit
  | [], p, _, l => (l, p)
  | _ :: _, .ret a, _, l => (l, .ret a)
  | c :: cs, .await o k, m, l =>
      match exec o c m with
      | some (r, m') => alone cs (k r) m' (⟨⟨o, r⟩, c.fault.applies⟩ :: l)
      | none => alone cs (.await o k) m l

def crashed : Prog Op Reply Unit → Bool
  | .ret _ => false
  | .await _ _ => true

/-- The state change was carried out. -/
def Changed (chg : Op → Bool) (l : List Query) : Prop :=
  ∃ q ∈ l, chg q.done.op = true ∧ q.applied = true

instance (chg : Op → Bool) (l : List Query) : Decidable (Changed chg l) :=
  inferInstanceAs (Decidable (∃ q ∈ l, _))

/-- The event was stored. -/
def Announced (l : List Query) : Prop := ∃ q ∈ l, q.done.op.inserts = true ∧ q.applied = true

instance (l : List Query) : Decidable (Announced l) :=
  inferInstanceAs (Decidable (∃ q ∈ l, _))

/-- The query fails. Nobody is told if the publication of a task on the bus does. -/
def fails (d : Done Op Reply) : Bool :=
  match d.op, d.reply with
  | .publishTask _, _ => false
  | _, .error _ => true
  | _, .ok _ => false

/-- The queries up to a point where the operation is cut off: a query fails, or it crashes. -/
inductive CutOff (l : List Query) (rest : Prog Op Reply Unit) : List Query → Prop
  | failed (q : Query) (l' : List Query) (past : q :: l' <:+ l) (fails : fails q.done = true) :
      CutOff l rest (q :: l')
  | crashed (crash : crashed rest = true) : CutOff l rest l

/-- The state change was carried out and the event is not stored yet. -/
def InGap (chg : Op → Bool) (l : List Query) : Prop := Changed chg l ∧ ¬ Announced l

/-! ## Stages of an operation -/

inductive Stage where
  | clean | changed | told | torn
  deriving DecidableEq, Repr

/-- What a query and its reply mean for the stage. -/
def Stage.next (chg : Op → Bool) (d : Done Op Reply) : Stage → Stage
  | .clean => if chg d.op then if fails d then .torn else .changed else .clean
  | .changed => if fails d then .torn else if d.op.inserts then .told else .changed
  | .told => .told
  | .torn => .torn

def stage (chg : Op → Bool) : Hist → Stage
  | [] => .clean
  | d :: h => (stage chg h).next chg d

/-- An event is inserted right after the change, and once torn, nothing is written. -/
def Staged (chg : Op → Bool) (h : Hist) (o : Op) : Prop :=
  (o.inserts = true → stage chg h = .changed) ∧ (chg o = true → stage chg h ≠ .torn)

/-- A result that was just written was not found. -/
def ResultLost (h : Hist) : Prop :=
  ∃ taskId payload hash h', h = ⟨.findResult taskId, .ok none⟩ ::
    ⟨.upsertResult taskId payload hash, .ok ()⟩ :: h'

/-- The operation does not end between the change and the event of its own accord. -/
def Finished (chg : Op → Bool) (h : Hist) : Prop := stage chg h ≠ .changed ∨ ResultLost h

section

variable {chg : Op → Bool} {h : Hist}

theorem stage_told {h' : Hist} (hs : stage chg h = .told) (hsuffix : h <:+ h') :
    stage chg h' = .told := by
  obtain ⟨l, rfl⟩ := hsuffix
  induction l with
  | nil => exact hs
  | cons d l ih =>
      rw [List.cons_append, stage, ih]
      rfl

/-- Emitting an event after the change. -/
theorem emit_staged (hchg : ∀ o, chg o = true → o.writes = true) {type aggregateType aggregateId : String}
    {payload : Json} (hs : stage chg h = .changed) :
    Ensures (Staged chg) (fun h r => match r with
      | .ok _ => stage chg h = .told
      | .error _ => stage chg h = .torn) (emit type aggregateType aggregateId payload) h := by
  have hno : ∀ o : Op, o.writes = false → chg o = false := fun o ho =>
    Bool.eq_false_iff.mpr fun hc => by rw [hchg o hc] at ho; cases ho
  unfold emit
  rw [ensures_call_bind]
  refine ⟨⟨nofun, fun hc => ?_⟩, ?_, ?_⟩
  · rw [hno _ rfl] at hc
    cases hc
  -- the row of the event follows its id
  · intro id
    have hid : stage chg (⟨.randomUUID, .ok id⟩ :: h) = .changed := by
      simp [stage, hs, Stage.next, fails, Op.inserts]
    refine ⟨⟨fun _ => hid, fun hc => ?_⟩, ?_⟩
    · rw [hno _ rfl] at hc
      cases hc
    · rintro (e | u)
      · show stage chg _ = .torn
        rw [stage, hid]
        rfl
      · show stage chg _ = .told
        rw [stage, hid]
        rfl
  · intro e
    show stage chg _ = .torn
    rw [stage, hs]
    rfl

end

/-! ## What the stage tells -/

def past (l : List Query) : Hist := l.map Query.done

/-- No query so far failed in the gap. -/
def Uncut (chg : Op → Bool) (l : List Query) : Prop :=
  ∀ q l', q :: l' <:+ l → fails q.done = true → ¬ InGap chg (q :: l')

/-- The stage tells which of the two writes were carried out. A torn operation has written
neither, or failed in the gap, or has written both. -/
def Scanned (chg : Op → Bool) (l : List Query) : Prop :=
  match stage chg (past l) with
  | .clean => ¬ Changed chg l ∧ ¬ Announced l ∧ Uncut chg l
  | .changed => Changed chg l ∧ ¬ Announced l ∧ Uncut chg l
  | .told => Changed chg l ∧ Announced l ∧ Uncut chg l
  | .torn => (Changed chg l ↔ Announced l) ↔ Uncut chg l

section

variable {chg : Op → Bool} {q : Query} {l : List Query}

theorem changed_cons : Changed chg (q :: l) ↔
    (chg q.done.op = true ∧ q.applied = true) ∨ Changed chg l := by
  simp [Changed]

theorem announced_cons : Announced (q :: l) ↔
    (q.done.op.inserts = true ∧ q.applied = true) ∨ Announced l := by
  simp [Announced]

theorem uncut_cons : Uncut chg (q :: l) ↔
    (fails q.done = true → ¬ InGap chg (q :: l)) ∧ Uncut chg l := by
  refine ⟨fun h => ⟨h q l List.suffix_rfl, fun q' l' hs => h q' l' (hs.trans (List.suffix_cons _ _))⟩,
    ?_⟩
  rintro ⟨hq, hl⟩ q' l' hs
  rcases List.suffix_cons_iff.mp hs with heq | hs
  · cases heq
    exact hq
  · exact hl q' l' hs

theorem scanned_nil : Scanned chg [] := by
  refine ⟨?_, ?_, ?_⟩
  · rintro ⟨_, hq, -⟩
    cases hq
  · rintro ⟨_, hq, -⟩
    cases hq
  · intro q l hs
    cases List.suffix_nil.mp hs

theorem inserts_not_writes {o : Op} (h : o.inserts = true) : o.writes = false := by
  cases o <;> first | rfl | cases h

/-- **One query.** It took effect if its reply says so. -/
theorem Scanned.cons (hchg : ∀ o, chg o = true → o.writes = true) (h : Scanned chg l)
    (hstaged : Staged chg (past l) q.done.op)
    (happlied : fails q.done = false → q.done.op.writes = true ∨ q.done.op.inserts = true →
      q.applied = true) : Scanned chg (q :: l) := by
  have hpast : stage chg (past (q :: l)) = (stage chg (past l)).next chg q.done := rfl
  have hno : q.done.op.inserts = true → chg q.done.op = false := fun hi =>
    Bool.eq_false_iff.mpr fun hc => by
      have := hchg _ hc
      rw [inserts_not_writes hi] at this
      cases this
  unfold Scanned at h ⊢
  rw [hpast]
  cases hs : stage chg (past l) with
  | clean =>
      rw [hs] at h
      obtain ⟨hnc, hna, hun⟩ := h
      have hins : q.done.op.inserts = false :=
        Bool.eq_false_iff.mpr fun hi => by cases hs.symm.trans (hstaged.1 hi)
      have hna' : ¬ Announced (q :: l) := by simp [announced_cons, hins, hna]
      cases hc : chg q.done.op with
      | false =>
          have hnc' : ¬ Changed chg (q :: l) := by simp [changed_cons, hc, hnc]
          simp only [Stage.next, hc, Bool.false_eq_true, if_false]
          exact ⟨hnc', hna', uncut_cons.mpr ⟨fun _ hg => hnc' hg.1, hun⟩⟩
      | true =>
          cases hf : fails q.done with
          | false =>
              simp only [Stage.next, hc, hf, Bool.false_eq_true, if_true, if_false]
              refine ⟨changed_cons.mpr (.inl ⟨hc, happlied hf (.inl (hchg _ hc))⟩), hna', ?_⟩
              exact uncut_cons.mpr ⟨fun hf' => absurd (hf.symm.trans hf') Bool.false_ne_true, hun⟩
          | true =>
              simp only [Stage.next, hc, hf, if_true]
              -- a change that fails was carried out or not: in the gap, or nothing happened
              rw [uncut_cons]
              refine ⟨fun hiff => ⟨fun _ hg => hg.2 (hiff.mp hg.1), hun⟩, fun hcut => ?_⟩
              refine iff_of_false (fun hch => hcut.1 hf ⟨hch, hna'⟩) hna'
  | changed =>
      rw [hs] at h
      obtain ⟨hch, hna, hun⟩ := h
      have hch' : Changed chg (q :: l) := changed_cons.mpr (.inr hch)
      cases hf : fails q.done with
      | true =>
          simp only [Stage.next, hf, if_true]
          rw [uncut_cons]
          refine ⟨fun hiff => ⟨fun _ hg => hg.2 (hiff.mp hg.1), hun⟩, fun hcut => ?_⟩
          exact iff_of_true hch' (by_contra fun hna' => hcut.1 hf ⟨hch', hna'⟩)
      | false =>
          have hun' : Uncut chg (q :: l) :=
            uncut_cons.mpr ⟨fun hf' => absurd (hf.symm.trans hf') Bool.false_ne_true, hun⟩
          cases hi : q.done.op.inserts with
          | true =>
              simp only [Stage.next, hf, hi, Bool.false_eq_true, if_true, if_false]
              exact ⟨hch', announced_cons.mpr (.inl ⟨hi, happlied hf (.inr hi)⟩), hun'⟩
          | false =>
              simp only [Stage.next, hf, hi, Bool.false_eq_true, if_false]
              exact ⟨hch', by simp [announced_cons, hi, hna], hun'⟩
  | told =>
      rw [hs] at h
      obtain ⟨hch, han, hun⟩ := h
      have han' : Announced (q :: l) := announced_cons.mpr (.inr han)
      exact ⟨changed_cons.mpr (.inr hch), han', uncut_cons.mpr ⟨fun _ hg => hg.2 han', hun⟩⟩
  | torn =>
      rw [hs] at h
      change (Changed chg l ↔ Announced l) ↔ Uncut chg l at h
      have hins : q.done.op.inserts = false :=
        Bool.eq_false_iff.mpr fun hi => by cases hs.symm.trans (hstaged.1 hi)
      have hc : chg q.done.op = false := Bool.eq_false_iff.mpr fun hc => hstaged.2 hc hs
      have hch : Changed chg (q :: l) ↔ Changed chg l := by simp [changed_cons, hc]
      have han : Announced (q :: l) ↔ Announced l := by simp [announced_cons, hins]
      show (Changed chg (q :: l) ↔ Announced (q :: l)) ↔ Uncut chg (q :: l)
      rw [uncut_cons, hch, han, InGap, hch, han, h]
      refine ⟨fun hun => ⟨fun _ hg => hg.2 ((h.mpr hun).mp hg.1), hun⟩, And.right⟩

end

/-- A query that failed nowhere took effect. -/
theorem applied_of_not_fails {o : Op} {c : Outcome} {m m' : Store} {r : Reply o}
    (hx : exec o c m = some (r, m')) (hf : fails ⟨o, r⟩ = false)
    (ho : o.writes = true ∨ o.inserts = true) : c.fault.applies = true := by
  rcases exec_cases hx with ⟨-, -, e, rfl⟩ | ⟨happ, -⟩
  · cases o with
    | publishTask task => rcases ho with ho | ho <;> cases ho
    | _ => cases hf
  · exact happ

/-- A result that was just written is found. -/
structure Found (m : Store) (l : List Query) : Prop where
  kept : ∀ taskId payload hash h, past l = ⟨.upsertResult taskId payload hash, .ok ()⟩ :: h →
    m.findResult taskId ≠ none
  found : ¬ ResultLost (past l)

theorem Found.initial (m : Store) : Found m [] := by
  refine ⟨?_, ?_⟩
  · intro _ _ _ _ heq
    cases heq
  · rintro ⟨_, _, _, _, heq⟩
    cases heq

theorem Found.cons {o : Op} {c : Outcome} {m m' : Store} {r : Reply o} {l : List Query}
    (h : Found m l) (hx : exec o c m = some (r, m')) :
    Found m' (⟨⟨o, r⟩, c.fault.applies⟩ :: l) := by
  refine ⟨?_, ?_⟩
  · intro taskId payload hash h' heq
    simp only [past, List.map_cons, List.cons.injEq] at heq
    obtain ⟨heq, -⟩ := heq
    cases heq
    cases exec_ok hx
    unfold Store.upsertResult Store.findResult
    rw [find?_upsert fun old new => by cases m.backend <;> rfl, if_pos rfl]
    exact Option.some_ne_none _
  · rintro ⟨taskId, payload, hash, h', heq⟩
    simp only [past, List.map_cons, List.cons.injEq] at heq
    obtain ⟨heq, hl⟩ := heq
    cases heq
    have hnone : m.findResult taskId = none :=
      Option.some.inj (congrArg (Option.map Prod.fst) (exec_ok hx))
    exact h.kept taskId payload hash h' hl hnone

/-- **A run of an operation.** -/
theorem alone_scanned {chg : Op → Bool} (hchg : ∀ o, chg o = true → o.writes = true)
    (cs : List Outcome) : ∀ (p : Prog Op Reply Unit) (m : Store) (l : List Query),
      Follows (Staged chg) (fun h _ => Finished chg h) p (past l) → Scanned chg l → Found m l →
      Scanned chg (alone cs p m l).1 ∧
        (crashed (alone cs p m l).2 = false → stage chg (past (alone cs p m l).1) ≠ .changed) := by
  induction cs with
  | nil =>
      intro p m l hp hs hf
      refine ⟨hs, fun hcrash => ?_⟩
      cases p with
      | ret a => exact hp.resolve_right hf.found
      | await o k => cases hcrash
  | cons c cs ih =>
      intro p m l hp hs hf
      cases p with
      | ret a => exact ⟨hs, fun _ => hp.resolve_right hf.found⟩
      | await o k =>
          unfold alone
          cases hx : exec o c m with
          | none => exact ih (.await o k) m l hp hs hf
          -- the stage after the call says what the list of queries says
          | some rm =>
              obtain ⟨r, m'⟩ := rm
              refine ih (k r) m' _ (hp.2 r) ?_ (hf.cons hx)
              exact hs.cons hchg hp.1 (applied_of_not_fails hx)

/-! ## The programs -/

section

variable {chg : Op → Bool} {h : Hist} {α : Type}

/-- Continued from `h`, the program keeps to the stages and finishes. -/
def Keeps (chg : Op → Bool) (x : Js α) (h : Hist) : Prop :=
  Ensures (Staged chg) (fun h _ => Finished chg h) x h

theorem finished_of_eq {s : Stage} (hs : stage chg h = s) (hne : s ≠ .changed) : Finished chg h :=
  .inl (hs ▸ hne)

/-- A query before the change that is no write leaves the operation clean, whatever is replied. -/
theorem clean_cons (hs : stage chg h = .clean) {o : Op} (ho : chg o = false) (r : Reply o) :
    stage chg (⟨o, r⟩ :: h) = .clean := by
  rw [stage, hs, Stage.next, ho]
  rfl

theorem staged_read {o : Op} (ho : chg o = false) (hi : o.inserts = false) : Staged chg h o :=
  ⟨fun h => absurd (hi.symm.trans h) Bool.false_ne_true,
    fun h => absurd (ho.symm.trans h) Bool.false_ne_true⟩

theorem keeps_read {o : Op} {f : Value o → Js α} (hs : stage chg h = .clean) (ho : chg o = false)
    (hi : o.inserts = false)
    (hf : ∀ v, stage chg (⟨o, .ok v⟩ :: h) = .clean → Keeps chg (f v) (⟨o, .ok v⟩ :: h)) :
    Keeps chg (await o >>= f) h := by
  unfold Keeps
  rw [ensures_call_bind]
  refine ⟨staged_read ho hi, fun v => hf v (clean_cons hs ho _), fun e => ?_⟩
  exact finished_of_eq (clean_cons hs ho _) (by decide)

theorem keeps_attempt {o : Op} {f : Except JsError (Value o) → Js α} (hs : stage chg h = .clean)
    (ho : chg o = false) (hi : o.inserts = false)
    (hf : ∀ r, stage chg (⟨o, r⟩ :: h) = .clean → Keeps chg (f r) (⟨o, r⟩ :: h)) :
    Keeps chg (attempt (await o) >>= f) h := by
  unfold Keeps
  rw [ensures_attempt_call_bind]
  exact ⟨staged_read ho hi, fun r => hf r (clean_cons hs ho _)⟩

/-- A write of the change, the first one or another one. -/
theorem write_cons (hs : stage chg h = .clean ∨ stage chg h = .changed) {o : Op}
    (ho : chg o = true) (hw : o.writes = true) :
    (∀ v, stage chg (⟨o, .ok v⟩ :: h) = .changed) ∧
      ∀ e, stage chg (⟨o, .error e⟩ :: h) = .torn := by
  have hok : ∀ v, fails ⟨o, .ok v⟩ = false := fun v => by cases o <;> rfl
  have herror : ∀ e, fails ⟨o, .error e⟩ = true := fun e => by cases o <;> first | rfl | cases hw
  have hi : o.inserts = false := by cases o <;> first | rfl | cases hw
  refine ⟨fun v => ?_, fun e => ?_⟩ <;> rcases hs with hs | hs <;>
    simp [stage, hs, Stage.next, ho, hok, herror, hi]

theorem staged_write (hs : stage chg h = .clean ∨ stage chg h = .changed) {o : Op}
    (hw : o.writes = true) : Staged chg h o := by
  refine ⟨fun hi => absurd (inserts_not_writes hi) (by simp [hw]), fun _ => ?_⟩
  rcases hs with hs | hs <;> simp [hs]

theorem keeps_write {o : Op} {f : Value o → Js α}
    (hs : stage chg h = .clean ∨ stage chg h = .changed) (ho : chg o = true) (hw : o.writes = true)
    (hf : ∀ v, stage chg (⟨o, .ok v⟩ :: h) = .changed → Keeps chg (f v) (⟨o, .ok v⟩ :: h)) :
    Keeps chg (await o >>= f) h := by
  obtain ⟨hok, herror⟩ := write_cons hs ho hw
  unfold Keeps
  rw [ensures_call_bind]
  refine ⟨staged_write hs hw, fun v => hf v (hok v), fun e => ?_⟩
  exact finished_of_eq (herror e) (by decide)

theorem keeps_emit (hchg : ∀ o, chg o = true → o.writes = true)
    {type aggregateType aggregateId : String} {payload : Json} {f : Unit → Js α}
    (hs : stage chg h = .changed) (hf : ∀ h, stage chg h = .told → Keeps chg (f ()) h) :
    Keeps chg (emit type aggregateType aggregateId payload >>= f) h := by
  unfold Keeps
  rw [ensures_bind]
  refine (emit_staged hchg hs).mono (fun _ _ hp => hp) ?_
  rintro h (e | u) hr
  · exact finished_of_eq hr (by decide)
  · exact hf h hr

theorem keeps_pure {a : α} {s : Stage} (hs : stage chg h = s) (hne : s ≠ .changed) :
    Keeps chg (pure a) h := finished_of_eq hs hne

end

section

variable {h : Hist}

theorem saveAndPublish_keeps (cfg : Settings) (requester reservePrice description : String)
    (deadline : Nat) (hs : stage Op.writes h = .clean) :
    Keeps Op.writes
      (saveAndPublish (withOutbox cfg) requester reservePrice description deadline) h := by
  unfold saveAndPublish
  cases parseUsdcDecimalToStroops reservePrice with
  | error e => exact finished_of_eq hs (by decide)
  | ok reservePriceStroops =>
      refine keeps_read hs rfl rfl fun id hid => ?_
      refine keeps_write (.inl hid) rfl rfl fun u hsave => ?_
      unfold Keeps
      rw [ensures_attempt_call_bind]
      refine ⟨staged_read rfl rfl, fun r => ?_⟩
      -- nobody is told if the publication on the bus fails
      refine keeps_emit (fun _ ho => ho) ?_ fun h htold => keeps_pure htold (by decide)
      rw [stage, hsave]
      rfl

theorem createTask_keeps (cfg : Settings) (body : Parsed CreateTaskBody) :
    Keeps Op.writes (createTask (withOutbox cfg) body) [] := by
  unfold createTask
  split_ifs
  · exact keeps_pure rfl (by decide)
  cases body with
  | error detail => exact keeps_pure rfl (by decide)
  | ok b =>
      dsimp only
      cases parseUsdcDecimalToStroops b.reservePrice with
      | error e => exact keeps_pure rfl (by decide)
      | ok reservePriceStroops =>
          cases (withOutbox cfg).publicKeyOf b.secret with
          | none => exact keeps_pure rfl (by decide)
          | some key =>
              dsimp only
              split_ifs
              · exact keeps_pure rfl (by decide)
              · refine keeps_attempt rfl rfl rfl fun r hs => ?_
                rcases r with e | u
                · cases e <;> exact keeps_pure hs (by decide)
                · dsimp only
                  unfold Keeps
                  rw [ensures_bind]
                  refine (saveAndPublish_keeps cfg _ _ _ _ hs).mono (fun _ _ hp => hp) ?_
                  rintro _ (e | task) hf <;> exact hf

theorem createPaid_keeps (cfg : Settings) (body : Parsed CreateTaskBody) :
    Keeps Op.writes (createPaid (withOutbox cfg) body) [] := by
  unfold createPaid
  split_ifs
  · exact keeps_pure rfl (by decide)
  cases body with
  | error detail => exact keeps_pure rfl (by decide)
  | ok b =>
      dsimp only
      unfold Keeps
      rw [ensures_bind]
      refine (saveAndPublish_keeps cfg _ _ _ _ rfl).mono (fun _ _ hp => hp) ?_
      rintro _ (e | task) hf <;> exact hf

theorem selectWinner_keeps (taskId : String) (hs : stage Op.writes h = .clean) :
    Ensures (Staged Op.writes) (fun h r => match r with
      | .ok _ => stage Op.writes h = .changed
      | .error _ => Finished Op.writes h) (selectWinner taskId) h := by
  have clean : ∀ {h : Hist}, stage Op.writes h = .clean → Finished Op.writes h :=
    fun hs => finished_of_eq hs (by decide)
  have torn : ∀ {h : Hist}, stage Op.writes h = .torn → Finished Op.writes h :=
    fun hs => finished_of_eq hs (by decide)
  unfold selectWinner
  rw [ensures_call_bind]
  refine ⟨staged_read rfl rfl, ?_, fun e => clean (clean_cons hs rfl _)⟩
  rintro (_ | task)
  · exact clean (clean_cons hs rfl _)
  dsimp only
  split_ifs
  · exact clean (clean_cons hs rfl _)
  have hfind := clean_cons hs (o := .findTask taskId) rfl (.ok (some task))
  rw [ensures_call_bind]
  refine ⟨staged_read rfl rfl, ?_, fun e => clean (clean_cons hfind rfl _)⟩
  intro bids
  have hbids := clean_cons hfind (o := .findBids taskId) rfl (.ok bids)
  cases pendingBids bids with
  | nil => exact clean hbids
  | cons first rest =>
      dsimp only
      obtain ⟨hok, herror⟩ := write_cons (.inl hbids)
        (o := .saveTask { task with status := .assigned }) rfl rfl
      rw [ensures_call_bind]
      refine ⟨staged_write (.inl hbids) rfl, fun u => ?_, fun e => torn (herror e)⟩
      obtain ⟨hok', herror'⟩ := write_cons (.inr (hok u))
        (o := .saveBid { lowestBid first rest with status := .selected }) rfl rfl
      rw [ensures_call_bind]
      refine ⟨staged_write (.inr (hok u)) rfl, fun u' => ?_, fun e => torn (herror' e)⟩
      rw [ensures_bind]
      -- the rejections are further changes of rows, all before the event
      refine ensures_forEach (fun _ h => stage Op.writes h = .changed) ?_ (fun _ hs => hs) _ _
        (hok' u')
      intro bid rest h hs
      dsimp only
      split_ifs
      · obtain ⟨hok, herror⟩ := write_cons (.inr hs)
          (o := .saveBid { bid with status := .rejected }) rfl rfl
        refine ⟨staged_write (.inr hs) rfl, ?_⟩
        rintro (e | u)
        · exact torn (herror e)
        · exact hok u
      · exact hs

theorem select_keeps (cfg : Settings) (taskId : String) :
    Keeps Op.writes (select (withOutbox cfg) taskId) [] := by
  unfold select Keeps
  rw [ensures_attempt_bind, ensures_bind]
  refine (selectWinner_keeps taskId rfl).mono (fun _ _ hp => hp) ?_
  rintro h (e | r) hs
  · exact hs
  · dsimp only at hs ⊢
    rw [ensures_bind]
    refine (emit_staged (fun _ ho => ho) hs).mono (fun _ _ hp => hp) ?_
    rintro h (e | u) hr <;> exact finished_of_eq hr (by decide)

theorem complete_keeps (cfg : Settings) (taskId : String) (body : Parsed CompleteBody) :
    Keeps Op.writes (complete (withOutbox cfg) taskId body) [] := by
  unfold complete
  cases completeRequester (withOutbox cfg) body with
  | error response => exact keeps_pure rfl (by decide)
  | ok requester =>
      refine keeps_read rfl rfl rfl fun task hs => ?_
      cases task with
      | none => exact keeps_pure hs (by decide)
      | some task =>
          dsimp only
          split_ifs
          any_goals exact keeps_pure hs (by decide)
          refine keeps_read hs rfl rfl fun bids hs => ?_
          cases winningBid bids with
          | none => exact keeps_pure hs (by decide)
          | some winner =>
              dsimp only
              split_ifs
              · exact keeps_pure hs (by decide)
              · refine keeps_write (.inl hs) rfl rfl fun u hs => ?_
                exact keeps_emit (fun _ ho => ho) hs fun h htold => keeps_pure htold (by decide)

theorem publishResult_keeps (cfg : Settings) (taskId : String) (key : Option String)
    (payload : Option Json) :
    Keeps Op.writes (publishResult (withOutbox cfg) taskId key payload) [] := by
  unfold publishResult
  refine keeps_read rfl rfl rfl fun task hs => ?_
  cases task with
  | none => exact keeps_pure hs (by decide)
  | some task =>
      dsimp only
      split_ifs
      · exact keeps_pure hs (by decide)
      refine keeps_read hs rfl rfl fun bids hs => ?_
      cases winningBid bids with
      | none => exact keeps_pure hs (by decide)
      | some selectedBid =>
          cases key with
          | none => exact keeps_pure hs (by decide)
          | some executor =>
              dsimp only
              split_ifs
              · exact keeps_pure hs (by decide)
              cases payload with
              | none => exact keeps_pure hs (by decide)
              | some payload =>
                  dsimp only
                  unfold publishPayload Keeps
                  obtain ⟨hok, herror⟩ := write_cons (.inl hs) (o := .upsertResult taskId payload
                    ((withOutbox cfg).payloadHash payload)) rfl rfl
                  rw [ensures_bind, ensures_call_bind]
                  refine ⟨staged_write (.inl hs) rfl, fun u => ?_, fun e =>
                    finished_of_eq (herror e) (by decide)⟩
                  rw [ensures_call_bind]
                  refine ⟨staged_read rfl rfl, fun stored => ?_, fun e => ?_⟩
                  · cases stored with
                    | none => exact .inr ⟨taskId, payload, _, _, rfl⟩
                    | some stored =>
                        refine keeps_emit (fun _ ho => ho) ?_ fun h htold =>
                          keeps_pure htold (by decide)
                        rw [stage, hok u]
                        rfl
                  · refine finished_of_eq (s := .torn) ?_ (by decide)
                    rw [stage, hok u]
                    rfl

theorem expireTask_keeps (cfg : Settings) (task : Task) :
    Keeps Op.writes (expireTask (withOutbox cfg) task) [] := by
  unfold expireTask
  refine keeps_read rfl rfl rfl fun bids hs => ?_
  cases winningBid bids with
  | none => exact keeps_pure hs (by decide)
  | some winner =>
      refine keeps_attempt hs rfl rfl fun r hs => ?_
      cases r with
      | error e => exact keeps_pure hs (by decide)
      | ok result =>
          refine keeps_write (.inl hs) rfl rfl fun u hs => ?_
          exact keeps_emit (fun _ ho => ho) hs fun h htold => keeps_pure htold (by decide)

theorem handleTaskCompletionRequested_keeps (eventId : String) (payload : Json) :
    Keeps Op.writes (handleTaskCompletionRequested eventId payload) [] := by
  unfold handleTaskCompletionRequested
  split_ifs
  · exact finished_of_eq rfl (by decide)
  dsimp only
  split_ifs
  · exact finished_of_eq rfl (by decide)
  refine keeps_read rfl rfl rfl fun task hs => ?_
  cases task with
  | none => exact finished_of_eq hs (by decide)
  | some task =>
      dsimp only
      split_ifs
      · exact keeps_pure hs (by decide)
      · exact finished_of_eq hs (by decide)
      refine keeps_read hs rfl rfl fun bids hs => ?_
      cases winningBid bids with
      | none => exact finished_of_eq hs (by decide)
      | some winner =>
          refine keeps_read hs rfl rfl fun release hs => ?_
          refine keeps_write (.inl hs) rfl rfl fun u hs => ?_
          refine (emit_staged (fun _ ho => ho) hs).mono (fun _ _ hp => hp) ?_
          rintro h (e | u) hr <;> exact finished_of_eq hr (by decide)

/-- A bid request announces the bid before it selects a winner. -/
theorem placeBid_keeps (cfg : Settings) (b : CreateBidBody) (escrowId : String) {op : Operation}
    (hop : op = .createBid cfg (.ok b)) (hs : stage op.changes h = .clean) :
    Keeps op.changes (placeBid (withOutbox cfg) b escrowId) h := by
  have hwrites : ∀ o, op.changes o = true → o.writes = true := fun _ => Operation.changes_writes
  unfold placeBid
  cases parseUsdcDecimalToStroops b.amount with
  | error e => exact keeps_pure hs (by decide)
  | ok amountStroops =>
      cases parseUsdcDecimalToStroops b.collateral with
      | error e => exact keeps_pure hs (by decide)
      | ok collateralStroops =>
          subst hop
          refine keeps_read hs rfl rfl fun id hs => ?_
          refine keeps_read hs rfl rfl fun createdAt hs => ?_
          refine keeps_write (.inl hs) rfl rfl fun u hs => ?_
          refine keeps_emit hwrites hs fun h htold => ?_
          unfold Keeps
          rw [ensures_attempt_bind]
          refine (selectWinner_calls b.taskId h).grows.mono ?_ ?_
          · rintro h' o ⟨hc, hsuffix⟩
            have htold' := stage_told htold hsuffix
            refine ⟨fun hi => ?_, fun _ => by rw [htold']; decide⟩
            cases hc <;> cases hi
          · rintro h' r ⟨-, hsuffix⟩
            exact finished_of_eq (stage_told htold hsuffix) (by decide)

theorem createBid_keeps (cfg : Settings) (body : Parsed CreateBidBody) :
    Keeps (Operation.createBid cfg body).changes (createBid (withOutbox cfg) body) [] := by
  unfold createBid
  split_ifs
  · exact keeps_pure (s := .clean) rfl (by decide)
  cases body with
  | error detail => exact keeps_pure (s := .clean) rfl (by decide)
  | ok b =>
      dsimp only
      cases bidSecretError (withOutbox cfg) b with
      | some response => exact keeps_pure (s := .clean) rfl (by decide)
      | none =>
          dsimp only
          split_ifs
          · exact keeps_pure (s := .clean) rfl (by decide)
          refine keeps_read rfl rfl rfl fun task hs => ?_
          cases task with
          | none => exact keeps_pure hs (by decide)
          | some task =>
              dsimp only
              split_ifs
              · exact keeps_pure hs (by decide)
              unfold Keeps
              rw [ensures_attempt_bind]
              have hreg := fun r => clean_cons hs (o := .isRegistered b.executor) rfl r
              refine authorizeExecutorPayment_calls _ (staged_read rfl rfl) ?_ ?_
              · refine keeps_attempt (hreg _) rfl rfl fun r hs => ?_
                cases r with
                | error e => exact keeps_pure hs (by decide)
                | ok escrowId => exact placeBid_keeps cfg b escrowId rfl hs
              · rintro r e
                cases e <;> exact keeps_pure (hreg r) (by decide)

end

/-! ## The gap -/

theorem Operation.keeps (op : Operation) :
    Follows (Staged op.changes) (fun h _ => Finished op.changes h) op.body [] := by
  cases op with
  | createTask cfg body => exact toEnd_follows (createTask_keeps cfg body)
  | createPaid cfg body => exact toEnd_follows (createPaid_keeps cfg body)
  | select cfg taskId => exact toEnd_follows (select_keeps cfg taskId)
  | complete cfg taskId body => exact toEnd_follows (complete_keeps cfg taskId body)
  | createBid cfg body => exact toEnd_follows (createBid_keeps cfg body)
  | publishResult cfg taskId key payload =>
      exact toEnd_follows (publishResult_keeps cfg taskId key payload)
  | expireTask cfg task => exact toEnd_follows (expireTask_keeps cfg task)
  | handleTaskCompletionRequested eventId payload =>
      exact toEnd_follows (handleTaskCompletionRequested_keeps eventId payload)

/-- **When an operation and its event go together.** After an operation has ended, wherever it
failed or crashed, its state change and its event are both stored or neither is, if and only if
it was not cut off in the gap between them. -/
theorem announced_iff_not_cut (op : Operation) (m : Store) (cs : List Outcome) :
    let run := alone cs op.body m []
    (Changed op.changes run.1 ↔ Announced run.1) ↔
      ∀ cut, CutOff run.1 run.2 cut → ¬ InGap op.changes cut := by
  intro run
  obtain ⟨hscan, hfinished⟩ := alone_scanned (fun _ => Operation.changes_writes) cs op.body m []
    op.keeps scanned_nil (.initial m)
  change Scanned op.changes run.1 at hscan
  change crashed run.2 = false → stage op.changes (past run.1) ≠ .changed at hfinished
  have hcut : (∀ cut, CutOff run.1 run.2 cut → ¬ InGap op.changes cut) ↔
      Uncut op.changes run.1 ∧ (crashed run.2 = true → ¬ InGap op.changes run.1) := by
    refine ⟨fun h => ⟨fun q l hs hf => h _ (.failed q l hs hf), fun hc => h _ (.crashed hc)⟩, ?_⟩
    rintro ⟨huncut, hcrash⟩ cut (⟨q, l, hs, hf⟩ | hc)
    · exact huncut q l hs hf
    · exact hcrash hc
  rw [hcut]
  -- the stage that the run ends in decides both sides
  unfold Scanned at hscan
  cases hs : stage op.changes (past run.1) with
  | clean =>
      rw [hs] at hscan
      obtain ⟨hch, han, hun⟩ := hscan
      exact iff_of_true (iff_of_false hch han) ⟨hun, fun _ hg => hch hg.1⟩
  | changed =>
      rw [hs] at hscan
      obtain ⟨hch, han, -⟩ := hscan
      have hcrash : crashed run.2 = true :=
        Bool.of_not_eq_false fun hc => hfinished hc hs
      refine iff_of_false (fun hiff => han (hiff.mp hch)) ?_
      exact fun h => h.2 hcrash ⟨hch, han⟩
  | told =>
      rw [hs] at hscan
      obtain ⟨hch, han, hun⟩ := hscan
      exact iff_of_true (iff_of_true hch han) ⟨hun, fun _ hg => hg.2 han⟩
  | torn =>
      rw [hs] at hscan
      change (Changed op.changes run.1 ↔ Announced run.1) ↔ Uncut op.changes run.1 at hscan
      rw [hscan]
      refine ⟨fun hun => ⟨hun, fun _ hg => hg.2 ((hscan.mpr hun).mp hg.1)⟩, And.left⟩

/-- A completion that crashes after the save of the task: the event is never stored. -/
theorem crashed_completion_unannounced :
    let op : Operation := .complete {} "t" (.ok ⟨"R", ""⟩)
    let run := alone [{}, {}, {}] op.body lateStore []
    ¬ (Changed op.changes run.1 ↔ Announced run.1) := by
  decide +kernel

end TrustGate.Market
