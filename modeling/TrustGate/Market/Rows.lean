import TrustGate.Market.Effects

set_option autoImplicit false

/-! # The row of a handler and an event

All that the workers know about each other they know from the rows of `event_consumptions`. What one
call can do to the row of one handler and event is listed once, in `RowStep`. -/

namespace TrustGate.Market

open Resumption

/-! ## Rows -/

namespace EventConsumptionRecord

/-- The row that the first `tryStart` inserts. -/
def first (args : StartArgs) (now : Nat) : EventConsumptionRecord where
  handlerName := args.handlerName
  eventId := args.eventId
  streamEntryId := args.streamEntryId
  status := .processing
  attempts := 1
  lastError := none
  nextRetryAt := none
  createdAt := now
  updatedAt := now

/-- The row after another attempt was started. When its retry was due is kept. -/
def again (args : StartArgs) (now : Nat) (r : EventConsumptionRecord) : EventConsumptionRecord :=
  { r with
    status := .processing
    attempts := r.attempts + 1
    streamEntryId := args.streamEntryId.or r.streamEntryId
    updatedAt := now }

def succeed (now : Nat) (r : EventConsumptionRecord) : EventConsumptionRecord :=
  { r with status := .succeeded, lastError := none, nextRetryAt := none, updatedAt := now }

def fail (error : String) (nextRetryAt now : Nat) (r : EventConsumptionRecord) :
    EventConsumptionRecord :=
  { r with
    status := .failed
    lastError := some error
    nextRetryAt := some nextRetryAt
    updatedAt := now }

end EventConsumptionRecord

/-- The primary key of the row that a `tryStart` is about. -/
def StartArgs.key (args : StartArgs) : String × String := (args.handlerName, args.eventId)

namespace Store

/-- The row of the handler and event `x`. -/
def row (m : Store) (x : String × String) : Option EventConsumptionRecord :=
  m.findConsumption x.1 x.2

theorem findConsumption_update (m : Store) (h e h' e' : String)
    (f : EventConsumptionRecord → EventConsumptionRecord)
    (hf : ∀ r, (f r).handlerName = r.handlerName ∧ (f r).eventId = r.eventId) :
    (m.updateConsumption h e f).findConsumption h' e' =
      if (h', e') = (h, e) then (m.findConsumption h' e').map f else m.findConsumption h' e' := by
  -- the update keeps the key, so it is found where it was
  have hkey : ∀ r : EventConsumptionRecord,
      (if r.isFor h e then f r else r).isFor h' e' = r.isFor h' e' := by
    intro r
    split_ifs
    · simp [EventConsumptionRecord.isFor, hf]
    · rfl
  unfold updateConsumption findConsumption updateWhere
  rw [List.find?_map]
  simp only [Function.comp_def, hkey]
  cases hfind : m.consumptions.find? (·.isFor h' e') with
  | none => simp
  | some r =>
      have hr : r.handlerName = h' ∧ r.eventId = e' := by
        simpa [EventConsumptionRecord.isFor] using List.find?_some hfind
      rw [Option.map_some]
      split_ifs with hfor heq heq
      · rfl
      · refine absurd ?_ heq
        rw [← hr.1, ← hr.2]
        simpa [EventConsumptionRecord.isFor] using hfor
      · cases heq
        exact absurd (by simpa [EventConsumptionRecord.isFor] using hr) hfor
      · rfl

theorem findConsumption_append (m : Store) (row : EventConsumptionRecord) (h e : String) :
    { m with consumptions := m.consumptions ++ [row] }.findConsumption h e =
      (m.findConsumption h e).or (if row.isFor h e then some row else none) := by
  unfold findConsumption
  rw [List.find?_append]
  congr 1
  cases hr : row.isFor h e <;> simp [hr]

theorem row_update (m : Store) (h e : String) (f : EventConsumptionRecord → EventConsumptionRecord)
    (hf : ∀ r, (f r).handlerName = r.handlerName ∧ (f r).eventId = r.eventId)
    (x : String × String) :
    (m.updateConsumption h e f).row x = if x = (h, e) then (m.row x).map f else m.row x :=
  findConsumption_update m h e x.1 x.2 f hf

theorem row_markSucceeded (m : Store) (x : String × String) (now : Nat) :
    (m.markSucceeded x.1 x.2 now).row x = (m.row x).map (.succeed now) := by
  have hrow := m.row_update x.1 x.2 (.succeed now) (fun _ => ⟨rfl, rfl⟩) x
  rwa [if_pos rfl] at hrow

theorem row_markFailed (m : Store) (x : String × String) (error : String)
    (nextRetryAt now : Nat) : (m.markFailed x.1 x.2 error nextRetryAt now).row x =
      (m.row x).map (.fail error nextRetryAt now) := by
  have hrow := m.row_update x.1 x.2 (.fail error nextRetryAt now) (fun _ => ⟨rfl, rfl⟩) x
  rwa [if_pos rfl] at hrow

/-- **What `tryStart` does.** -/
theorem tryStart_cases (m : Store) (args : StartArgs) (now : Nat) :
    (m.row args.key = none ∧ m.tryStart args now = (⟨true, .first args now⟩,
      { m with consumptions := m.consumptions ++ [.first args now] })) ∨
    (∃ r, m.row args.key = some r ∧ refuses now args.maxAttempts r = true ∧
      m.tryStart args now = (⟨false, r⟩, m)) ∨
    ∃ r, m.row args.key = some r ∧ refuses now args.maxAttempts r = false ∧
      m.tryStart args now = (⟨true, r.again args now⟩,
        m.updateConsumption args.handlerName args.eventId fun r => r.again args now) := by
  unfold tryStart row StartArgs.key
  cases hfind : m.findConsumption args.handlerName args.eventId with
  | none => exact .inl ⟨rfl, rfl⟩
  | some r =>
      refine .inr ?_
      dsimp only
      cases href : refuses now args.maxAttempts r with
      | true => exact .inl ⟨r, rfl, href, by rw [if_pos rfl]⟩
      | false => exact .inr ⟨r, rfl, href, by rw [if_neg Bool.false_ne_true]; rfl⟩

/-- The first row of a handler and event. -/
theorem row_append (m : Store) (args : StartArgs) (now : Nat) (x : String × String) :
    { m with consumptions := m.consumptions ++ [EventConsumptionRecord.first args now] }.row x =
      (m.row x).or (if args.key = x then some (.first args now) else none) := by
  unfold row
  rw [findConsumption_append]
  congr 1
  refine if_congr ?_ rfl rfl
  obtain ⟨h, e⟩ := x
  unfold EventConsumptionRecord.isFor EventConsumptionRecord.first StartArgs.key
  rw [Bool.and_eq_true, decide_eq_true_eq, decide_eq_true_eq, Prod.mk.injEq]

end Store

/-! ## One call -/

/-- What a call, carried out as `c` says, can do to the row of `x`. -/
inductive RowStep (x : String × String) (c : Outcome) (m m' : Store) : Op → Prop
  | same (o : Op) (row : m'.row x = m.row x) : RowStep x c m m' o
  | first (args : StartArgs) (key : args.key = x) (absent : m.row x = none)
      (row : m'.row x = some (.first args c.now)) : RowStep x c m m' (.tryStart args)
  | again (args : StartArgs) (r : EventConsumptionRecord) (key : args.key = x)
      (found : m.row x = some r) (due : Store.refuses c.now args.maxAttempts r = false)
      (row : m'.row x = some (r.again args c.now)) : RowStep x c m m' (.tryStart args)
  | succeeded (row : m'.row x = (m.row x).map (.succeed c.now)) :
      RowStep x c m m' (.markSucceeded x.1 x.2)
  | failed (error : String) (nextRetryAt : Nat)
      (row : m'.row x = (m.row x).map (.fail error nextRetryAt c.now)) :
      RowStep x c m m' (.markFailed x.1 x.2 error nextRetryAt)

section

variable {o : Op} {c : Outcome} {m m' : Store} {r : Reply o}

theorem tryStart_rowStep (m : Store) (args : StartArgs) (c : Outcome) (x : String × String) :
    RowStep x c m (m.tryStart args c.now).2 (.tryStart args) := by
  by_cases hx : args.key = x
  · subst hx
    rcases m.tryStart_cases args c.now with ⟨hrow, heq⟩ | ⟨r, hrow, -, heq⟩ | ⟨r, hrow, hdue, heq⟩
    · refine .first args rfl hrow ?_
      rw [heq, Store.row_append, hrow, if_pos rfl]
      rfl
    · refine .same _ ?_
      rw [heq]
    · refine .again args r rfl hrow hdue ?_
      have hself : args.key = (args.handlerName, args.eventId) := rfl
      rw [heq, Store.row_update, if_pos hself, hrow]
      · rfl
      · exact fun _ => ⟨rfl, rfl⟩
  · refine .same _ ?_
    rcases m.tryStart_cases args c.now with ⟨-, heq⟩ | ⟨r, -, -, heq⟩ | ⟨r, -, -, heq⟩
    · rw [heq, Store.row_append, if_neg hx, Option.or_none]
    · rw [heq]
    · rw [heq, Store.row_update, if_neg fun h => hx h.symm]
      exact fun _ => ⟨rfl, rfl⟩

/-- **Every call is one of the list.** -/
theorem rowStep (hx : exec o c m = some (r, m')) (x : String × String) : RowStep x c m m' o := by
  rcases exec_cases hx with ⟨-, rfl, -⟩ | ⟨-, v, hp, -⟩
  · exact .same o rfl
  cases o with
  | tryStart args =>
      have hm : (m.tryStart args c.now).2 = m' := congrArg Prod.snd (Option.some.inj hp)
      rw [← hm]
      exact tryStart_rowStep m args c x
  | markSucceeded h e =>
      cases hp
      by_cases heq : x = (h, e)
      · subst heq
        exact .succeeded (m.row_markSucceeded (h, e) c.now)
      · refine .same _ ((m.row_update h e (.succeed c.now) ?_ x).trans (if_neg heq))
        exact fun _ => ⟨rfl, rfl⟩
  | markFailed h e error nextRetryAt =>
      cases hp
      by_cases heq : x = (h, e)
      · subst heq
        exact .failed error nextRetryAt (m.row_markFailed (h, e) error nextRetryAt c.now)
      · refine .same _ ((m.row_update h e (.fail error nextRetryAt c.now) ?_ x).trans (if_neg heq))
        exact fun _ => ⟨rfl, rfl⟩
  | _ =>
      refine .same _ ?_
      unfold Store.row Store.findConsumption
      rw [(perform_frame hp).consumptions (by simp) (by simp) (by simp)]

/-- An attempt that was started: the first one, or another one that was due. -/
theorem started_cases {args : StartArgs} {s : Started}
    (hx : exec (.tryStart args) c m = some (.ok s, m')) (hs : s.started = true) :
    m'.row args.key = some s.record ∧
      ((m.row args.key = none ∧ s.record = .first args c.now) ∨
        ∃ r, m.row args.key = some r ∧ Store.refuses c.now args.maxAttempts r = false ∧
          s.record = r.again args c.now) := by
  have hp : m.tryStart args c.now = (s, m') := Option.some.inj (exec_ok hx)
  rcases m.tryStart_cases args c.now with ⟨hrow, heq⟩ | ⟨r, hrow, -, heq⟩ | ⟨r, hrow, hdue, heq⟩
  · rw [hp] at heq
    cases heq
    refine ⟨?_, .inl ⟨hrow, rfl⟩⟩
    rw [Store.row_append, hrow, if_pos rfl]
    rfl
  -- refused, so not started
  · rw [hp] at heq
    cases heq
    cases hs
  · rw [hp] at heq
    cases heq
    refine ⟨?_, .inr ⟨r, hrow, hdue, rfl⟩⟩
    have hself : args.key = (args.handlerName, args.eventId) := rfl
    rw [Store.row_update, if_pos hself, hrow]
    · rfl
    · exact fun _ => ⟨rfl, rfl⟩

end

end TrustGate.Market
