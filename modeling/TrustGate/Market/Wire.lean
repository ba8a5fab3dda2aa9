import TrustGate.Market.JsonText
import TrustGate.Market.Published

set_option autoImplicit false

/-! # Events on the wire

`src/src/services/outboxPublisher.ts` writes an event as the fields of a stream entry, all of them
strings, and `src/src/services/eventConsumer.ts` reads entries out of an untyped reply. A due retry
reads the event from the outbox instead. All three ways end at the same handler (`Delivery`). -/

namespace TrustGate.Market

open Resumption

/-! ## Replies of the Redis client -/

/-- A value in a reply: an array, `null` or `undefined`, or another one by its text. -/
inductive Raw where
  | null
  | undefined
  | scalar (text : String)
  | arr (xs : List Raw)

mutual

/-- `String(x)`. -/
def Raw.text : Raw → String
  | .null => "null"
  | .undefined => "undefined"
  | .scalar text => text
  | .arr xs => ",".intercalate (joined xs)

/-- The items of an array, as `join` takes them. -/
def joined : List Raw → List String
  | [] => []
  | .null :: xs => "" :: joined xs
  | .undefined :: xs => "" :: joined xs
  | x :: xs => x.text :: joined xs

end

/-- `Record<string, string>`. -/
abbrev Fields := String → Option String

/-- `fields[key] = value`. A string is no prototype, so under that name nothing is kept. -/
def setField (fields : Fields) (key value : String) : Fields :=
  if key = "__proto__" then fields else Function.update fields key (some value)

structure WireEntry where
  id : String
  fields : Fields

/-- The loop over the pairs. -/
def readFields : List Raw → Fields → Fields
  | key :: value :: rest, fields => readFields rest (setField fields key.text value.text)
  | [key], fields => setField fields key.text Raw.undefined.text
  | [], fields => fields

def parseFields : Raw → Fields
  | .arr rawFields => readFields rawFields fun _ => none
  | _ => fun _ => none

/-- The loop of `parseEntries`. -/
def parseItems : List Raw → List WireEntry
  | [] => []
  | .arr (id :: rawFields :: _) :: rest => ⟨id.text, parseFields rawFields⟩ :: parseItems rest
  | _ :: rest => parseItems rest

def parseEntries : Raw → List WireEntry
  | .arr items => parseItems items
  | _ => []

/-- The entries in the reply to `XREADGROUP`. -/
def polledEntries : Raw → List WireEntry
  | .arr (.arr (_ :: raw :: _) :: _) => parseEntries raw
  | _ => []

/-- The entries in the reply to `XAUTOCLAIM`. -/
def claimedEntries : Raw → List WireEntry
  | .arr (_ :: raw :: _) => parseEntries raw
  | _ => []

/-! ## Well-shaped items -/

def Raw.items : Raw → List Raw
  | .arr items => items
  | _ => []

def Raw.wellShaped : Raw → Bool
  | .arr (_ :: _ :: _) => true
  | _ => false

/-- The entry of a well-shaped item. -/
def Decodes (item : Raw) (entry : WireEntry) : Prop :=
  ∃ id rawFields rest, item = .arr (id :: rawFields :: rest) ∧ entry.id = id.text ∧
    entry.fields = parseFields rawFields

/-- **One entry for each well-shaped item**, in order, whatever the others are. -/
theorem parseEntries_decodes (raw : Raw) :
    List.Forall₂ Decodes (raw.items.filter Raw.wellShaped) (parseEntries raw) := by
  cases raw with
  | arr items =>
      change List.Forall₂ Decodes (items.filter Raw.wellShaped) (parseItems items)
      induction items with
      | nil => exact .nil
      | cons item rest ih =>
          cases item with
          | arr xs =>
              rcases xs with _ | ⟨id, _ | ⟨rawFields, more⟩⟩
              · exact ih
              · exact ih
              · exact .cons ⟨id, rawFields, more, rfl, rfl, rfl⟩ ih
          | null => exact ih
          | undefined => exact ih
          | scalar text => exact ih
  | null => exact .nil
  | undefined => exact .nil
  | scalar text => exact .nil

/-! ## Fields that were written -/

/-- Field/value pairs as a flat list of strings. -/
def flat (fields : List (String × String)) : Raw :=
  .arr (fields.flatMap fun e => [.scalar e.1, .scalar e.2])

section

variable {fields : List (String × String)} {kept : Fields}

theorem readFields_flat_cons (key value : String) :
    readFields (((key, value) :: fields).flatMap fun e => [.scalar e.1, .scalar e.2]) kept =
      readFields (fields.flatMap fun e => [.scalar e.1, .scalar e.2]) (setField kept key value) := rfl

theorem setField_ne {key key' value : String} (h : key' ≠ key) :
    setField kept key value key' = kept key' := by
  unfold setField
  split_ifs
  · rfl
  · exact Function.update_of_ne h _ _

theorem setField_self {key value : String} (h : key ≠ "__proto__") :
    setField kept key value key = some value := by
  unfold setField
  rw [if_neg h]
  exact Function.update_self _ _ _

/-- A field that is not set again is kept. -/
theorem readFields_kept {key : String} (hkey : key ∉ fields.map Prod.fst) :
    readFields (fields.flatMap fun e => [.scalar e.1, .scalar e.2]) kept key = kept key := by
  induction fields generalizing kept with
  | nil => rfl
  | cons e fields ih =>
      obtain ⟨key', value⟩ := e
      rw [List.map_cons, List.mem_cons, not_or] at hkey
      rw [readFields_flat_cons, ih hkey.2, setField_ne hkey.1]

theorem readFields_mem (hkeys : (fields.map Prod.fst).Nodup) {key value : String}
    (hmem : (key, value) ∈ fields) (hkey : key ≠ "__proto__") :
    readFields (fields.flatMap fun e => [.scalar e.1, .scalar e.2]) kept key = some value := by
  induction fields generalizing kept with
  | nil => cases hmem
  | cons e fields ih =>
      obtain ⟨key', value'⟩ := e
      obtain ⟨hnew, hkeys⟩ := List.nodup_cons.mp hkeys
      rw [readFields_flat_cons]
      rcases List.mem_cons.mp hmem with heq | hmem
      · cases heq
        rw [readFields_kept hnew, setField_self hkey]
      · exact ih hkeys hmem

/-- **In whatever order** the fields come, each is read as it was written. -/
theorem parseFields_flat {written : List (String × String)} (horder : fields.Perm written)
    (hkeys : (written.map Prod.fst).Nodup) {key value : String} (hmem : (key, value) ∈ written)
    (hkey : key ≠ "__proto__") : parseFields (flat fields) key = some value :=
  readFields_mem ((horder.map Prod.fst).nodup_iff.mpr hkeys) (horder.mem_iff.mpr hmem) hkey

end

/-! ## From a row to an entry and back -/

/-- `JSON.parse`, which reads what `JSON.stringify` prints. -/
structure JsonRuntime where
  number : String → Prop
  parse : String → Option Json
  parse_stringify : ∀ v, IsJson number v → parse (stringify v) = some v

/-- The fields `publishOnce` adds. -/
def xAddFields (event : EventContent) : List (String × String) :=
  [("id", event.id), ("type", event.type), ("aggregateType", event.aggregateType),
    ("aggregateId", event.aggregateId), ("payload", stringify event.payload)]

/-- What an entry says of its event. The handler takes an empty string for a field that is missing,
and `null` for a payload that cannot be parsed. -/
def WireEntry.received (rt : JsonRuntime) (entry : WireEntry) : EventContent where
  id := (entry.fields "id").getD ""
  type := (entry.fields "type").getD ""
  aggregateType := (entry.fields "aggregateType").getD ""
  aggregateId := (entry.fields "aggregateId").getD ""
  payload := (rt.parse ((entry.fields "payload").getD "null")).getD .null

section

variable {rt : JsonRuntime}

/-- An event in the stream: the fields that were added for it come back in some order. -/
structure Published (rt : JsonRuntime) where
  entryId : String
  event : EventContent
  fields : List (String × String)
  order : fields.Perm (xAddFields event)
  json : IsJson rt.number event.payload

def Published.raw (p : Published rt) : Raw := .arr [.scalar p.entryId, flat p.fields]

/-- The reply to `XREADGROUP`: one stream with its entries. -/
def xReadGroupReply (streamKey : String) (published : List (Published rt)) : Raw :=
  .arr [.arr [.scalar streamKey, .arr (published.map Published.raw)]]

/-- The reply to `XAUTOCLAIM`: a cursor, the entries, and what else the server appends. -/
def xAutoClaimReply (cursor : String) (published : List (Published rt)) (more : List Raw) : Raw :=
  .arr (.scalar cursor :: .arr (published.map Published.raw) :: more)

/-- The entry that is parsed from it. -/
def Published.entry (p : Published rt) : WireEntry := ⟨p.entryId, parseFields (flat p.fields)⟩

theorem parseEntries_published (published : List (Published rt)) :
    parseEntries (.arr (published.map Published.raw)) = published.map Published.entry := by
  change parseItems (published.map Published.raw) = _
  induction published with
  | nil => rfl
  | cons p rest ih =>
      rw [List.map_cons, List.map_cons, ← ih]
      rfl

/-- **What is received is what was published.** -/
theorem Published.received (p : Published rt) : p.entry.received rt = p.event := by
  have hkeys : ((xAddFields p.event).map Prod.fst).Nodup := by
    show ["id", "type", "aggregateType", "aggregateId", "payload"].Nodup
    decide
  have field {key value : String} (hmem : (key, value) ∈ xAddFields p.event)
      (hkey : key ≠ "__proto__") : p.entry.fields key = some value :=
    parseFields_flat p.order hkeys hmem hkey
  have hid : p.entry.fields "id" = _ := field (.head _) (by decide)
  have htype : p.entry.fields "type" = _ := field (.tail _ (.head _)) (by decide)
  have haggregateType : p.entry.fields "aggregateType" = _ :=
    field (.tail _ (.tail _ (.head _))) (by decide)
  have haggregateId : p.entry.fields "aggregateId" = _ :=
    field (.tail _ (.tail _ (.tail _ (.head _)))) (by decide)
  have hpayload : p.entry.fields "payload" = _ :=
    field (.tail _ (.tail _ (.tail _ (.tail _ (.head _))))) (by decide)
  unfold WireEntry.received
  rw [hid, htype, haggregateType, haggregateId, hpayload]
  simp only [Option.getD_some, rt.parse_stringify _ p.json]

end

/-! ## At the handler -/

/-- The consumption an event is started under, and what `dispatch` gets. -/
structure Delivery where
  handlerName : String
  consumedId : String
  eventId : String
  type : String
  payload : Json

def EventContent.delivery (event : EventContent) : Delivery :=
  ⟨"event:" ++ event.type, event.id, event.id, event.type, event.payload⟩

/-- What a due retry of `record` dispatches when `event` was found. -/
def EventConsumptionRecord.delivery (record : EventConsumptionRecord) (event : OutboxEvent) :
    Delivery :=
  ⟨record.handlerName, record.eventId, event.id, event.type, event.payload⟩

section

variable (cfg : Settings)

def Delivery.dispatched (d : Delivery) (attempts : Nat) : Js Unit :=
  dispatchStarted cfg d.handlerName d.consumedId d.eventId d.type d.payload attempts

/-- The handler of `autoClaimOnce` and `pollOnce`, on the fields of an entry. -/
def handleFields (rt : JsonRuntime) (entryId : Nat) (fields : Fields) : Js Unit := do
  let eventId := (fields "id").getD ""
  let type := (fields "type").getD ""
  let payloadRaw := (fields "payload").getD "null"
  if eventId = "" ∨ type = "" then await (.xAck entryId) else
  let handlerName := "event:" ++ type
  let started ← await (.tryStart ⟨handlerName, eventId, some entryId, cfg.maxAttempts⟩)
  if ¬ started.started then await (.xAck entryId) else
  let payload := (rt.parse payloadRaw).getD .null
  let result ← attempt
    (dispatchStarted cfg handlerName eventId eventId type payload started.record.attempts)
  await (.xAck entryId)
  match result with
  | .ok () => return ()
  | .error e => throw e

/-- The entry as the handler of the store sees it. -/
def EventContent.entry (event : EventContent) (entryId : Nat) : StreamEntry :=
  ⟨entryId, event.id, event.type, event.aggregateType, event.aggregateId, event.payload⟩

/-- On the wire and in the store the handler runs the same program. -/
theorem handleFields_eq (rt : JsonRuntime) (entryId : Nat) (entry : WireEntry) :
    handleFields cfg rt entryId entry.fields =
      handleEntry cfg ((entry.received rt).entry entryId) := rfl

/-- The handler, once it has the delivery of the entry. -/
def Delivery.handled (d : Delivery) (entryId : Nat) : Js Unit := do
  let started ← await (.tryStart ⟨d.handlerName, d.consumedId, some entryId, cfg.maxAttempts⟩)
  if ¬ started.started then await (.xAck entryId) else
  let result ← attempt (d.dispatched cfg started.record.attempts)
  await (.xAck entryId)
  match result with
  | .ok () => return ()
  | .error e => throw e

/-- A delivered entry is dispatched once its consumption has started. -/
theorem handleEntry_dispatched (event : EventContent) (entryId : Nat) (hid : event.id ≠ "")
    (htype : event.type ≠ "") :
    handleEntry cfg (event.entry entryId) = event.delivery.handled cfg entryId :=
  if_neg (by simp [EventContent.entry, hid, htype])

/-- A due retry, which has its delivery once it has found the event. -/
def EventConsumptionRecord.retried (record : EventConsumptionRecord) : Js Unit := do
  let started ← await (.tryStart ⟨record.handlerName, record.eventId, none, cfg.maxAttempts⟩)
  if ¬ started.started then return () else
  match ← await (.findEvent record.eventId) with
  | none =>
    let nextRetryAt ← computeBackoff started.record.attempts
    await (.markFailed record.handlerName record.eventId "outbox event not found" nextRetryAt)
  | some event => (record.delivery event).dispatched cfg started.record.attempts

theorem retryRecord_dispatched (record : EventConsumptionRecord) :
    retryRecord cfg record = record.retried cfg := rfl

end

/-! ## In a run -/

/-- An event is found under its id. -/
def FoundById (d : Done Op Reply) : Prop :=
  match d with
  | ⟨.findEvent id, .ok (some event)⟩ => event.id = id
  | _ => True

theorem foundById_exec {o : Op} {c : Outcome} {m m' : Store} {r : Reply o}
    (hx : exec o c m = some (r, m')) : FoundById ⟨o, r⟩ := by
  cases o with
  | findEvent id =>
      rcases r with e | _ | event
      · trivial
      · trivial
      · have hfind : m.findEvent id = some event :=
          congrArg Prod.fst (Option.some.inj (exec_ok hx))
        show event.id = id
        simpa using List.find?_some hfind
  | _ => trivial

theorem foundById_run (m : Store) (sched : List (Act Job Outcome)) :
    ∀ call ∈ (runSched market (.initial m) sched).trace, FoundById ⟨call.op, call.reply⟩ := by
  refine (runSched_rule (R := .any) (I := fun _ t => ∀ call ∈ t, FoundById ⟨call.op, call.reply⟩)
    (fun j _ => body_takes j) ?_ sched (.initial m) (fun _ hcall => nomatch hcall) (.initial m)
    (meets_any market sched _)).1
  rintro m t pid j o c r m' hfound - - - hx call hcall
  rcases List.mem_cons.mp hcall with rfl | hcall
  · exact foundById_exec hx
  · exact hfound call hcall

/-- The event was found for the record. -/
def FoundFor (t : Trace Op Reply) (record : EventConsumptionRecord) (event : OutboxEvent) : Prop :=
  ∃ call ∈ t, (⟨call.op, call.reply⟩ : Done Op Reply) =
    ⟨.findEvent record.eventId, .ok (some event)⟩

/-- **What is dispatched is what a row of the outbox says**, and rows are told apart by their ids. -/
structure Store.Delivers (m : Store) (t : Trace Op Reply) : Prop where
  apart : (m.outbox.map OutboxEvent.id).Nodup
  delivered : ∀ call ∈ t, ∀ entry ∈ entriesRead ⟨call.op, call.reply⟩,
    ∃ row ∈ m.outbox, entry.content.delivery = row.content.delivery
  retried : ∀ call ∈ t, ∀ record ∈ recordsRead ⟨call.op, call.reply⟩, ∀ event,
    FoundFor t record event → ∃ row ∈ m.outbox, record.delivery event = row.content.delivery

theorem Traced.delivers {m : Store} {t : Trace Op Reply} (h : Traced m t)
    (hfound : ∀ call ∈ t, FoundById ⟨call.op, call.reply⟩) : m.Delivers t where
  apart := by
    have hids := h.ids
    rwa [Store.contents, List.map_map] at hids
  delivered call hcall entry hentry := by
    obtain ⟨row, hrow, heq⟩ := List.mem_map.mp (h.delivered call hcall entry hentry)
    exact ⟨row, hrow, heq ▸ rfl⟩
  retried call hcall record hrecord event hevent := by
    obtain ⟨found, hmem, hdone⟩ := hevent
    have hread := h.read found hmem event (hdone ▸ List.mem_singleton_self _)
    have hid := hfound found hmem
    rw [hdone] at hid
    -- the name on the record is of an event with that id, so it is this one's
    obtain ⟨content, hcontent, hsame, hname⟩ := h.due call hcall record hrecord
    have heq : event.content = content :=
      List.inj_on_of_nodup_map h.ids hread hcontent (hid.trans hsame.symm)
    obtain ⟨row, hrow, hrowContent⟩ := List.mem_map.mp hread
    refine ⟨row, hrow, ?_⟩
    rw [hrowContent]
    rw [← heq] at hname
    unfold EventConsumptionRecord.delivery EventContent.delivery
    rw [hname, show record.eventId = event.content.id from hid.symm]
    rfl

/-- **Every path hands over the same event.** -/
theorem same_event_on_every_path (rt : JsonRuntime) (m : Store) (hm : m.Consistent)
    (sched : List (Act Job Outcome)) :
    let cfg := runSched market (.initial m) sched
    (∀ raw, List.Forall₂ Decodes (raw.items.filter Raw.wellShaped) (parseEntries raw)) ∧
    (∀ (published : List (Published rt)) (streamKey cursor : String) (more : List Raw),
      polledEntries (xReadGroupReply streamKey published) = published.map Published.entry ∧
      claimedEntries (xAutoClaimReply cursor published more) = published.map Published.entry) ∧
    (∀ p : Published rt, p.entry.received rt = p.event ∧ ∀ settings entryId,
      p.event.id ≠ "" → p.event.type ≠ "" →
        handleFields settings rt entryId p.entry.fields =
          p.event.delivery.handled settings entryId) ∧
    (∀ settings record, retryRecord settings record = record.retried settings) ∧
    cfg.state.Delivers cfg.trace ∧
    ∀ row ∈ cfg.state.outbox,
      (∀ call ∈ cfg.trace, ∀ entry ∈ entriesRead ⟨call.op, call.reply⟩, entry.id = row.id →
        entry.content.delivery = row.content.delivery) ∧
      ∀ call ∈ cfg.trace, ∀ record ∈ recordsRead ⟨call.op, call.reply⟩, record.eventId = row.id →
        ∀ event, FoundFor cfg.trace record event → record.delivery event = row.content.delivery := by
  intro cfg
  have hdelivers := (traceable_run m hm sched).1.traced.delivers (foundById_run m sched)
  refine ⟨parseEntries_decodes, fun published streamKey cursor more =>
    ⟨parseEntries_published published, parseEntries_published published⟩, fun p =>
    ⟨p.received, fun settings entryId hid htype => ?_⟩, retryRecord_dispatched, hdelivers,
    fun row hrow => ⟨?_, ?_⟩⟩
  · rw [handleFields_eq, p.received, handleEntry_dispatched settings p.event entryId hid htype]
  · intro call hcall entry hentry hid
    obtain ⟨row', hrow', heq⟩ := hdelivers.delivered call hcall entry hentry
    have hsame : row'.id = row.id := (congrArg Delivery.eventId heq).symm.trans hid
    rw [heq, List.inj_on_of_nodup_map hdelivers.apart hrow' hrow hsame]
  · intro call hcall record hrecord hid event hevent
    obtain ⟨row', hrow', heq⟩ := hdelivers.retried call hcall record hrecord event hevent
    have hsame : row'.id = row.id := (congrArg Delivery.consumedId heq).symm.trans hid
    rw [heq, List.inj_on_of_nodup_map hdelivers.apart hrow' hrow hsame]

open Classical in
/-- A runtime that parses what is printed of values without numbers. -/
noncomputable def withoutNumbers : JsonRuntime where
  number _ := False
  parse text := if h : ∃ v, IsJson (fun _ => False) v ∧ stringify v = text then some h.choose else none
  parse_stringify v hv := by
    have hprinted : ∃ w, IsJson (fun _ => False) w ∧ stringify w = stringify v := ⟨v, hv, rfl⟩
    rw [dif_pos hprinted]
    obtain ⟨hw, heq⟩ := hprinted.choose_spec
    exact congrArg some
      (stringify_inj (hw.mono fun _ h => h.elim) (hv.mono fun _ h => h.elim) heq)

/-- The event of a published result, still in the outbox. -/
def unsentStore : Store where
  backend := .postgres
  tasks := []
  bids := []
  results := []
  outbox := [⟨"v", "result_published", "task", "t", .obj [("taskId", .str "t"),
    ("executorPublicKey", .str "E"), ("payloadHash", .str "h"), ("publishedAt", .str "now")],
    none, 0, none⟩]
  consumptions := []
  stream := ⟨[], 0, 0, []⟩
  issued := ["v"]

theorem unsentStore_consistent : unsentStore.Consistent where
  keys := ⟨fun _ h => (nomatch h), fun _ h => nomatch h⟩
  ids := by decide
  issued := by decide
  entries _ h := nomatch h
  records _ h := nomatch h

/-- A worker publishes the event, polls its entry and crashes. Another one claims the entry, the
webhook does not answer, and the event is dispatched again when the retry is due. -/
def redelivers : List (Act Job Outcome) :=
  .spawn (.tick { webhookUrl := some "url" } 0) :: List.replicate 5 (goes 0) ++
  .crash 0 :: .spawn (.tick { webhookUrl := some "url" } 0) ::
    [goes 1, .run 1 { idle := [1] }, goes 1, .run 1 { fault := .refused (.other "timeout") }] ++
    List.replicate 5 (goes 1) ++ List.replicate 5 (.run 1 { now := 2000 })

theorem result_event_redelivered :
    let cfg := runSched market (.initial unsentStore) redelivers
    (cfg.trace.flatMap fun call =>
      (entriesRead ⟨call.op, call.reply⟩).map fun entry => (call.pid, entry.type)) =
        [(1, "result_published"), (0, "result_published")] ∧
    (cfg.trace.flatMap fun call =>
      (recordsRead ⟨call.op, call.reply⟩).map fun record => (record.handlerName, record.eventId)) =
        [("event:result_published", "v")] ∧
    cfg.state.consumptions.map (fun row => (row.eventId, row.status, row.attempts)) =
      [("v", .succeeded, 2)] ∧
    ∀ row ∈ cfg.state.outbox,
      (∀ call ∈ cfg.trace, ∀ entry ∈ entriesRead ⟨call.op, call.reply⟩, entry.id = row.id →
        entry.content.delivery = row.content.delivery) ∧
      ∀ call ∈ cfg.trace, ∀ record ∈ recordsRead ⟨call.op, call.reply⟩, record.eventId = row.id →
        ∀ event, FoundFor cfg.trace record event → record.delivery event = row.content.delivery :=
  ⟨by decide +kernel, by decide +kernel, by decide +kernel,
    (same_event_on_every_path withoutNumbers unsentStore unsentStore_consistent
      redelivers).2.2.2.2.2⟩

end TrustGate.Market
