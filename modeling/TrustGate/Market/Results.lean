import TrustGate.Market.Canonical
import TrustGate.Market.Effects

set_option autoImplicit false

/-! # The stores of results

`src/src/repositories/taskResultRepository.ts`, with the service on top of it. Between the Postgres
store and the table stand the encoding of a parameter by its JavaScript type, the input function of
`jsonb` and the `JSON.parse` of what comes back. -/

namespace TrustGate.Market

open StableSort JsString

/-! ## What Postgres does with a payload -/

/-- What `node-postgres` escapes in an element of an array literal. -/
def escapeElement (text : List Char) : List Char :=
  quotation :: (text.flatMap (fun c => if c = '\\' ∨ c = quotation then ['\\', c] else [c]) ++
    [quotation])

mutual

/-- The text of a parameter; none is `NULL`. -/
def prepareValue : Json JsString → Option (List Char)
  | .null => none
  | .bool b => some (.bool b : Json JsString).chars
  | .num text => some text.toList
  | .str s => some s.chars
  | .arr xs => some ('{' :: separated '}' (elementTexts xs))
  | .obj fields => some (Json.obj fields).chars

def elementTexts : List (Json JsString) → List (List Char)
  | [] => []
  | .arr ys :: xs => ('{' :: separated '}' (elementTexts ys)) :: elementTexts xs
  | x :: xs =>
      (match prepareValue x with
        | none => "NULL".toList
        | some text => escapeElement text) :: elementTexts xs

end

mutual

/-- The strings in a value, its keys among them. -/
def Json.strings : Json JsString → List JsString
  | .str s => [s]
  | .arr xs => itemStrings xs
  | .obj fields => fieldStrings fields
  | _ => []

def itemStrings : List (Json JsString) → List JsString
  | [] => []
  | x :: xs => x.strings ++ itemStrings xs

def fieldStrings : List (JsString × Json JsString) → List JsString
  | [] => []
  | (key, x) :: fields => key :: x.strings ++ fieldStrings fields

end

/-- Every string is Unicode text without the NUL character. -/
def TextOnly (v : Json JsString) : Prop := ∀ s ∈ v.strings, s.WellFormed ∧ 0 ∉ s.units

example : ¬ TextOnly (.obj [("a", .str ⟨[0xD800]⟩)]) := fun h =>
  (h ⟨[0xD800]⟩ (by decide)).1 ⟨0xD800, by decide⟩ (by decide)

/-- `jsonb` keeps the keys of an object by length and then by bytes. -/
def jsonbRank (key : JsString) : Nat :=
  (String.ofList key.chars).toUTF8.data.toList.foldl (fun n b => 256 * n + b.toNat) 1

/-- The column type `jsonb`: what comes back of the text of a parameter, if it is valid input. -/
structure Jsonb where
  /-- The texts of the finite numbers. -/
  number : String → Prop
  number_text : ∀ text, number text → NumberText text
  read : String → Option (Json JsString)
  read_stringify : ∀ v, IsJson number v → TextOnly v →
    read (stringify v) = some (canonicalize jsonbRank v)
  /-- Neither `\u0000` nor half of a surrogate pair can be converted to text. -/
  read_refused : ∀ v, IsJson number v → ¬ TextOnly v → read (stringify v) = none
  read_infinite : ∀ text, InfinityText text → read text = none
  /-- Text that starts with a brace is an object. -/
  read_brace : ∀ cs v, read (String.ofList ('{' :: cs)) = some v → v.kind = .obj
  /-- A string stands in quotation marks. -/
  read_str : ∀ text s, read text = some (.str s) → s.codePoints.length < text.length

/-! ## Infinite numbers -/

mutual

/-- What `JSON.stringify` prints of a value: `null` for an infinite number. -/
def Json.printed : Json JsString → Json JsString
  | .num text => if InfinityText text then .null else .num text
  | .arr xs => .arr (printedItems xs)
  | .obj fields => .obj (printedFields fields)
  | v => v

def printedItems : List (Json JsString) → List (Json JsString)
  | [] => []
  | x :: xs => x.printed :: printedItems xs

def printedFields : List (JsString × Json JsString) → List (JsString × Json JsString)
  | [] => []
  | (key, x) :: fields => (key, x.printed) :: printedFields fields

end

theorem printedItems_eq (xs : List (Json JsString)) : printedItems xs = xs.map Json.printed := by
  induction xs with
  | nil => rfl
  | cons x xs ih =>
      rw [printedItems, ih]
      rfl

theorem printedFields_eq (fields : List (JsString × Json JsString)) :
    printedFields fields = fields.map fun e => (e.1, e.2.printed) := by
  induction fields with
  | nil => rfl
  | cons e fields ih =>
      obtain ⟨key, x⟩ := e
      rw [printedFields, ih]
      rfl

theorem chars_printed (v : Json JsString) : v.printed.chars = v.chars := by
  induction v using Json.rule with
  | num text =>
      simp only [Json.printed, Json.chars]
      split_ifs with hinfinite
      · rfl
      · simp only [Json.chars, if_neg hinfinite]
  | arr xs ih =>
      simp only [Json.printed, Json.chars, printedItems_eq, itemChars_eq, List.map_map]
      exact congrArg (fun l => '[' :: separated ']' l) (List.map_congr_left ih)
  | obj fields ih =>
      simp only [Json.printed, Json.chars, printedFields_eq, fieldChars_eq, List.map_map]
      refine congrArg (fun l => '{' :: separated '}' l) (List.map_congr_left fun e he => ?_)
      simp only [Function.comp_apply, ih e he]
  | _ => rfl

theorem itemStrings_eq (xs : List (Json JsString)) : itemStrings xs = xs.flatMap Json.strings := by
  induction xs with
  | nil => rfl
  | cons x xs ih => rw [itemStrings, ih, List.flatMap_cons]

theorem fieldStrings_eq (fields : List (JsString × Json JsString)) :
    fieldStrings fields = fields.flatMap fun e => e.1 :: e.2.strings := by
  induction fields with
  | nil => rfl
  | cons e fields ih =>
      obtain ⟨key, x⟩ := e
      rw [fieldStrings, ih, List.flatMap_cons, List.cons_append]

theorem strings_printed (v : Json JsString) : v.printed.strings = v.strings := by
  induction v using Json.rule with
  | num text =>
      simp only [Json.printed]
      split_ifs <;> rfl
  | arr xs ih =>
      simp only [Json.printed, Json.strings, printedItems_eq, itemStrings_eq, List.flatMap_map]
      exact List.flatMap_congr ih
  | obj fields ih =>
      simp only [Json.printed, Json.strings, printedFields_eq, fieldStrings_eq, List.flatMap_map]
      exact List.flatMap_congr fun e he => congrArg (e.1 :: ·) (ih e he)
  | _ => rfl

/-- The values that are read, whose numbers may be too large. -/
abbrev AsRead (number : String → Prop) : Json JsString → Prop :=
  IsJson fun text => number text ∨ InfinityText text

section

variable {number : String → Prop} {v : Json JsString}

theorem isJson_printed (hv : AsRead number v) : IsJson number v.printed := by
  induction hv with
  | null => exact .null
  | bool b => exact .bool b
  | num htext =>
      simp only [Json.printed]
      split_ifs with hinfinite
      · exact .null
      · exact .num (htext.resolve_right hinfinite)
  | str s => exact .str s
  | arr _ ih =>
      refine .arr fun x hx => ?_
      rw [printedItems_eq] at hx
      obtain ⟨y, hy, rfl⟩ := List.mem_map.mp hx
      exact ih y hy
  | @obj fields hkeys hown _ ih =>
      simp only [Json.printed, printedFields_eq]
      refine .obj ?_ ?_ fun e he => ?_
      · rwa [List.map_map]
      · exact List.pairwise_map.mpr hown
      · obtain ⟨e, hmem, rfl⟩ := List.mem_map.mp he
        exact ih e hmem

/-- An infinite number is not printed as it is. -/
theorem isJson_of_printed (hv : AsRead number v) (hvalue : v.printed.value = v.value) :
    IsJson number v := by
  induction hv with
  | null => exact .null
  | bool b => exact .bool b
  | num htext =>
      simp only [Json.printed] at hvalue
      split_ifs at hvalue with hinfinite
      · cases hvalue
      · exact .num (htext.resolve_right hinfinite)
  | str s => exact .str s
  | arr _ ih =>
      simp only [Json.printed, Json.value, printedItems_eq, itemValues_eq, List.map_map,
        JsonValue.arr.injEq] at hvalue
      exact .arr fun x hx => ih x hx (List.map_inj_left.mp hvalue x hx)
  | @obj fields hkeys hown _ ih =>
      simp only [Json.printed, Json.value, printedFields_eq, JsonValue.obj.injEq] at hvalue
      refine .obj hkeys hown fun e he => ih e he ?_
      have hlookup := (lookup_iff hkeys).mpr he
      have hfield := congrFun hvalue e.1
      rw [fieldValue_eq, fieldValue_eq, lookup_map, hlookup] at hfield
      exact Option.some.inj hfield

end

/-! ## The repositories -/

/-- `TaskResultRepositoryLike`, over the state of the store. -/
structure TaskResultRepository where
  upsert (taskId : String) (payload : Json JsString) (payloadHash : String) (now : Nat) :
    Store (Json JsString) → Except JsError (Store (Json JsString))
  findByTaskId (taskId : String) :
    Store (Json JsString) → Option (TaskResultRecord (Json JsString))

def inMemoryTaskResultRepository : TaskResultRepository where
  upsert taskId payload payloadHash now m := .ok (m.upsertResult taskId payload payloadHash now)
  findByTaskId taskId m := m.findResult taskId

/-- The column is `not null`, and the task id references `tasks`. -/
def pgTaskResultRepository (jsonb : Jsonb) : TaskResultRepository where
  upsert taskId payload payloadHash now m :=
    match prepareValue payload with
    | none => .error (.other "null value in column \"payload_json\"")
    | some text =>
      match jsonb.read (String.ofList text) with
      | none => .error (.other "invalid input syntax for type json")
      | some stored =>
        if (m.findTask taskId).isNone then
          .error (.other "violates foreign key constraint \"task_results_task_id_fkey\"")
        else .ok (m.upsertResult taskId stored payloadHash now)
  findByTaskId taskId m := m.findResult taskId

section

variable {κ : Type} [LinearOrder κ] (collation : JsString → κ) (sha256Hex : Sha256Hex)

/-- `ExecutorResultService.publish`. -/
def publish (repo : TaskResultRepository) (taskId : String) (payload : Json JsString) (now : Nat)
    (m : Store (Json JsString)) :
    Except JsError (TaskResultRecord (Json JsString) × Store (Json JsString)) :=
  match repo.upsert taskId payload (payloadHash collation sha256Hex payload) now m with
  | .error e => .error e
  | .ok m' =>
    match repo.findByTaskId taskId m' with
    | none => .error (.other "failed to persist result")
    | some stored => .ok (stored, m')

/-- The payload is published and comes back unchanged, and it has the hash that comes with it. -/
def Returned (repo : TaskResultRepository) (taskId : String) (payload : Json JsString) (now : Nat)
    (m : Store (Json JsString)) : Prop :=
  ∃ stored m' got, publish collation sha256Hex repo taskId payload now m = .ok (stored, m') ∧
    repo.findByTaskId taskId m' = some got ∧ got.payload.value = payload.value ∧
    payloadHash collation sha256Hex got.payload = stored.payloadHash

/-! ## What comes back -/

variable {collation sha256Hex} {taskId : String} {payload : Json JsString} {now : Nat}
  {m : Store (Json JsString)}

theorem findResult_upsertResult (m : Store (Json JsString)) (taskId : String)
    (payload : Json JsString) (payloadHash : String) (now : Nat) :
    ∃ got, (m.upsertResult taskId payload payloadHash now).findResult taskId = some got ∧
      got.payload = payload ∧ got.payloadHash = payloadHash := by
  unfold Store.upsertResult Store.findResult
  dsimp only
  rw [find?_upsert (fun old new => by cases m.backend <;> rfl), if_pos rfl]
  cases m.results.find? fun result => result.taskId = taskId with
  | none => exact ⟨_, rfl, rfl, rfl⟩
  | some old => cases m.backend <;> exact ⟨_, rfl, rfl, rfl⟩

/-- The store answers with what it keeps of the payload, if it keeps anything. -/
structure KeepsPayload (repo : TaskResultRepository)
    (keep : Json JsString → Option (Json JsString)) (taskId : String) (now : Nat)
    (m : Store (Json JsString)) : Prop where
  find : repo.findByTaskId taskId = fun m => m.findResult taskId
  kept : ∀ payload stored payloadHash, keep payload = some stored →
    repo.upsert taskId payload payloadHash now m =
      .ok (m.upsertResult taskId stored payloadHash now)
  refused : ∀ payload payloadHash, keep payload = none →
    ∃ e, repo.upsert taskId payload payloadHash now m = .error e

theorem KeepsPayload.returned_iff {repo : TaskResultRepository}
    {keep : Json JsString → Option (Json JsString)} (h : KeepsPayload repo keep taskId now m) :
    Returned collation sha256Hex repo taskId payload now m ↔ ∃ stored, keep payload = some stored ∧
      stored.value = payload.value ∧ payloadHash collation sha256Hex stored =
        payloadHash collation sha256Hex payload := by
  unfold Returned publish
  cases hkeep : keep payload with
  | none =>
      obtain ⟨e, herror⟩ := h.refused payload (payloadHash collation sha256Hex payload) hkeep
      rw [herror]
      simp
  | some stored =>
      obtain ⟨got, hgot, hpayload, hhash⟩ := findResult_upsertResult m taskId stored
        (payloadHash collation sha256Hex payload) now
      simp only [h.kept payload stored _ hkeep, h.find, hgot, Except.ok.injEq, Prod.mk.injEq]
      constructor
      · rintro ⟨_, _, got', ⟨rfl, rfl⟩, hfound, hvalue, hsame⟩
        rw [hgot] at hfound
        cases hfound
        exact ⟨stored, rfl, hpayload ▸ hvalue, hpayload ▸ hhash ▸ hsame⟩
      · rintro ⟨_, hstored, hvalue, hsame⟩
        cases hstored
        exact ⟨got, _, got, ⟨rfl, rfl⟩, hgot, hpayload.symm ▸ hvalue, by
          rw [hpayload, hhash, hsame]⟩

theorem inMemory_keeps : KeepsPayload inMemoryTaskResultRepository some taskId now m where
  find := rfl
  kept payload stored payloadHash h := by
    cases h
    rfl
  refused payload payloadHash h := nomatch h

variable (jsonb : Jsonb)

/-- What the column keeps of a payload. -/
def Jsonb.keep (payload : Json JsString) : Option (Json JsString) :=
  (prepareValue payload).bind fun text => jsonb.read (String.ofList text)

variable {jsonb}

theorem pg_keeps (htask : m.findTask taskId ≠ none) :
    KeepsPayload (pgTaskResultRepository jsonb) jsonb.keep taskId now m where
  find := rfl
  kept payload stored payloadHash h := by
    obtain ⟨text, htext, hread⟩ := Option.bind_eq_some_iff.mp h
    have hnone : (m.findTask taskId).isNone ≠ true := by simpa using htask
    simp only [pgTaskResultRepository, htext, hread, if_neg hnone]
  refused payload payloadHash h := by
    unfold Jsonb.keep at h
    cases htext : prepareValue payload with
    | none => exact ⟨_, by simp only [pgTaskResultRepository, htext]; rfl⟩
    | some text =>
        rw [htext] at h
        exact ⟨_, by simp only [pgTaskResultRepository, htext]; rw [show jsonb.read _ = none from h]⟩

/-- Finite numbers, booleans, and objects whose numbers are finite and whose strings are Unicode text
without NUL. -/
def Storable (number : String → Prop) : Json JsString → Prop
  | .bool _ => True
  | .num text => number text
  | .obj fields => IsJson number (.obj fields) ∧ TextOnly (.obj fields)
  | _ => False

theorem Storable.isJson {number : String → Prop} {v : Json JsString} (h : Storable number v) :
    IsJson number v := by
  cases v with
  | bool b => exact .bool b
  | num text => exact .num h
  | obj fields => exact h.1
  | _ => cases h

theorem keep_printed (hv : IsJson jsonb.number payload)
    (htext : prepareValue payload = some payload.chars) :
    (TextOnly payload → jsonb.keep payload = some (canonicalize jsonbRank payload)) ∧
    (¬ TextOnly payload → jsonb.keep payload = none) := by
  unfold Jsonb.keep
  rw [htext]
  exact ⟨jsonb.read_stringify payload hv, jsonb.read_refused payload hv⟩

theorem keep_eq_some_iff (hv : AsRead jsonb.number payload) {stored : Json JsString} :
    (jsonb.keep payload = some stored ∧ stored.value = payload.value) ↔
      Storable jsonb.number payload ∧ stored = canonicalize jsonbRank payload := by
  have hiff (hfinite : IsJson jsonb.number payload) (htext : TextOnly payload)
      (hprepared : prepareValue payload = some payload.chars) :
      (jsonb.keep payload = some stored ∧ stored.value = payload.value) ↔
        stored = canonicalize jsonbRank payload := by
    rw [(keep_printed hfinite hprepared).1 htext, Option.some.injEq, eq_comm]
    exact and_iff_left_of_imp fun h => h ▸ value_canonicalize hfinite
  cases payload with
  | null =>
      refine iff_of_false ?_ (fun h => h.1)
      rintro ⟨h, -⟩
      cases h
  | bool b =>
      rw [hiff (.bool b) (fun _ hmem => nomatch hmem) rfl]
      exact (and_iff_right trivial).symm
  | num text =>
      by_cases hnumber : jsonb.number text
      · rw [hiff (.num hnumber) (fun _ hmem => nomatch hmem)
          (congrArg some (chars_num (jsonb.number_text text hnumber)).symm)]
        exact (and_iff_right hnumber).symm
      · refine iff_of_false ?_ (fun h => hnumber h.1)
        rintro ⟨hread, -⟩
        cases hv with | num htext =>
        have hnone : jsonb.read (String.ofList text.toList) = none :=
          jsonb.read_infinite _ (String.ofList_toList ▸ htext.resolve_left hnumber)
        rw [Jsonb.keep, prepareValue, Option.bind_some, hnone] at hread
        cases hread
  | str s =>
      refine iff_of_false ?_ (fun h => h.1)
      rintro ⟨hread, hvalue⟩
      cases stored <;> cases hvalue
      have := jsonb.read_str _ s hread
      simp [chars] at this
  | arr xs =>
      refine iff_of_false ?_ (fun h => h.1)
      rintro ⟨hread, hvalue⟩
      have := jsonb.read_brace _ _ hread
      cases stored <;> cases this
      cases hvalue
  | obj fields =>
      -- what is read is the text of the printed value
      have hprinted : jsonb.keep (.obj fields) = jsonb.keep (Json.obj fields).printed :=
        congrArg (fun cs => jsonb.read (String.ofList cs)) (chars_printed (.obj fields)).symm
      obtain ⟨hkept, hrefused⟩ := keep_printed (isJson_printed hv) rfl
      rw [TextOnly, strings_printed] at hkept hrefused
      by_cases htext : TextOnly (.obj fields)
      · by_cases hfinite : IsJson jsonb.number (.obj fields)
        · rw [hiff hfinite htext rfl]
          exact (and_iff_right ⟨hfinite, htext⟩).symm
        · refine iff_of_false ?_ (fun h => hfinite h.1.1)
          rintro ⟨hread, hvalue⟩
          rw [hprinted, hkept htext] at hread
          cases hread
          rw [value_canonicalize (isJson_printed hv)] at hvalue
          exact hfinite (isJson_of_printed hv hvalue)
      · refine iff_of_false ?_ (fun h => htext h.1.2)
        rintro ⟨hread, -⟩
        rw [hprinted, hrefused htext] at hread
        cases hread

/-- Tied keys stand in the order in which `jsonb` keeps keys. -/
def JsonbOrdered (collation : JsString → κ) (v : Json JsString) : Prop :=
  ∀ path fields, v.at path = some (.obj fields) → ∀ a b, Tied collation a b →
    [a, b].Sublist (keys fields) → jsonbRank a ≤ jsonbRank b

omit [LinearOrder κ] in
theorem jsonbOrdered_iff {number : String → Prop} {v : Json JsString} (hv : IsJson number v) :
    JsonbOrdered collation v ↔ TiesAlike collation (canonicalize jsonbRank v) v := by
  have hrank {a b : JsString} (h : Tied collation a b) : ownRank a = ownRank b := by
    rw [ownRank, ownRank, h.left, h.right]
  constructor
  · intro hordered path fields fields' hfields hfields' a b htied
    rw [at_canonicalize hv, hfields'] at hfields
    cases hfields
    cases isJson_at hv hfields' with | obj hkeys _ _ =>
    have hle {a b : JsString} (h : Tied collation a b) (hpair : [a, b].Sublist (keys fields')) :
        jsonbRank a ≤ jsonbRank b := hordered path fields' hfields' a b h hpair
    constructor
    · intro hpair
      rcases pair_canonicalFields hkeys hpair with hlt | ⟨-, hlt⟩ | hsame
      · exact absurd hlt (hrank htied).not_lt
      · have ha : a ∈ keys fields' := mem_keys_canonicalFields.mp (hpair.subset (by simp))
        have hb : b ∈ keys fields' := mem_keys_canonicalFields.mp (hpair.subset (by simp))
        refine (pair_or_pair ha hb htied.ne).resolve_right fun hswap => ?_
        exact absurd (hle htied.symm hswap) (not_le.mpr hlt)
      · exact (pair_of_tied hkeys hsame).mp hpair
    · intro hpair
      rcases (hle htied hpair).lt_or_eq with hlt | heq
      · exact canonicalFields_pair hkeys (hpair.subset (by simp)) (hpair.subset (by simp))
          (.inr ⟨hrank htied, hlt⟩)
      · exact (pair_of_tied hkeys ⟨htied.ne, htied.left, htied.right, heq⟩).mpr hpair
  · intro hties path fields hfields a b htied hpair
    cases isJson_at hv hfields with | obj hkeys _ _ =>
    have hcanonical : (canonicalize jsonbRank v).at path =
        some (.obj (canonicalFields jsonbRank fields)) := by
      rw [at_canonicalize hv, hfields]
      rfl
    have hpair' := (hties path _ _ hcanonical hfields a b htied).mpr hpair
    rcases pair_canonicalFields hkeys hpair' with hlt | ⟨-, hlt⟩ | hsame
    · exact absurd hlt (hrank htied).not_lt
    · exact hlt.le
    · exact hsame.tie.le

/-- **Published results come back** from memory always, from Postgres if they can be stored as they
are and the column leaves the order of their tied keys alone. -/
theorem results_returned_iff (collation : JsString → κ) (sha256Hex : Sha256Hex) (jsonb : Jsonb)
    (taskId : String) (payload : Json JsString) (now : Nat) (m : Store (Json JsString))
    (hpayload : AsRead jsonb.number payload) (htask : m.findTask taskId ≠ none) :
    Returned collation sha256Hex inMemoryTaskResultRepository taskId payload now m ∧
    (Returned collation sha256Hex (pgTaskResultRepository jsonb) taskId payload now m ↔
      Storable jsonb.number payload ∧ JsonbOrdered collation payload) := by
  refine ⟨inMemory_keeps.returned_iff.mpr ⟨payload, rfl, rfl, rfl⟩, ?_⟩
  have hhash (hstorable : Storable jsonb.number payload) :
      payloadHash collation sha256Hex (canonicalize jsonbRank payload) =
        payloadHash collation sha256Hex payload ↔ JsonbOrdered collation payload := by
    have htext := hstorable.isJson.mono jsonb.number_text
    rw [payloadHash_inj sha256Hex (isJson_canonicalize htext) htext, jsonbOrdered_iff hpayload]
    exact ⟨ties_of_canonicalize_eq (isJson_canonicalize htext) htext,
      canonicalize_eq (isJson_canonicalize htext) htext (value_canonicalize htext)⟩
  rw [(pg_keeps htask).returned_iff]
  constructor
  · rintro ⟨stored, hkeep, hvalue, hsame⟩
    obtain ⟨hstorable, rfl⟩ := (keep_eq_some_iff hpayload).mp ⟨hkeep, hvalue⟩
    exact ⟨hstorable, (hhash hstorable).mp hsame⟩
  · rintro ⟨hstorable, hordered⟩
    obtain ⟨hkeep, hvalue⟩ := (keep_eq_some_iff hpayload).mpr ⟨hstorable, rfl⟩
    exact ⟨_, hkeep, hvalue, (hhash hstorable).mpr hordered⟩

end

/-! ## A column that reads only what `JSON.stringify` prints -/

theorem quote_length (s : JsString) : s.codePoints.length < (quote s).length := by
  have hescape : ∀ ps : List CodePoint, ps.length ≤ (ps.flatMap escape).length := by
    intro ps
    induction ps with
    | nil => exact le_refl _
    | cons p ps ih =>
        have hne : 0 < (escape p).length := by
          rcases escape_cases p with ⟨c, -, hp, -⟩ | ⟨e, -, hp, -⟩ | ⟨-, hp⟩ <;>
            simp [hp, unicodeEscape]
        rw [List.flatMap_cons, List.length_append, List.length_cons]
        omega
  have := hescape s.codePoints
  simp only [quote, List.length_cons, List.length_append, List.length_nil]
  exact Nat.lt_succ_of_le (this.trans (Nat.le_succ _))

/-- No finite number prints as an infinite one, and nothing else does. -/
theorem stringify_finite {v : Json JsString} (hv : IsJson NumberText v) {text : String}
    (h : stringify v = text) : ¬ InfinityText text := by
  rintro htext
  have hchars : v.chars = text.toList := (congrArg String.toList h).symm ▸ String.toList_ofList.symm
  obtain ⟨c, cs, hcs, hkind⟩ := head_chars hv
  rw [hcs] at hchars
  rcases htext with rfl | rfl
  · rw [(List.cons.inj hchars).1] at hkind
    cases hkind
  · rw [(List.cons.inj hchars).1] at hkind
    cases hv <;> cases hkind
    rename_i t ht
    rw [chars_num ht] at hcs
    exact ht.finite (.inr (String.toList_inj.mp (hcs.trans hchars)))

/-- The value that prints as the text. -/
def Prints (text : String) (v : Json JsString) : Prop :=
  IsJson NumberText v ∧ TextOnly v ∧ stringify v = text

theorem Prints.unique {text : String} {v w : Json JsString} (hv : Prints text v)
    (hw : Prints text w) : v = w :=
  stringify_inj hv.1 hw.1 (hv.2.2.trans hw.2.2.symm)

open Classical in
noncomputable def printedOnly : Jsonb where
  number := NumberText
  number_text _ h := h
  read text := if h : ∃ v, Prints text v then some (canonicalize jsonbRank h.choose) else none
  read_stringify v hv htext := by
    have hprints : ∃ w, Prints (stringify v) w := ⟨v, hv, htext, rfl⟩
    rw [dif_pos hprints, hprints.choose_spec.unique ⟨hv, htext, rfl⟩]
  read_refused v hv htext := by
    refine dif_neg ?_
    rintro ⟨w, hw, hwtext, heq⟩
    exact htext (stringify_inj hw hv heq ▸ hwtext)
  read_infinite text htext := by
    refine dif_neg ?_
    rintro ⟨w, hw, -, heq⟩
    exact stringify_finite hw heq htext
  read_brace cs v h := by
    split_ifs at h with hprints
    cases h
    obtain ⟨hw, -, heq⟩ := hprints.choose_spec
    obtain ⟨c, rest, hchars, hkind⟩ := head_chars hw
    have hbrace := String.ofList_injective heq
    rw [hchars] at hbrace
    rw [(List.cons.inj hbrace).1] at hkind
    generalize hprints.choose = w at hkind
    cases w <;> cases hkind
    rfl
  read_str text s h := by
    split_ifs at h with hprints
    obtain ⟨-, -, heq⟩ := hprints.choose_spec
    generalize hprints.choose = w at h heq
    cases w <;> cases h
    rw [← heq, stringify, String.length_ofList]
    exact quote_length s

/-- One task, assigned. -/
def withTask : Store (Json JsString) where
  backend := .postgres
  tasks := [⟨"t", "R", 10, "", 100, .assigned⟩]
  bids := []
  results := []
  outbox := []
  consumptions := []
  stream := ⟨[], 0, 0, []⟩
  issued := []

theorem list_not_returned :
    ¬ ∀ (jsonb : Jsonb) (payload : Json JsString), AsRead jsonb.number payload →
      Returned decomposedKey ⟨id, Function.injective_id⟩ (pgTaskResultRepository jsonb) "t" payload 0
        withTask := by
  intro hclaim
  have hlist : AsRead NumberText (.arr []) := .arr fun x hx => nomatch hx
  obtain ⟨stored, hkeep, hvalue, -⟩ := (pg_keeps (by decide)).returned_iff.mp
    (hclaim printedOnly (.arr []) hlist)
  exact ((keep_eq_some_iff hlist).mp ⟨hkeep, hvalue⟩).1

def onePayload : Json JsString := .obj [("a", .num "1")]

theorem onePayload_isJson : IsJson NumberText onePayload := by
  refine .obj (by decide) (by decide) fun e he => ?_
  simp only [List.mem_cons, List.not_mem_nil, or_false] at he
  subst he
  exact .num one_text

theorem onePayload_text : TextOnly onePayload := by
  intro s hs
  cases List.mem_singleton.mp hs
  exact ⟨wellFormed_ofString _, by decide⟩

theorem onePayload_returned :
    Returned decomposedKey ⟨id, Function.injective_id⟩ (pgTaskResultRepository printedOnly) "t"
      onePayload 0 withTask := by
  refine (results_returned_iff decomposedKey ⟨id, Function.injective_id⟩ printedOnly "t" onePayload 0
    withTask (onePayload_isJson.mono fun _ => .inl) (by decide)).2.mpr
    ⟨⟨onePayload_isJson, onePayload_text⟩, ?_⟩
  · intro path fields hfields a b htied hpair
    cases path with
    | nil =>
        cases hfields
        exact absurd hpair.length_le (Nat.not_succ_le_self 1)
    | cons step path =>
        cases step with
        | index i => cases hfields
        | key k =>
            obtain ⟨x, hx, hrest⟩ := Option.bind_eq_some_iff.mp hfields
            cases List.mem_singleton.mp ((lookup_iff (by decide)).mp hx)
            cases path with
            | nil => cases hrest
            | cons step path => cases step <;> cases hrest

end TrustGate.Market
