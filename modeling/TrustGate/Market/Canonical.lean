import TrustGate.Lib.StableSort
import TrustGate.Market.JsonText
import TrustGate.Market.Services

set_option autoImplicit false

/-! # Result hashes

`src/src/services/executorResultService.ts`. `String.prototype.localeCompare` compares the collation
keys of the two strings; different strings can have one collation key. -/

namespace TrustGate.Market

open StableSort

/-! ## Values and places in them -/

/-- What a JSON value is without the order of its keys. -/
inductive JsonValue where
  | null
  | bool (b : Bool)
  | num (text : String)
  | str (s : JsString)
  | arr (items : List JsonValue)
  | obj (field : JsString → Option JsonValue)

mutual

def Json.value : Json JsString → JsonValue
  | .null => .null
  | .bool b => .bool b
  | .num text => .num text
  | .str s => .str s
  | .arr xs => .arr (itemValues xs)
  | .obj fields => .obj (fieldValue fields)

def itemValues : List (Json JsString) → List JsonValue
  | [] => []
  | x :: xs => x.value :: itemValues xs

def fieldValue : List (JsString × Json JsString) → JsString → Option JsonValue
  | [], _ => none
  | (key, x) :: fields, k => if k = key then some x.value else fieldValue fields k

end

inductive JsonStep where
  | index (i : Nat)
  | key (key : JsString)

/-- What stands at the end of a path. -/
def Json.at : List JsonStep → Json JsString → Option (Json JsString)
  | [], v => some v
  | .index i :: path, .arr xs => xs[i]?.bind (Json.at path)
  | .key key :: path, .obj fields => (fields.lookup key).bind (Json.at path)
  | _, _ => none

def keys (fields : List (JsString × Json JsString)) : List JsString := fields.map Prod.fst

section

variable {fields fields' : List (JsString × Json JsString)}

theorem mem_keys {key : JsString} : key ∈ keys fields ↔ (fields.lookup key).isSome = true := by
  rw [List.lookup_isSome_iff, keys, List.mem_map]
  constructor
  · rintro ⟨e, he, rfl⟩
    exact ⟨e, he, beq_self_eq_true _⟩
  · rintro ⟨e, he, heq⟩
    exact ⟨e, he, (beq_iff_eq.mp heq).symm⟩

theorem lookup_iff (hkeys : (keys fields).Nodup) {key : JsString} {x : Json JsString} :
    fields.lookup key = some x ↔ (key, x) ∈ fields := by
  induction fields with
  | nil => simp
  | cons e fields ih =>
      obtain ⟨k, y⟩ := e
      obtain ⟨hk, hkeys⟩ := List.nodup_cons.mp hkeys
      rw [List.lookup_cons, List.mem_cons, Prod.mk.injEq]
      by_cases heq : key = k
      · subst heq
        have hnot : (key, x) ∉ fields := fun h => hk (List.mem_map.mpr ⟨_, h, rfl⟩)
        simp [hnot, eq_comm]
      · rw [beq_false_of_ne heq]
        simp [heq, ih hkeys]

theorem lookup_perm (hkeys : (keys fields).Nodup) (hperm : fields.Perm fields') (key : JsString) :
    fields.lookup key = fields'.lookup key := by
  have hkeys' : (keys fields').Nodup := (hperm.map Prod.fst).nodup_iff.mp hkeys
  apply Option.ext
  intro x
  rw [lookup_iff hkeys, lookup_iff hkeys', hperm.mem_iff]

theorem lookup_map (f : Json JsString → Json JsString) (key : JsString) :
    (fields.map fun e => (e.1, f e.2)).lookup key = (fields.lookup key).map f := by
  induction fields with
  | nil => rfl
  | cons e fields ih =>
      rw [List.map_cons, List.lookup_cons, List.lookup_cons, ih]
      cases key == e.1 <;> rfl

/-- Fields are known by the order of their keys. -/
theorem eq_of_keys (hkeys : keys fields = keys fields') (hnodup : (keys fields).Nodup)
    (hlookup : ∀ key, fields.lookup key = fields'.lookup key) : fields = fields' := by
  induction fields generalizing fields' with
  | nil => exact (List.map_eq_nil_iff.mp hkeys.symm).symm
  | cons e fields ih =>
      cases fields' with
      | nil => cases hkeys
      | cons e' fields' =>
          obtain ⟨hkey, htail⟩ := List.cons.inj hkeys
          obtain ⟨hnot, hrest⟩ := List.nodup_cons.mp hnodup
          obtain ⟨k, x⟩ := e
          obtain ⟨k', x'⟩ := e'
          cases hkey
          have hx := hlookup k
          rw [List.lookup_cons_self, List.lookup_cons_self] at hx
          rw [Option.some.inj hx, ih htail hrest]
          intro key
          by_cases heq : key = k
          · subst heq
            have hnone {l : List (JsString × Json JsString)} (hl : key ∉ keys l) : l.lookup key = none :=
              List.lookup_eq_none_iff.mpr fun p hp => by
                simpa using fun h : key = p.1 => hl (h ▸ List.mem_map_of_mem hp)
            rw [hnone hnot, hnone (fun h => hnot (htail ▸ h))]
          · have := hlookup key
            rwa [List.lookup_cons, List.lookup_cons, beq_false_of_ne heq] at this

theorem itemValues_eq (xs : List (Json JsString)) : itemValues xs = xs.map Json.value := by
  induction xs with
  | nil => rfl
  | cons x xs ih =>
      rw [itemValues, ih]
      rfl

theorem fieldValue_eq (fields : List (JsString × Json JsString)) (key : JsString) :
    fieldValue fields key = (fields.lookup key).map Json.value := by
  induction fields with
  | nil => rfl
  | cons e fields ih =>
      obtain ⟨k, x⟩ := e
      rw [fieldValue, List.lookup_cons]
      by_cases heq : key = k
      · simp [heq]
      · rw [if_neg heq, beq_false_of_ne heq, ih]

end

/-! ## Canonical form -/

section

variable {κ : Type} [LinearOrder κ] (collation : JsString → κ)

/-- `Object.fromEntries`. -/
def fromEntries (entries : List (JsString × Json JsString)) : Json JsString :=
  .obj (sorted (fun e => ownRank e.1) entries)

/-- `Array.prototype.sort` by `localeCompare` of the keys. -/
def sortEntries (entries : List (JsString × Json JsString)) : List (JsString × Json JsString) :=
  sorted (fun e => collation e.1) entries

mutual

/-- Sorting moves the entries as they are, so their values may be canonicalized first. -/
def canonicalize : Json JsString → Json JsString
  | .arr xs => .arr (canonicalizeItems xs)
  | .obj fields => fromEntries (sortEntries collation (canonicalizeFields fields))
  | v => v

def canonicalizeItems : List (Json JsString) → List (Json JsString)
  | [] => []
  | x :: xs => canonicalize x :: canonicalizeItems xs

def canonicalizeFields : List (JsString × Json JsString) → List (JsString × Json JsString)
  | [] => []
  | (key, x) :: fields => (key, canonicalize x) :: canonicalizeFields fields

end

theorem canonicalizeItems_eq (xs : List (Json JsString)) :
    canonicalizeItems collation xs = xs.map (canonicalize collation) := by
  induction xs with
  | nil => rfl
  | cons x xs ih =>
      rw [canonicalizeItems, ih]
      rfl

theorem canonicalizeFields_eq (fields : List (JsString × Json JsString)) :
    canonicalizeFields collation fields =
      fields.map fun e => (e.1, canonicalize collation e.2) := by
  induction fields with
  | nil => rfl
  | cons e fields ih =>
      obtain ⟨key, x⟩ := e
      rw [canonicalizeFields, ih]
      rfl

/-- The fields of the canonical form, in the order in which they are printed. -/
def canonicalFields (fields : List (JsString × Json JsString)) : List (JsString × Json JsString) :=
  sorted (fun e => ownRank e.1) (sortEntries collation (canonicalizeFields collation fields))

theorem canonicalize_obj (fields : List (JsString × Json JsString)) :
    canonicalize collation (.obj fields) = .obj (canonicalFields collation fields) := rfl

/-- Two keys that stand in the canonical form in the order that they had. -/
structure Tied (a b : JsString) : Prop where
  ne : a ≠ b
  left : arrayIndex a = none
  right : arrayIndex b = none
  tie : collation a = collation b

omit [LinearOrder κ] in
theorem Tied.symm {a b : JsString} (h : Tied collation a b) : Tied collation b a :=
  ⟨h.ne.symm, h.right, h.left, h.tie.symm⟩

/-- Wherever two objects stand at the same place, their tied keys come in the same order. -/
def TiesAlike (v w : Json JsString) : Prop :=
  ∀ path fields fields', v.at path = some (.obj fields) → w.at path = some (.obj fields') →
    ∀ a b, Tied collation a b →
      ([a, b].Sublist (keys fields) ↔ [a, b].Sublist (keys fields'))

section

variable {collation} {fields : List (JsString × Json JsString)}

/-- The keys are sorted alone. -/
theorem keys_canonicalFields :
    keys (canonicalFields collation fields) =
      sorted ownRank (sorted collation (keys fields)) := by
  have hkeys : keys (canonicalizeFields collation fields) = keys fields := by
    rw [canonicalizeFields_eq, keys, List.map_map]
    rfl
  unfold canonicalFields sortEntries keys sorted
  rw [List.map_insertionSort (s := fun a b => ownRank a ≤ ownRank b) _ _ _ fun _ _ _ _ => Iff.rfl,
    List.map_insertionSort (s := fun a b => collation a ≤ collation b) _ _ _ fun _ _ _ _ => Iff.rfl]
  exact congrArg (fun l => sorted ownRank (sorted collation l)) hkeys

theorem nodup_canonicalFields :
    (keys (canonicalFields collation fields)).Nodup ↔ (keys fields).Nodup := by
  rw [keys_canonicalFields, nodup_sorted, nodup_sorted]

theorem mem_keys_canonicalFields {key : JsString} :
    key ∈ keys (canonicalFields collation fields) ↔ key ∈ keys fields := by
  rw [keys_canonicalFields, mem_sorted, mem_sorted]

theorem lookup_canonicalFields (hkeys : (keys fields).Nodup) (key : JsString) :
    (canonicalFields collation fields).lookup key =
      (fields.lookup key).map (canonicalize collation) := by
  have hperm : (canonicalFields collation fields).Perm (canonicalizeFields collation fields) :=
    (List.perm_insertionSort _ _).trans (List.perm_insertionSort _ _)
  rw [lookup_perm (nodup_canonicalFields.mpr hkeys) hperm, canonicalizeFields_eq, lookup_map]

/-- Tied keys keep their order. -/
theorem pair_of_tied (hkeys : (keys fields).Nodup) {a b : JsString} (h : Tied collation a b) :
    [a, b].Sublist (keys (canonicalFields collation fields)) ↔ [a, b].Sublist (keys fields) := by
  have hrank : ownRank a = ownRank b := by
    rw [ownRank, ownRank, h.left, h.right]
  rw [keys_canonicalFields, pair_sorted _ ((nodup_sorted _).mpr hkeys), pair_sorted _ hkeys]
  simp [hrank, h.tie]

/-- The others are sorted. -/
theorem pair_canonicalFields (hkeys : (keys fields).Nodup) {a b : JsString}
    (h : [a, b].Sublist (keys (canonicalFields collation fields))) :
    ownRank a < ownRank b ∨ (ownRank a = ownRank b ∧ collation a < collation b) ∨
      Tied collation a b := by
  rw [keys_canonicalFields, pair_sorted _ ((nodup_sorted _).mpr hkeys), pair_sorted _ hkeys] at h
  rcases h with ⟨-, -, hlt⟩ | ⟨hrank, ⟨-, -, hlt⟩ | ⟨htie, hpair⟩⟩
  · exact .inl hlt
  · exact .inr (.inl ⟨hrank, hlt⟩)
  · have hne : a ≠ b := List.pairwise_iff_forall_sublist.mp hkeys hpair
    exact .inr (.inr ⟨hne, arrayIndex_of_ownRank hrank hne,
      arrayIndex_of_ownRank hrank.symm hne.symm, htie⟩)

theorem canonicalFields_pair (hkeys : (keys fields).Nodup) {a b : JsString} (ha : a ∈ keys fields)
    (hb : b ∈ keys fields)
    (h : ownRank a < ownRank b ∨ (ownRank a = ownRank b ∧ collation a < collation b)) :
    [a, b].Sublist (keys (canonicalFields collation fields)) := by
  rw [keys_canonicalFields, pair_sorted _ ((nodup_sorted _).mpr hkeys), pair_sorted _ hkeys]
  rcases h with hlt | ⟨hrank, hlt⟩
  · exact .inl ⟨(mem_sorted _).mpr ha, (mem_sorted _).mpr hb, hlt⟩
  · exact .inr ⟨hrank, .inl ⟨ha, hb, hlt⟩⟩

end

/-! ## What the canonical form keeps -/

section

variable {collation} {number : String → Prop} {v w : Json JsString}

theorem value_canonicalize (hv : IsJson number v) :
    (canonicalize collation v).value = v.value := by
  induction hv with
  | null => rfl
  | bool b => rfl
  | num _ => rfl
  | str s => rfl
  | arr _ ih =>
      simp only [canonicalize, Json.value, canonicalizeItems_eq, itemValues_eq, List.map_map]
      exact congrArg JsonValue.arr (List.map_congr_left ih)
  | @obj fields hkeys _ _ ih =>
      rw [canonicalize_obj]
      refine congrArg JsonValue.obj (funext fun key => ?_)
      rw [fieldValue_eq, fieldValue_eq, lookup_canonicalFields hkeys, Option.map_map]
      cases hx : fields.lookup key with
      | none => rfl
      | some x => exact congrArg some (ih _ ((lookup_iff hkeys).mp hx))

theorem isJson_at (hv : IsJson number v) {path : List JsonStep} (h : v.at path = some w) :
    IsJson number w := by
  induction path generalizing v with
  | nil =>
      cases v <;> cases h <;> exact hv
  | cons step path ih =>
      cases step with
      | index i =>
          cases hv with
          | arr hitems =>
              obtain ⟨x, hx, hrest⟩ := Option.bind_eq_some_iff.mp h
              exact ih (hitems x (List.mem_of_getElem? hx)) hrest
          | _ => cases h
      | key k =>
          cases hv with
          | obj hkeys _ hvalues =>
              obtain ⟨x, hx, hrest⟩ := Option.bind_eq_some_iff.mp h
              exact ih (hvalues _ ((lookup_iff hkeys).mp hx)) hrest
          | _ => cases h

theorem at_canonicalize (hv : IsJson number v) (path : List JsonStep) :
    (canonicalize collation v).at path = (v.at path).map (canonicalize collation) := by
  induction path generalizing v with
  | nil => cases v <;> rfl
  | cons step path ih =>
      cases step with
      | index i =>
          cases hv with
          | @arr xs hitems =>
              change ((canonicalizeItems collation xs)[i]?).bind _ = _
              rw [canonicalizeItems_eq, List.getElem?_map]
              change _ = (xs[i]?.bind _).map _
              cases hx : xs[i]? with
              | none => rfl
              | some x => exact ih (hitems x (List.mem_of_getElem? hx))
          | _ => rfl
      | key k =>
          cases hv with
          | @obj fields hkeys _ hvalues =>
              change ((canonicalFields collation fields).lookup k).bind _ = _
              rw [lookup_canonicalFields hkeys]
              change _ = ((fields.lookup k).bind _).map _
              cases hx : fields.lookup k with
              | none => rfl
              | some x => exact ih (hvalues _ ((lookup_iff hkeys).mp hx))
          | _ => rfl

theorem isJson_canonicalize (hv : IsJson number v) : IsJson number (canonicalize collation v) := by
  induction hv with
  | null => exact .null
  | bool b => exact .bool b
  | num htext => exact .num htext
  | str s => exact .str s
  | arr _ ih =>
      refine .arr fun x hx => ?_
      rw [canonicalizeItems_eq] at hx
      obtain ⟨y, hy, rfl⟩ := List.mem_map.mp hx
      exact ih y hy
  | @obj fields hkeys _ _ ih =>
      refine .obj (nodup_canonicalFields.mpr hkeys) (pairwise_sorted _ _) fun e he => ?_
      have hmem := (lookup_iff (nodup_canonicalFields.mpr hkeys)).mpr he
      rw [lookup_canonicalFields hkeys, Option.map_eq_some_iff] at hmem
      obtain ⟨x, hx, heq⟩ := hmem
      exact heq ▸ ih _ ((lookup_iff hkeys).mp hx)

/-- The canonical form keeps the value and the order of the tied keys. -/
theorem ties_of_canonicalize_eq (hv : IsJson number v) (hw : IsJson number w)
    (h : canonicalize collation v = canonicalize collation w) : TiesAlike collation v w := by
  intro path fields fields' hfields hfields' a b htied
  have hsame : (canonicalize collation v).at path = _ := at_canonicalize hv path
  rw [h, at_canonicalize hw, hfields, hfields'] at hsame
  have hobj := Option.some.inj hsame
  rw [canonicalize_obj, canonicalize_obj] at hobj
  have hcanon := Json.obj.inj hobj
  cases isJson_at hv hfields with | obj hkeys _ _ =>
  cases isJson_at hw hfields' with | obj hkeys' _ _ =>
  rw [← pair_of_tied hkeys htied, ← pair_of_tied hkeys' htied, hcanon]

omit [LinearOrder κ] in
theorem TiesAlike.item {xs ys : List (Json JsString)} (h : TiesAlike collation (.arr xs) (.arr ys)) {i : Nat}
    {x y : Json JsString} (hx : xs[i]? = some x) (hy : ys[i]? = some y) : TiesAlike collation x y := by
  intro path fields fields' hfields hfields'
  refine h (.index i :: path) fields fields' ?_ ?_
  · rw [Json.at, hx, Option.bind_some, hfields]
  · rw [Json.at, hy, Option.bind_some, hfields']

omit [LinearOrder κ] in
theorem TiesAlike.field {fs gs : List (JsString × Json JsString)}
    (h : TiesAlike collation (.obj fs) (.obj gs)) {key : JsString} {x y : Json JsString}
    (hx : fs.lookup key = some x) (hy : gs.lookup key = some y) : TiesAlike collation x y := by
  intro path fields fields' hfields hfields'
  refine h (.key key :: path) fields fields' ?_ ?_
  · rw [Json.at, hx, Option.bind_some, hfields]
  · rw [Json.at, hy, Option.bind_some, hfields']

/-- And it is known by them. -/
theorem canonicalize_eq (hv : IsJson number v) (hw : IsJson number w) (hvalue : v.value = w.value)
    (hties : TiesAlike collation v w) : canonicalize collation v = canonicalize collation w := by
  induction v using Json.rule generalizing w with
  | arr xs ih =>
      cases hv with | arr hxs =>
      cases hw <;> simp only [Json.value, reduceCtorEq, JsonValue.arr.injEq] at hvalue
      rename_i ys hys
      rw [itemValues_eq, itemValues_eq] at hvalue
      have hlength : xs.length = ys.length := by
        simpa only [List.length_map] using congrArg List.length hvalue
      simp only [canonicalize, canonicalizeItems_eq]
      refine congrArg Json.arr (List.ext_getElem? fun i => ?_)
      rw [List.getElem?_map, List.getElem?_map]
      cases hx : xs[i]? with
      | none =>
          have hy : ys[i]? = none := by
            rw [List.getElem?_eq_none_iff] at hx ⊢
            exact hlength ▸ hx
          rw [hy]
      | some x =>
          have hlt : i < ys.length := hlength ▸ (List.getElem?_eq_some_iff.mp hx).1
          obtain ⟨y, hy⟩ : ∃ y, ys[i]? = some y := ⟨_, List.getElem?_eq_getElem hlt⟩
          rw [hy]
          have hval : x.value = y.value := by
            have := congrArg (fun l => l[i]?) hvalue
            simpa [hx, hy] using this
          exact congrArg some (ih x (List.mem_of_getElem? hx) (hxs x (List.mem_of_getElem? hx))
            (hys y (List.mem_of_getElem? hy)) hval (hties.item hx hy))
  | obj fields ih =>
      cases hv with | obj hkeys _ hfields =>
      cases hw <;> simp only [Json.value, reduceCtorEq, JsonValue.obj.injEq] at hvalue
      rename_i fields' hkeys' _ hfields'
      have hget (key : JsString) :
          (fields.lookup key).map Json.value = (fields'.lookup key).map Json.value := by
        rw [← fieldValue_eq, ← fieldValue_eq, hvalue]
      have hmem (key : JsString) : key ∈ keys fields ↔ key ∈ keys fields' := by
        rw [mem_keys, mem_keys, ← Option.isSome_map (f := Json.value), hget, Option.isSome_map]
      rw [canonicalize_obj, canonicalize_obj]
      refine congrArg Json.obj (eq_of_keys ?_ (nodup_canonicalFields.mpr hkeys) fun key => ?_)
      · refine eq_of_pairs (nodup_canonicalFields.mpr hkeys) (nodup_canonicalFields.mpr hkeys')
          (fun key => ?_) fun a b hpair => ?_
        · rw [mem_keys_canonicalFields, mem_keys_canonicalFields, hmem]
        · have ha := (hmem a).mp (mem_keys_canonicalFields.mp (hpair.subset (by simp)))
          have hb := (hmem b).mp (mem_keys_canonicalFields.mp (hpair.subset (by simp)))
          rcases or_assoc.mpr (pair_canonicalFields hkeys hpair) with hsorted | htied
          · exact canonicalFields_pair hkeys' ha hb hsorted
          · rw [pair_of_tied hkeys htied] at hpair
            rw [pair_of_tied hkeys' htied]
            exact (hties [] fields fields' rfl rfl a b htied).mp hpair
      · rw [lookup_canonicalFields hkeys, lookup_canonicalFields hkeys']
        have hval := hget key
        cases hx : fields.lookup key with
        | none =>
            rw [hx] at hval
            rw [Option.map_eq_none_iff.mp hval.symm]
        | some x =>
            rw [hx] at hval
            obtain ⟨y, hy, heq⟩ := Option.map_eq_some_iff.mp hval.symm
            rw [hy]
            have hxm := (lookup_iff hkeys).mp hx
            exact congrArg some (ih _ hxm (hfields _ hxm)
              (hfields' _ ((lookup_iff hkeys').mp hy)) heq.symm (hties.field hx hy))
  | _ =>
      cases hw <;> cases hvalue
      rfl

end

/-! ## The hash -/

/-- SHA-256 of a text, in hexadecimal. -/
abbrev Sha256Hex := {f : String → String // Function.Injective f}

/-- What `ExecutorResultService.publish` computes of a payload. -/
def payloadHash (sha256Hex : Sha256Hex) (payload : Json JsString) : String :=
  "sha256:" ++ sha256Hex.val (stringify (canonicalize collation payload))

/-- A payload as `express.json` reads it, where the numbers in it are finite. -/
abbrev Payload := {v : Json JsString // IsJson NumberText v}

variable {collation}

theorem payloadHash_inj (sha256Hex : Sha256Hex) {v w : Json JsString} (hv : IsJson NumberText v)
    (hw : IsJson NumberText w) :
    payloadHash collation sha256Hex v = payloadHash collation sha256Hex w ↔
      canonicalize collation v = canonicalize collation w := by
  refine ⟨fun h => ?_, fun h => congrArg (fun c => "sha256:" ++ sha256Hex.val (stringify c)) h⟩
  have htext := sha256Hex.property (String.append_right_inj _ |>.mp h)
  exact stringify_inj (isJson_canonicalize hv) (isJson_canonicalize hw) htext

variable (collation)

/-- **Two payloads** have one hash as long as they are equal up to the order of their keys, unless
tied keys come in different orders in the two. -/
theorem same_hash_iff (sha256Hex : Sha256Hex) (v w : Payload) :
    (payloadHash collation sha256Hex v = payloadHash collation sha256Hex w ↔
      v.val.value = w.val.value) ↔
    (v.val.value = w.val.value → TiesAlike collation v.val w.val) := by
  rw [payloadHash_inj sha256Hex v.property w.property]
  constructor
  · intro hiff hvalue
    exact ties_of_canonicalize_eq v.property w.property (hiff.mpr hvalue)
  · intro hties
    constructor
    · intro h
      have hv : (canonicalize collation v.val).value = v.val.value := value_canonicalize v.property
      rw [← hv, h, value_canonicalize w.property]
    · intro hvalue
      exact canonicalize_eq v.property w.property hvalue (hties hvalue)

/-- `é` as one character, and as the letter with its accent after it. -/
def composed : JsString := ⟨[0xE9]⟩
def decomposed : JsString := ⟨[0x65, 0x301]⟩

def composedFirst : Json JsString := .obj [(composed, .num "1"), (decomposed, .num "2")]
def decomposedFirst : Json JsString := .obj [(decomposed, .num "2"), (composed, .num "1")]

theorem one_text : NumberText "1" := ⟨by decide, List.all_eq_true.mp (by decide)⟩
theorem two_text : NumberText "2" := ⟨by decide, List.all_eq_true.mp (by decide)⟩

theorem composedFirst_isJson : IsJson NumberText composedFirst := by
  refine .obj (by decide +kernel) (by decide +kernel) fun e he => ?_
  simp only [List.mem_cons, List.not_mem_nil, or_false] at he
  rcases he with rfl | rfl
  · exact .num one_text
  · exact .num two_text

theorem decomposedFirst_isJson : IsJson NumberText decomposedFirst := by
  refine .obj (by decide +kernel) (by decide +kernel) fun e he => ?_
  simp only [List.mem_cons, List.not_mem_nil, or_false] at he
  rcases he with rfl | rfl
  · exact .num two_text
  · exact .num one_text

theorem same_fields : composedFirst.value = decomposedFirst.value := by
  refine congrArg JsonValue.obj (funext fun key => ?_)
  simp only [fieldValue]
  split_ifs with hcomposed hdecomposed
  · exact absurd (hcomposed.symm.trans hdecomposed) (by decide +kernel)
  all_goals rfl

/-- **Canonically equivalent keys** keep their order, so one value has two hashes. -/
theorem composed_keys_differ (sha256Hex : Sha256Hex)
    (htie : collation composed = collation decomposed) :
    composedFirst.value = decomposedFirst.value ∧
      payloadHash collation sha256Hex composedFirst ≠
        payloadHash collation sha256Hex decomposedFirst := by
  refine ⟨same_fields, fun hhash => ?_⟩
  have hties := ties_of_canonicalize_eq composedFirst_isJson decomposedFirst_isJson
    ((payloadHash_inj sha256Hex composedFirst_isJson decomposedFirst_isJson).mp hhash)
  have htied : Tied collation composed decomposed :=
    ⟨by decide +kernel, by decide +kernel, by decide +kernel, htie⟩
  have hpair := (hties [] _ _ rfl rfl _ _ htied).mp (List.Sublist.refl _)
  exact absurd hpair (by decide +kernel)

end

/-- A collation key in which `é` counts as its letter and its accent. -/
def decomposedKey (s : JsString) : Nat :=
  let units := s.units.flatMap fun u => if u = 0xE9 then decomposed.units else [u]
  units.foldl (fun n u => 0x10000 * n + u.toNat) 0

theorem equal_payload_hashed_apart :
    ¬ ∀ v w : Payload, payloadHash decomposedKey ⟨id, Function.injective_id⟩ v =
      payloadHash decomposedKey ⟨id, Function.injective_id⟩ w ↔ v.val.value = w.val.value := by
  intro hclaim
  obtain ⟨hvalue, hhash⟩ := composed_keys_differ decomposedKey ⟨id, Function.injective_id⟩
    (by decide +kernel)
  exact hhash ((hclaim ⟨_, composedFirst_isJson⟩ ⟨_, decomposedFirst_isJson⟩).mpr hvalue)

end TrustGate.Market
