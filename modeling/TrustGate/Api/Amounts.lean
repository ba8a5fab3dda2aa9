import TrustGate.Api.Routes
import TrustGate.Market.Money

set_option autoImplicit false

/-! # Amounts and the columns they are saved to

The schemas admit any amount that is not zero, the columns `reserve_price_stroops`,
`amount_stroops` and `collateral_stroops` are of the type `bigint`. Whether an admitted amount fits
is read off its digits. -/

namespace TrustGate.Api

open Market Decimal

/-- The fields with an amount that is saved. -/
inductive AmountField (cfg : Settings) : List StringField → String → Prop
  | reservePrice (now : Nat) : AmountField cfg (createTaskSchema cfg now) "reservePrice"
  | amount : AmountField cfg createBidSignedSchema "amount"
  | collateral : AmountField cfg createBidSignedSchema "collateral"
  | localAmount : AmountField cfg createBidLocalSchema "amount"
  | localCollateral : AmountField cfg createBidLocalSchema "collateral"

/-- `2^63 - 1`, the largest `bigint`. -/
def maxBigint : String := "9223372036854775807"

/-- The digits of an amount without its point, filled up to stroops and without zeros in front. -/
def stroopDigits (s : String) : List Char :=
  let trimmed := jsTrim s.toList
  let whole := trimmed.takeWhile (· ≠ '.')
  let frac := (trimmed.dropWhile (· ≠ '.')).drop 1
  (whole ++ (frac ++ List.replicate (USDC_DECIMALS - frac.length) '0')).dropWhile (· = '0')

/-- There are fewer digits than `maxBigint` has, or as many and `maxBigint` is not before them in a
dictionary. -/
def FitsBigint (s : String) : Prop :=
  (stroopDigits s).length < maxBigint.toList.length ∨
    (stroopDigits s).length = maxBigint.toList.length ∧
      before maxBigint.toList (stroopDigits s) = false

instance (s : String) : Decidable (FitsBigint s) := inferInstanceAs (Decidable (_ ∨ _ ∧ _))

/-- The point is where the whole digits end. -/
theorem split_text {places : Nat} (x : Numeral places) :
    x.text.takeWhile (· ≠ '.') = x.whole ∧ (x.text.dropWhile (· ≠ '.')).drop 1 = x.frac := by
  have hwhole : ∀ c ∈ x.whole, decide (c ≠ '.') = true := by
    intro c hc
    have hdigit := x.whole_digits c hc
    refine decide_eq_true ?_
    rintro rfl
    cases hdigit
  unfold Numeral.text
  split_ifs with h
  · rw [List.takeWhile_eq_self_iff.mpr hwhole, List.dropWhile_eq_nil_iff.mpr hwhole, h]
    exact ⟨rfl, rfl⟩
  · rw [List.takeWhile_append_of_pos hwhole, List.dropWhile_append_of_pos hwhole,
      List.takeWhile_cons_of_neg (by simp), List.dropWhile_cons_of_neg (by simp), List.append_nil]
    exact ⟨rfl, rfl⟩

theorem value_dropZeros {cs : List Char} : value (cs.dropWhile (· = '0')) = value cs := by
  induction cs with
  | nil => rfl
  | cons c cs ih =>
      by_cases hc : c = '0'
      · rw [List.dropWhile_cons_of_pos (by simpa using hc), ih, value_cons, hc]
        simp
      · rw [List.dropWhile_cons_of_neg (by simpa using hc)]

/-- What the digits of an accepted amount are. -/
theorem stroopDigits_spec {s : String} {n : Nat} (h : parseUsdcDecimalToStroops s = .ok n) :
    Digits (stroopDigits s) ∧ value (stroopDigits s) = n ∧
      (stroopDigits s).head? ≠ some '0' := by
  obtain ⟨x, htrim, rfl⟩ := parse_eq_ok_iff.mp h
  have hdigits : stroopDigits s = (x.whole ++ x.padded).dropWhile (· = '0') := by
    obtain ⟨hwhole, hfrac⟩ := split_text x
    unfold stroopDigits
    simp only [htrim, hwhole, hfrac]
    rfl
  rw [hdigits]
  refine ⟨fun c hc => ?_, value_dropZeros, ?_⟩
  · exact x.whole_digits.append x.padded_digits c ((List.dropWhile_sublist _).subset hc)
  · intro hhead
    have := List.head?_dropWhile_not (fun c => decide (c = '0')) (x.whole ++ x.padded)
    rw [hhead] at this
    cases this

/-- **The amounts that fit** are told by their digits. -/
theorem fitsBigint_iff {s : String} {n : Nat} (h : parseUsdcDecimalToStroops s = .ok n) :
    FitsBigint s ↔ n < 2 ^ 63 := by
  obtain ⟨hdigits, hvalue, hhead⟩ := stroopDigits_spec h
  unfold FitsBigint
  generalize stroopDigits s = digits at hdigits hvalue hhead ⊢
  have hmax : Digits maxBigint.toList :=
    List.all_eq_true.mp (by decide : maxBigint.toList.all Char.isDigit = true)
  have hmaxValue : value maxBigint.toList = 2 ^ 63 - 1 := by decide +kernel
  have hlength : maxBigint.toList.length = 19 := rfl
  rw [hlength]
  have hlt := value_lt hdigits
  rw [hvalue] at hlt
  rcases lt_trichotomy digits.length 19 with hlen | hlen | hlen
  · have hpow : 10 ^ digits.length ≤ 10 ^ 18 := Nat.pow_le_pow_right (by omega) (by omega)
    exact iff_of_true (.inl hlen) (by omega)
  · have hbefore := value_lt_value_iff hmax hdigits (hlength.trans hlen.symm)
    rw [hvalue, hmaxValue] at hbefore
    rw [← Bool.not_eq_true, ← hbefore]
    omega
  · cases digits with
    | nil => cases hlen
    | cons c cs =>
        have hlow := le_value_of_head hdigits (by simpa using hhead)
        rw [List.length_cons] at hlen
        have hpow : 10 ^ 19 ≤ 10 ^ cs.length := Nat.pow_le_pow_right (by omega) (by omega)
        rw [hvalue] at hlow
        exact iff_of_false (by simp only [List.length_cons]; omega) (by omega)

theorem AmountField.mem {cfg : Settings} {schema : List StringField} {field : String}
    (h : AmountField cfg schema field) : amountField field ∈ schema := by
  cases h with
  | reservePrice now => simp [createTaskSchema]
  | amount => simp [createBidSignedSchema]
  | collateral => simp [createBidSignedSchema]
  | localAmount => simp [createBidLocalSchema, createBidSignedSchema]
  | localCollateral => simp [createBidLocalSchema, createBidSignedSchema]

/-- What a schema accepts is an object in which every field is a string that passes its checks. -/
theorem safeParse_ok {fields : List StringField} {body : Option Json} {value : String → String}
    (h : safeParse fields body = .ok value) :
    ∃ values, body = some (.obj values) ∧ ∀ f ∈ fields,
      values.lookup f.name = some (.str (value f.name)) ∧
        f.issues (some (.str (value f.name))) = [] := by
  unfold safeParse at h
  split at h
  case h_2 => cases h
  rename_i values
  dsimp only at h
  split_ifs at h with hissues
  cases h
  refine ⟨values, rfl, fun f hf => ?_⟩
  have hnone := List.filterMap_eq_nil_iff.mp (List.isEmpty_iff.mp hissues) f hf
  have hfield : f.issues (values.lookup f.name) = [] := by
    split at hnone
    · assumption
    · cases hnone
  cases hlookup : values.lookup f.name with
  | none =>
      rw [hlookup] at hfield
      cases hfield
  | some v =>
      rw [hlookup] at hfield
      cases v with
      | str s =>
          dsimp only
          rw [hlookup]
          exact ⟨rfl, hfield⟩
      | null => cases hfield
      | bool b => cases hfield
      | num text => cases hfield
      | arr xs => cases hfield
      | obj fields => cases hfield

/-- An amount that a schema accepts is not zero. -/
theorem amount_pos {cfg : Settings} {schema : List StringField} {field : String}
    {body : Option Json} {value : String → String} (hfield : AmountField cfg schema field)
    (h : safeParse schema body = .ok value) :
    ∃ n, parseUsdcDecimalToStroops (value field) = .ok n ∧ 0 < n := by
  obtain ⟨_, -, haccepted⟩ := safeParse_ok h
  have hissues := (haccepted _ hfield.mem).2
  have hcheck : isUsdcAmount (value field) = true := by
    by_contra hbad
    have hmem : (isUsdcAmount, field ++ " must be a valid USDC decimal string") ∈
        (amountField field).checks := by simp [amountField]
    have := List.filterMap_eq_nil_iff.mp hissues _ hmem
    simp [amountField, hbad] at this
  unfold isUsdcAmount at hcheck
  cases hparse : parseUsdcDecimalToStroops (value field) with
  | error e =>
      rw [hparse] at hcheck
      cases hcheck
  | ok n =>
      rw [hparse] at hcheck
      exact ⟨n, rfl, by simpa using hcheck⟩

/-- What a `bigint` column for an amount takes. -/
def InColumn (s : String) : Prop :=
  ∃ n, parseUsdcDecimalToStroops s = .ok n ∧ 1 ≤ n ∧ n ≤ 2 ^ 63 - 1

/-- **An accepted amount fits its column** if and only if its digits say so. -/
theorem accepted_fits_iff (cfg : Settings) (schema : List StringField) (field : String)
    (body : Option Json) (value : String → String) (hfield : AmountField cfg schema field)
    (haccepted : safeParse schema body = .ok value) :
    InColumn (value field) ↔ FitsBigint (value field) := by
  obtain ⟨n, hparse, hpos⟩ := amount_pos hfield haccepted
  rw [fitsBigint_iff hparse]
  constructor
  · rintro ⟨k, hk, -, hle⟩
    rw [hparse] at hk
    cases hk
    omega
  · intro hlt
    exact ⟨n, hparse, hpos, by omega⟩

/-- A request to create a task at this price. -/
def taskBody (reservePrice : String) : Json := .obj [
  ("requester", .str "GAAAAAAAAAAAAAAAAAAAAAAAAAAAAAAAAAAAAAAAAAAAAAAAAAAAAAAA"),
  ("reservePrice", .str reservePrice), ("description", .str "d"), ("deadline", .str "1")]

def echoSettings : Settings := { toPlatform := echoPlatform }

theorem taskBody_accepted (reservePrice : String)
    (hprice : (safeParse (createTaskSchema echoSettings 0) (some (taskBody reservePrice))).isOk =
      true) :
    ∃ value, safeParse (createTaskSchema echoSettings 0) (some (taskBody reservePrice)) = .ok value ∧
      value "reservePrice" = reservePrice := by
  cases h : safeParse (createTaskSchema echoSettings 0) (some (taskBody reservePrice)) with
  | error detail =>
      rw [h] at hprice
      cases hprice
  | ok value =>
      refine ⟨value, rfl, ?_⟩
      obtain ⟨values, hbody, haccepted⟩ := safeParse_ok h
      have hlookup := (haccepted _ (AmountField.reservePrice 0).mem).1
      cases hbody
      cases hlookup
      rfl

/-- A trillion is accepted, and is too much for the column. -/
theorem trillion_accepted : ¬ ∀ cfg schema field body value, AmountField cfg schema field →
    safeParse schema body = .ok value → InColumn (value field) := by
  intro hclaim
  obtain ⟨value, haccepted, hvalue⟩ := taskBody_accepted "1000000000000" (by decide +kernel)
  obtain ⟨n, hparse, -, hle⟩ := hclaim _ _ _ _ value (.reservePrice 0) haccepted
  rw [hvalue] at hparse
  have : parseUsdcDecimalToStroops "1000000000000" = .ok (10 ^ 19) := by decide +kernel
  rw [this] at hparse
  cases hparse
  omega

theorem one_and_a_half_fits : InColumn "1.5" := by
  obtain ⟨value, haccepted, hvalue⟩ := taskBody_accepted "1.5" (by decide +kernel)
  have hfits : FitsBigint (value "reservePrice") := by
    rw [hvalue]
    decide +kernel
  have := (accepted_fits_iff echoSettings _ "reservePrice" _ value (.reservePrice 0) haccepted).mpr
    hfits
  rwa [hvalue] at this

end TrustGate.Api
