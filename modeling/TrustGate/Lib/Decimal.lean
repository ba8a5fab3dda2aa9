import Mathlib.Data.List.DropRight
import Mathlib.Tactic

set_option autoImplicit false

/-! # Decimal numerals

Strings of decimal digits, and numerals with a point and at most a given number of digits behind it.
Such a numeral is a whole number of units (`Numeral.units`). Every number of units has exactly one
shortest numeral, without leading zeros and without zeros at the end (`ofUnits`). -/

namespace TrustGate.Decimal

/-! ## Digit strings -/

abbrev Digits (cs : List Char) : Prop := ∀ c ∈ cs, c.isDigit = true

/-- The number that a digit string stands for. -/
def value (cs : List Char) : Nat := Nat.ofDigitChars 10 cs 0

theorem value_append (cs ds : List Char) :
    value (cs ++ ds) = value cs * 10 ^ ds.length + value ds := by
  unfold value
  rw [Nat.ofDigitChars_append, Nat.ofDigitChars_eq_ofDigitChars_zero, Nat.mul_comm]

theorem value_cons (c : Char) (cs : List Char) :
    value (c :: cs) = (c.toNat - '0'.toNat) * 10 ^ cs.length + value cs := by
  have h := value_append [c] cs
  simpa [value, Nat.ofDigitChars_cons] using h

@[simp] theorem value_zeros (n : Nat) : value (List.replicate n '0') = 0 := by
  unfold value
  rw [Nat.ofDigitChars_replicate_zero, Nat.mul_zero]

@[simp] theorem value_toDigits (n : Nat) : value (Nat.toDigits 10 n) = n :=
  Nat.ofDigitChars_ten_toDigits

theorem digits_toDigits (n : Nat) : Digits (Nat.toDigits 10 n) :=
  fun _ hc => Nat.isDigit_of_mem_toDigits (by decide) (by decide) hc

theorem digits_zeros (n : Nat) : Digits (List.replicate n '0') := by
  intro c hc
  rw [List.eq_of_mem_replicate hc]
  rfl

theorem Digits.append {cs ds : List Char} (hc : Digits cs) (hd : Digits ds) : Digits (cs ++ ds) := by
  intro c hmem
  rcases List.mem_append.mp hmem with hmem | hmem
  · exact hc c hmem
  · exact hd c hmem

theorem digit_lt {c : Char} (h : c.isDigit = true) : c.toNat - '0'.toNat < 10 := by
  have := (Char.isDigit_iff_toNat.mp h).2
  simp only [Char.reduceToNat] at *
  omega

theorem digit_inj {c d : Char} (hc : c.isDigit = true) (hd : d.isDigit = true)
    (h : c.toNat - '0'.toNat = d.toNat - '0'.toNat) : c = d := by
  have hc := (Char.isDigit_iff_toNat.mp hc).1
  have hd := (Char.isDigit_iff_toNat.mp hd).1
  exact Char.toNat_inj.mp (by omega)

theorem value_lt {cs : List Char} (h : Digits cs) : value cs < 10 ^ cs.length := by
  induction cs with
  | nil => exact Nat.one_pos
  | cons c cs ih =>
      have hc := digit_lt (h c List.mem_cons_self)
      have hcs := ih fun d hd => h d (List.mem_cons_of_mem c hd)
      rw [value_cons, List.length_cons, pow_succ]
      calc (c.toNat - '0'.toNat) * 10 ^ cs.length + value cs
          < (c.toNat - '0'.toNat) * 10 ^ cs.length + 10 ^ cs.length := by omega
        _ = (c.toNat - '0'.toNat + 1) * 10 ^ cs.length := by ring
        _ ≤ 10 * 10 ^ cs.length := Nat.mul_le_mul_right _ hc
        _ = 10 ^ cs.length * 10 := Nat.mul_comm _ _

/-- `cs` stands before `ds` in a dictionary. -/
def before : List Char → List Char → Bool
  | _, [] => false
  | [], _ :: _ => true
  | c :: cs, d :: ds => c.toNat < d.toNat || (c = d && before cs ds)

/-- Digit strings of one length are ordered like the numbers they stand for. -/
theorem value_lt_value_iff {cs ds : List Char} (hc : Digits cs) (hd : Digits ds)
    (hlen : cs.length = ds.length) : value cs < value ds ↔ before cs ds = true := by
  induction cs generalizing ds with
  | nil =>
      rw [List.length_eq_zero_iff.mp hlen.symm]
      simp [before]
  | cons c cs ih =>
      cases ds with
      | nil => cases hlen
      | cons d ds =>
          have hlen : cs.length = ds.length := Nat.succ.inj hlen
          have hc' : Digits cs := fun x hx => hc x (List.mem_cons_of_mem c hx)
          have hd' : Digits ds := fun x hx => hd x (List.mem_cons_of_mem d hx)
          have hcd := hc c List.mem_cons_self
          have hdd := hd d List.mem_cons_self
          have hvc := value_lt hc'
          have hvd := value_lt hd'
          have hc0 := (Char.isDigit_iff_toNat.mp hcd).1
          have hd0 := (Char.isDigit_iff_toNat.mp hdd).1
          rw [value_cons, value_cons, hlen, before, Bool.or_eq_true, Bool.and_eq_true,
            decide_eq_true_eq, decide_eq_true_eq, ← ih hc' hd' hlen]
          rw [hlen] at hvc
          rcases lt_trichotomy (c.toNat - '0'.toNat) (d.toNat - '0'.toNat) with h | h | h
          · have := Nat.mul_le_mul_right (10 ^ ds.length) h
            rw [Nat.succ_mul] at this
            exact iff_of_true (by omega) (.inl (by omega))
          · have heq := digit_inj hcd hdd h
            subst heq
            simp
          · have := Nat.mul_le_mul_right (10 ^ ds.length) h
            rw [Nat.succ_mul] at this
            refine iff_of_false (by omega) ?_
            rintro (h' | ⟨rfl, -⟩)
            · omega
            · omega

/-- Of one length, there is one digit string for each number. -/
theorem value_inj {cs ds : List Char} (hc : Digits cs) (hd : Digits ds)
    (hlen : cs.length = ds.length) (h : value cs = value ds) : cs = ds := by
  induction cs generalizing ds with
  | nil => exact (List.length_eq_zero_iff.mp hlen.symm).symm
  | cons c cs ih =>
      cases ds with
      | nil => cases hlen
      | cons d ds =>
          have hlen : cs.length = ds.length := Nat.succ.inj hlen
          have hc' : Digits cs := fun x hx => hc x (List.mem_cons_of_mem c hx)
          have hd' : Digits ds := fun x hx => hd x (List.mem_cons_of_mem d hx)
          have hvc := value_lt hc'
          have hvd := value_lt hd'
          have hpos : 0 < 10 ^ ds.length := by positivity
          rw [value_cons, value_cons, hlen] at h
          rw [hlen] at hvc
          have hhead := congrArg (· / 10 ^ ds.length) h
          have htail := congrArg (· % 10 ^ ds.length) h
          simp only [Nat.mul_comm _ (10 ^ ds.length), Nat.mul_add_div hpos, Nat.mul_add_mod,
            Nat.div_eq_of_lt hvc, Nat.div_eq_of_lt hvd, Nat.mod_eq_of_lt hvc,
            Nat.mod_eq_of_lt hvd, Nat.add_zero] at hhead htail
          rw [digit_inj (hc c List.mem_cons_self) (hd d List.mem_cons_self) hhead,
            ih hc' hd' hlen htail]

/-! ## Leading zeros -/

/-- A single zero, or no zero at the front. -/
def Plain (cs : List Char) : Prop := cs = ['0'] ∨ cs ≠ [] ∧ cs.head? ≠ some '0'

theorem le_value_of_head {c : Char} {cs : List Char} (hdigits : Digits (c :: cs)) (hc : c ≠ '0') :
    10 ^ cs.length ≤ value (c :: cs) := by
  have hlow := (Char.isDigit_iff_toNat.mp (hdigits c List.mem_cons_self)).1
  have hne : c.toNat ≠ '0'.toNat := fun h => hc (Char.toNat_inj.mp h)
  rw [value_cons]
  have hpos : 1 ≤ c.toNat - '0'.toNat := by omega
  have := Nat.mul_le_mul_right (10 ^ cs.length) hpos
  omega

/-- **The numeral without leading zeros** is no longer than any other of its number. -/
theorem length_toDigits_le {cs : List Char} (h : Digits cs) (hne : cs ≠ []) :
    (Nat.toDigits 10 (value cs)).length ≤ cs.length :=
  (Nat.length_toDigits_le_iff (by decide) (List.length_pos_iff.mpr hne)).mpr (value_lt h)

/-- Of that length, there is no other. -/
theorem eq_toDigits {cs : List Char} (h : Digits cs)
    (hlen : cs.length ≤ (Nat.toDigits 10 (value cs)).length) (hne : cs ≠ []) :
    cs = Nat.toDigits 10 (value cs) :=
  value_inj h (digits_toDigits _) (le_antisymm hlen (length_toDigits_le h hne))
    (value_toDigits _).symm

theorem Plain.eq_toDigits {cs : List Char} (h : Plain cs) (hdigits : Digits cs) :
    cs = Nat.toDigits 10 (value cs) := by
  rcases h with rfl | ⟨hne, hhead⟩
  · rfl
  refine Decimal.eq_toDigits hdigits ?_ hne
  cases cs with
  | nil => exact absurd rfl hne
  | cons c cs =>
      have hc : c ≠ '0' := by simpa using hhead
      have hle := le_value_of_head hdigits hc
      by_contra hlt
      rw [not_le, List.length_cons] at hlt
      cases hcs : cs.length with
      | zero =>
          rw [hcs, Nat.lt_one_iff, List.length_eq_zero_iff] at hlt
          exact Nat.toDigits_ne_nil hlt
      | succ n =>
          have hshort := (Nat.length_toDigits_le_iff (by decide) (Nat.succ_pos n)).mp
            (Nat.lt_succ_iff.mp (hcs ▸ hlt))
          rw [hcs] at hle
          exact absurd hle (not_le.mpr hshort)

theorem plain_toDigits (n : Nat) : Plain (Nat.toDigits 10 n) := by
  by_cases hhead : (Nat.toDigits 10 n).head? = some '0'
  · left
    obtain ⟨cs, hcs⟩ := List.head?_eq_some_iff.mp hhead
    -- the digits behind the zero would do
    have hvalue : value cs = n := by
      have := value_toDigits n
      rw [hcs, value_cons] at this
      simpa using this
    cases cs with
    | nil => exact hcs
    | cons c cs =>
        have hdigits : Digits (c :: cs) := fun d hd =>
          digits_toDigits n d (hcs ▸ List.mem_cons_of_mem '0' hd)
        have hle := length_toDigits_le hdigits (List.cons_ne_nil c cs)
        rw [hvalue, hcs, List.length_cons (a := '0')] at hle
        exact absurd hle (by omega)
  · exact .inr ⟨Nat.toDigits_ne_nil, hhead⟩

/-! ## Numerals -/

/-- Digits, then possibly a point and at most `places` digits. -/
structure Numeral (places : Nat) where
  whole : List Char
  whole_digits : Digits whole
  whole_ne : whole ≠ []
  frac : List Char
  frac_digits : Digits frac
  frac_le : frac.length ≤ places

namespace Numeral

variable {places : Nat}

def text (x : Numeral places) : List Char :=
  if x.frac = [] then x.whole else x.whole ++ '.' :: x.frac

/-- The number it stands for. -/
def number (x : Numeral places) : Rat := value x.whole + value x.frac / 10 ^ x.frac.length

/-- The fraction filled up with zeros. -/
def padded (x : Numeral places) : List Char :=
  x.frac ++ List.replicate (places - x.frac.length) '0'

/-- The number in units of `10 ^ -places`. -/
def units (x : Numeral places) : Nat := value (x.whole ++ x.padded)

/-- No zero too many. -/
structure Canonical (x : Numeral places) : Prop where
  whole : Plain x.whole
  frac : x.frac.getLast? ≠ some '0'

theorem length_padded (x : Numeral places) : x.padded.length = places := by
  have := x.frac_le
  simp only [padded, List.length_append, List.length_replicate]
  omega

theorem padded_digits (x : Numeral places) : Digits x.padded :=
  x.frac_digits.append (digits_zeros _)

theorem units_eq (x : Numeral places) : x.units = value x.whole * 10 ^ places + value x.padded := by
  rw [units, value_append, length_padded]

/-- **The units are the number**, times `10 ^ places`. -/
theorem number_mul (x : Numeral places) : x.number * 10 ^ places = x.units := by
  have hle := x.frac_le
  have hsplit : (10 : Rat) ^ places = 10 ^ x.frac.length * 10 ^ (places - x.frac.length) := by
    rw [← pow_add, Nat.add_sub_cancel' hle]
  have hpadded : value x.padded = value x.frac * 10 ^ (places - x.frac.length) := by
    rw [padded, value_append, value_zeros, List.length_replicate, Nat.add_zero]
  have hpos : (10 : Rat) ^ x.frac.length ≠ 0 := by positivity
  rw [units_eq, hpadded, number]
  push_cast
  rw [hsplit]
  field_simp

theorem number_eq_iff (x y : Numeral places) : x.number = y.number ↔ x.units = y.units := by
  have hpos : (10 : Rat) ^ places ≠ 0 := by positivity
  rw [← mul_left_inj' hpos, number_mul, number_mul, Nat.cast_inj]

theorem whole_of_units {x y : Numeral places} (h : x.units = y.units) :
    value x.whole = value y.whole ∧ value x.padded = value y.padded := by
  have hx := value_lt x.padded_digits
  have hy := value_lt y.padded_digits
  rw [length_padded] at hx hy
  rw [units_eq, units_eq] at h
  have hpos : 0 < 10 ^ places := by positivity
  constructor
  · have := congrArg (· / 10 ^ places) h
    simpa [Nat.mul_add_div hpos, Nat.div_eq_of_lt, hx, hy, Nat.mul_comm _ (10 ^ places)] using this
  · have := congrArg (· % 10 ^ places) h
    simpa [Nat.mod_eq_of_lt, hx, hy] using this

theorem length_text (x : Numeral places) :
    x.text.length = x.whole.length + if x.frac = [] then 0 else x.frac.length + 1 := by
  unfold text
  split_ifs
  · rfl
  · simp

/-- A fraction without a zero at the end begins every other fraction of the same number. -/
theorem Canonical.frac_prefix {x y : Numeral places} (hx : x.Canonical)
    (h : x.padded = y.padded) : x.frac <+: y.frac := by
  have hprefix : x.frac <+: y.padded := h ▸ List.prefix_append _ _
  have hprefix' : y.frac <+: y.padded := List.prefix_append _ _
  rcases le_or_gt x.frac.length y.frac.length with hle | hlt
  · exact List.prefix_of_prefix_length_le hprefix hprefix' hle
  obtain ⟨rest, hrest⟩ := List.prefix_of_prefix_length_le hprefix' hprefix hlt.le
  -- what `x` has more of is filling
  have hzeros : rest ++ List.replicate (places - x.frac.length) '0' =
      List.replicate (places - y.frac.length) '0' := by
    have hsame : y.frac ++ (rest ++ List.replicate (places - x.frac.length) '0') =
        y.frac ++ List.replicate (places - y.frac.length) '0' := by
      rw [← List.append_assoc, hrest]
      exact h
    exact List.append_cancel_left hsame
  have hne : rest ≠ [] := by
    rintro rfl
    rw [List.append_nil] at hrest
    rw [hrest] at hlt
    exact lt_irrefl _ hlt
  refine absurd ?_ hx.frac
  rw [← hrest, List.getLast?_append_of_ne_nil _ hne, List.getLast?_eq_some_getLast hne]
  have hmem : rest.getLast hne ∈ List.replicate (places - y.frac.length) '0' := by
    rw [← hzeros]
    exact List.mem_append_left _ (List.getLast_mem hne)
  rw [List.eq_of_mem_replicate hmem]

/-- **There is one shortest numeral** of each number. -/
theorem Canonical.shortest {x y : Numeral places} (hx : x.Canonical) (h : x.units = y.units) :
    y.text = x.text ∨ x.text.length < y.text.length := by
  obtain ⟨hwhole, hpadded⟩ := whole_of_units h
  have hpadded : x.padded = y.padded :=
    value_inj x.padded_digits y.padded_digits (by rw [length_padded, length_padded]) hpadded
  have hfrac := hx.frac_prefix hpadded
  have hplain := hx.whole.eq_toDigits x.whole_digits
  rw [hwhole] at hplain
  have hlen : x.whole.length ≤ y.whole.length := by
    rw [hplain]
    exact length_toDigits_le y.whole_digits y.whole_ne
  rcases hlen.lt_or_eq with hlt | heq
  · right
    have hle := hfrac.length_le
    rw [length_text, length_text]
    split_ifs with hx0 hy0
    · omega
    · omega
    · rename_i hy0
      exact absurd (List.prefix_nil.mp (hy0 ▸ hfrac)) hx0
    · omega
  · have hsame : y.whole = x.whole := by
      rw [hplain]
      exact Decimal.eq_toDigits y.whole_digits (by rw [← hplain, heq]) y.whole_ne
    rcases hfrac.length_le.lt_or_eq with hlt | heq'
    · right
      have hy0 : y.frac ≠ [] := List.length_pos_iff.mp (by omega)
      rw [length_text, length_text, if_neg hy0, heq]
      split_ifs <;> omega
    · left
      rw [text, text, hsame, hfrac.eq_of_length heq']

end Numeral

/-! ## The shortest numeral -/

/-- The digits of `n`, at least one of them before the point. -/
def pad (places n : Nat) : List Char :=
  List.replicate (places + 1 - (Nat.toDigits 10 n).length) '0' ++ Nat.toDigits 10 n

theorem pad_digits (places n : Nat) : Digits (pad places n) :=
  (digits_zeros _).append (digits_toDigits n)

theorem value_pad (places n : Nat) : value (pad places n) = n := by
  rw [pad, value_append, value_zeros, Nat.zero_mul, Nat.zero_add, value_toDigits]

theorem length_pad (places n : Nat) : places + 1 ≤ (pad places n).length := by
  rw [pad, List.length_append, List.length_replicate]
  omega

/-- The shortest numeral of `n` units. -/
def ofUnits (places n : Nat) : Numeral places where
  whole := (pad places n).take ((pad places n).length - places)
  whole_digits c hc := pad_digits places n c (List.mem_of_mem_take hc)
  whole_ne := by
    have := length_pad places n
    intro h
    have := congrArg List.length h
    rw [List.length_take, List.length_nil] at this
    omega
  frac := ((pad places n).drop ((pad places n).length - places)).rdropWhile (· = '0')
  frac_digits c hc := pad_digits places n c
    (List.mem_of_mem_drop ((List.rdropWhile_prefix _ _).subset hc))
  frac_le := by
    refine (List.rdropWhile_prefix _ _).length_le.trans ?_
    rw [List.length_drop]
    omega

/-- Zeros taken off at the end are filled in again. -/
theorem padded_ofUnits (places n : Nat) :
    (ofUnits places n).padded = (pad places n).drop ((pad places n).length - places) := by
  have hlen : ((pad places n).drop ((pad places n).length - places)).length = places := by
    have := length_pad places n
    rw [List.length_drop]
    omega
  generalize hd : (pad places n).drop ((pad places n).length - places) = digits at hlen
  have hsplit := List.rdropWhile_append_rtakeWhile (p := (· = '0')) (l := digits)
  have hzeros : digits.rtakeWhile (· = '0') =
      List.replicate (digits.rtakeWhile (· = '0')).length '0' :=
    List.eq_replicate_of_mem fun c hc => by simpa using List.mem_rtakeWhile_imp hc
  have hrest : (digits.rtakeWhile (· = '0')).length =
      places - (digits.rdropWhile (· = '0')).length := by
    have := congrArg List.length hsplit
    rw [List.length_append] at this
    omega
  unfold Numeral.padded ofUnits
  dsimp only
  rw [hd, ← hrest, ← hzeros, hsplit]

@[simp] theorem units_ofUnits (places n : Nat) : (ofUnits places n).units = n := by
  rw [Numeral.units, padded_ofUnits]
  show value (List.take _ _ ++ _) = n
  rw [List.take_append_drop, value_pad]

theorem canonical_ofUnits (places n : Nat) : (ofUnits places n).Canonical where
  whole := by
    show Plain ((pad places n).take ((pad places n).length - places))
    have hplain := plain_toDigits n
    by_cases hlen : places + 1 ≤ (Nat.toDigits 10 n).length
    · -- the digits themselves
      have hpad : pad places n = Nat.toDigits 10 n := by
        rw [pad, Nat.sub_eq_zero_of_le hlen]
        rfl
      rw [hpad]
      rcases hplain with h0 | ⟨hne, hhead⟩
      · left
        rw [h0] at hlen ⊢
        obtain rfl : places = 0 := by simpa using hlen
        rfl
      · right
        cases hdigits : Nat.toDigits 10 n with
        | nil => exact absurd hdigits hne
        | cons c cs =>
            rw [hdigits] at hlen hhead
            obtain ⟨k, hk⟩ : ∃ k, (c :: cs).length - places = k + 1 :=
              ⟨(c :: cs).length - places - 1, by omega⟩
            rw [hk, List.take_succ_cons]
            exact ⟨List.cons_ne_nil _ _, by simpa using hhead⟩
    · -- one zero before the point
      left
      obtain ⟨k, hk⟩ : ∃ k, places + 1 - (Nat.toDigits 10 n).length = k + 1 :=
        ⟨places - (Nat.toDigits 10 n).length, by omega⟩
      have hone : (pad places n).length - places = 1 := by
        rw [pad, List.length_append, List.length_replicate]
        omega
      rw [hone, pad, hk]
      rfl
  frac := by
    show (List.rdropWhile (· = '0') _).getLast? ≠ some '0'
    intro hlast
    generalize hfrac : List.rdropWhile (fun c => decide (c = '0')) _ = frac at hlast
    obtain ⟨digits, rfl⟩ := List.getLast?_eq_some_iff.mp hlast
    have hne := List.append_ne_nil_of_right_ne_nil digits (List.cons_ne_nil '0' [])
    have hlastDigit := List.rdropWhile_last_not (fun c => decide (c = '0')) _ (hfrac ▸ hne)
    simp [hfrac] at hlastDigit

end TrustGate.Decimal
