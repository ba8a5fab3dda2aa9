import TrustGate.Lib.Decimal
import TrustGate.Market.Values

set_option autoImplicit false

/-! # Money strings

`src/src/utils/money.ts`: the strings that are amounts, and the amounts that strings are. -/

namespace TrustGate.Market

open Decimal

/-- `formatUsdcStroopsToDecimal` of any bigint. -/
def formatStroops (stroops : Int) : String :=
  let sign := if stroops < 0 then "-" else ""
  sign ++ formatUsdcStroopsToDecimal stroops.natAbs

@[simp] theorem formatStroops_natCast (n : Nat) :
    formatStroops n = formatUsdcStroopsToDecimal n := by
  unfold formatStroops
  rw [if_neg (by omega), Int.natAbs_natCast, String.empty_append]

/-! ## Trimming -/

theorem jsTrim_eq {cs : List Char} (h : ∀ c ∈ cs, isJsSpace c = false) : jsTrim cs = cs := by
  have hdrop : ∀ l : List Char, (∀ c ∈ l, isJsSpace c = false) → l.dropWhile isJsSpace = l := by
    rintro (_ | ⟨c, l⟩) hl
    · rfl
    · rw [List.dropWhile_cons_of_neg (by simp [hl c List.mem_cons_self])]
  unfold jsTrim
  rw [hdrop cs h, hdrop cs.reverse fun c hc => h c (List.mem_reverse.mp hc), List.reverse_reverse]

theorem jsTrim_sublist (cs : List Char) : (jsTrim cs).Sublist cs := by
  have hfront := List.dropWhile_sublist (l := cs) isJsSpace
  have hback := List.dropWhile_sublist (l := (cs.dropWhile isJsSpace).reverse) isJsSpace
  have := hback.reverse
  rw [List.reverse_reverse] at this
  exact this.trans hfront

theorem isJsSpace_digit {c : Char} (h : c.isDigit = true) : isJsSpace c = false := by
  obtain ⟨hlow, hhigh⟩ := Char.isDigit_iff_toNat.mp h
  simp only [Char.reduceToNat] at hlow hhigh
  simp only [isJsSpace, Bool.or_eq_false_iff, Bool.and_eq_false_iff, decide_eq_false_iff_not]
  omega

theorem no_space_text {places : Nat} (x : Numeral places) : ∀ c ∈ x.text, isJsSpace c = false := by
  intro c hc
  unfold Numeral.text at hc
  split_ifs at hc
  · exact isJsSpace_digit (x.whole_digits c hc)
  · rcases List.mem_append.mp hc with hc | hc
    · exact isJsSpace_digit (x.whole_digits c hc)
    · rcases List.mem_cons.mp hc with rfl | hc
      · rfl
      · exact isJsSpace_digit (x.frac_digits c hc)

/-! ## Parsing -/

theorem digitsValue_eq (cs : List Char) : digitsValue cs = value cs :=
  Nat.ofDigitChars_eq_foldl.symm

theorem takeWhile_digits {cs rest : List Char} (h : Digits cs)
    (hrest : ∀ c ∈ rest.head?, c.isDigit = false) :
    (cs ++ rest).takeWhile Char.isDigit = cs := by
  rw [List.takeWhile_append_of_pos h]
  cases rest with
  | nil => simp
  | cons c rest => rw [List.takeWhile_cons_of_neg (by simp [hrest c rfl]), List.append_nil]

/-- **What is an amount**: a numeral with at most seven decimals, space around it aside. -/
theorem parse_eq_ok_iff {s : String} {n : Nat} : parseUsdcDecimalToStroops s = .ok n ↔
    ∃ x : Numeral USDC_DECIMALS, jsTrim s.toList = x.text ∧ x.units = n := by
  unfold parseUsdcDecimalToStroops
  generalize jsTrim s.toList = trimmed
  dsimp only
  constructor
  · intro h
    have hwhole : Digits (trimmed.takeWhile Char.isDigit) := fun c hc => List.mem_takeWhile_imp hc
    have hsplit : trimmed = trimmed.takeWhile Char.isDigit ++
        trimmed.drop (trimmed.takeWhile Char.isDigit).length :=
      List.prefix_iff_eq_append.mp (List.takeWhile_prefix _) |>.symm
    generalize trimmed.takeWhile Char.isDigit = whole at h hwhole hsplit
    generalize trimmed.drop whole.length = rest at h hsplit
    by_cases hempty : whole.isEmpty = true
    · rw [if_pos hempty] at h
      cases h
    rw [if_neg hempty] at h
    have hne : whole ≠ [] := by simpa using hempty
    split at h
    · -- no point
      rw [if_neg (by simp)] at h
      cases h
      refine ⟨⟨whole, hwhole, hne, [], List.forall_mem_nil _, Nat.zero_le _⟩, ?_, ?_⟩
      · rw [hsplit, List.append_nil]
        rfl
      · rw [digitsValue_eq, List.append_assoc]
        rfl
    · rename_i frac
      split_ifs at h with hdigits hlen
      cases h
      simp only [Bool.or_eq_true, List.isEmpty_iff, Bool.not_eq_true', not_or,
        Bool.not_eq_false, List.all_eq_true] at hdigits
      refine ⟨⟨whole, hwhole, hne, frac, hdigits.2, not_lt.mp hlen⟩, ?_, ?_⟩
      · rw [hsplit]
        exact (if_neg hdigits.1).symm
      · rw [digitsValue_eq, List.append_assoc]
        rfl
    · cases h
  · rintro ⟨x, rfl, rfl⟩
    have hne : x.whole.isEmpty = false := by simpa using x.whole_ne
    by_cases hfrac : x.frac = []
    · have htext : x.text = x.whole := if_pos hfrac
      have htake : x.text.takeWhile Char.isDigit = x.whole := by
        rw [htext]
        exact List.takeWhile_eq_self_iff.mpr x.whole_digits
      rw [htake, hne, htext, List.drop_length]
      simp only [Bool.false_eq_true, if_false, List.length_nil, Nat.not_lt_zero,
        List.append_nil, digitsValue_eq, Nat.sub_zero]
      rw [Numeral.units, Numeral.padded, hfrac]
      rfl
    · have htext : x.text = x.whole ++ '.' :: x.frac := if_neg hfrac
      have htake : x.text.takeWhile Char.isDigit = x.whole := by
        rw [htext]
        refine takeWhile_digits x.whole_digits ?_
        rintro c ⟨⟩
        rfl
      have hall : x.frac.all Char.isDigit = true := List.all_eq_true.mpr x.frac_digits
      have hsome : x.frac.isEmpty = false := by simpa using hfrac
      rw [htake, hne, htext, List.drop_left]
      simp only [Bool.false_eq_true, if_false, hall, hsome, Bool.not_true, Bool.or_self]
      rw [if_neg (not_lt.mpr x.frac_le), digitsValue_eq, List.append_assoc]
      rfl

/-! ## Formatting -/

theorem toList_format (n : Nat) :
    (formatUsdcStroopsToDecimal n).toList = (ofUnits USDC_DECIMALS n).text := by
  have hdigits : (toString n).toList = Nat.toDigits 10 n := by
    rw [Nat.toString_eq_ofList_toDigits, String.toList_ofList]
  unfold formatUsdcStroopsToDecimal
  simp only [hdigits]
  unfold Numeral.text ofUnits pad List.rdropWhile
  dsimp only
  split_ifs with h h' h'
  · rw [String.toList_ofList]
  · exact absurd (List.isEmpty_iff.mp h) h'
  · exact absurd (List.isEmpty_iff.mpr h') h
  · rw [String.toList_ofList]

theorem parse_format (n : Nat) :
    parseUsdcDecimalToStroops (formatUsdcStroopsToDecimal n) = .ok n := by
  refine parse_eq_ok_iff.mpr ⟨ofUnits USDC_DECIMALS n, ?_, units_ofUnits _ n⟩
  rw [toList_format, jsTrim_eq (no_space_text _)]

theorem format_shortest {s : String} {n : Nat} (h : parseUsdcDecimalToStroops s = .ok n) :
    s = formatUsdcStroopsToDecimal n ∨ (formatUsdcStroopsToDecimal n).length < s.length := by
  obtain ⟨x, htrim, rfl⟩ := parse_eq_ok_iff.mp h
  have hsub := jsTrim_sublist s.toList
  rw [htrim] at hsub
  have hformat := toList_format x.units
  rw [← String.length_toList, ← String.length_toList, hformat]
  rcases (canonical_ofUnits USDC_DECIMALS x.units).shortest (units_ofUnits _ _) with heq | hlt
  · rcases hsub.length_le.lt_or_eq with hlt | hlen
    · exact .inr (heq ▸ hlt)
    · left
      rw [← String.toList_inj, hformat, ← heq]
      exact (hsub.eq_of_length hlen).symm
  · exact .inr (hlt.trans_le hsub.length_le)

/-- What is behind a sign is not parsed. -/
theorem parse_negative {stroops : Int} (h : stroops < 0) (n : Nat) :
    parseUsdcDecimalToStroops (formatStroops stroops) ≠ .ok n := by
  intro hparse
  obtain ⟨x, htrim, -⟩ := parse_eq_ok_iff.mp hparse
  have hlist : (formatStroops stroops).toList =
      '-' :: (ofUnits USDC_DECIMALS stroops.natAbs).text := by
    unfold formatStroops
    dsimp only
    rw [if_pos h, String.toList_append, toList_format]
    rfl
  rw [hlist, jsTrim_eq] at htrim
  · have hhead : x.text.head? = x.whole.head? := by
      unfold Numeral.text
      split_ifs
      · rfl
      · rw [List.head?_append_of_ne_nil _ x.whole_ne]
    rw [← htrim, List.head?_cons] at hhead
    cases x.whole_digits '-' (List.mem_of_head? hhead.symm)
  · intro c hc
    rcases List.mem_cons.mp hc with rfl | hc
    · rfl
    · exact no_space_text _ c hc

theorem formatStroops_injective : Function.Injective formatStroops := by
  have hinj : ∀ {n k : Nat}, formatUsdcStroopsToDecimal n = formatUsdcStroopsToDecimal k → n = k := by
    intro n k h
    have := parse_format n
    rw [h, parse_format k] at this
    exact (Except.ok.inj this).symm
  intro a b h
  rcases lt_or_ge a 0 with ha | ha
  · rcases lt_or_ge b 0 with hb | hb
    · unfold formatStroops at h
      rw [if_pos ha, if_pos hb, String.append_right_inj] at h
      have := hinj h
      omega
    · obtain ⟨k, rfl⟩ := Int.eq_ofNat_of_zero_le hb
      rw [formatStroops_natCast] at h
      exact absurd (h ▸ parse_format k) (parse_negative ha k)
  · obtain ⟨n, rfl⟩ := Int.eq_ofNat_of_zero_le ha
    rcases lt_or_ge b 0 with hb | hb
    · rw [formatStroops_natCast] at h
      exact absurd (h ▸ parse_format n) (parse_negative hb n)
    · obtain ⟨k, rfl⟩ := Int.eq_ofNat_of_zero_le hb
      rw [formatStroops_natCast, formatStroops_natCast] at h
      rw [hinj h]

/-- **Money strings and stroops are inverse**: which strings are amounts and of how much; the string
of an amount is the one shortest of all that denote it; and no two amounts, be they negative, have
one string. -/
theorem money_exact :
    (∀ s n, parseUsdcDecimalToStroops s = .ok n ↔ ∃ x : Numeral USDC_DECIMALS,
      jsTrim s.toList = x.text ∧ (n : Rat) = x.number * 10 ^ USDC_DECIMALS) ∧
    (∀ n : Nat, parseUsdcDecimalToStroops (formatStroops n) = .ok n ∧
      (∃ x : Numeral USDC_DECIMALS, (formatStroops n).toList = x.text ∧ x.Canonical) ∧
      ∀ s, parseUsdcDecimalToStroops s = .ok n →
        s = formatStroops n ∨ (formatStroops n).length < s.length) ∧
    (∀ s n, parseUsdcDecimalToStroops s = .ok n → ∃ x y : Numeral USDC_DECIMALS,
      jsTrim s.toList = x.text ∧ (formatStroops n).toList = y.text ∧ y.number = x.number) ∧
    Function.Injective formatStroops ∧
    ∀ stroops < 0, ∀ n, parseUsdcDecimalToStroops (formatStroops stroops) ≠ .ok n := by
  refine ⟨fun s n => ?_, fun n => ⟨?_, ?_, fun s h => ?_⟩, fun s n h => ?_,
    formatStroops_injective, fun stroops h n => parse_negative h n⟩
  · refine parse_eq_ok_iff.trans (exists_congr fun x => and_congr_right fun _ => ?_)
    rw [Numeral.number_mul, Nat.cast_inj, eq_comm]
  · rw [formatStroops_natCast, parse_format]
  · rw [formatStroops_natCast]
    exact ⟨_, toList_format n, canonical_ofUnits _ n⟩
  · rw [formatStroops_natCast]
    exact format_shortest h
  · obtain ⟨x, htrim, hunits⟩ := parse_eq_ok_iff.mp h
    refine ⟨x, ofUnits USDC_DECIMALS n, htrim, ?_, ?_⟩
    · rw [formatStroops_natCast, toList_format]
    · rw [Numeral.number_eq_iff, units_ofUnits, hunits]

end TrustGate.Market
