import Mathlib.Data.List.Basic
import Mathlib.Tactic.SplitIfs

set_option autoImplicit false

/-! # JavaScript strings

A string of JavaScript is a sequence of UTF-16 code units. Two of them can be a surrogate pair,
which stands for one character. A surrogate without its other half stands for no character, so there are
strings that are no Unicode text. -/

namespace TrustGate

structure JsString where
  units : List UInt16
  deriving DecidableEq

namespace JsString

/-! ## Code points -/

def Leading (u : UInt16) : Prop := 0xD800 ≤ u.toNat ∧ u.toNat < 0xDC00

def Trailing (u : UInt16) : Prop := 0xDC00 ≤ u.toNat ∧ u.toNat < 0xE000

instance : DecidablePred Leading := fun _ => inferInstanceAs (Decidable (_ ∧ _))

instance : DecidablePred Trailing := fun _ => inferInstanceAs (Decidable (_ ∧ _))

abbrev Surrogate := {u : UInt16 // Leading u ∨ Trailing u}

/-- A character, or half of one. -/
inductive CodePoint where
  | scalar (c : Char)
  | surrogate (u : Surrogate)
  deriving DecidableEq

/-- The character of a surrogate pair. -/
def paired (u v : UInt16) : Char :=
  Char.ofNat (0x10000 + ((u.toNat - 0xD800) * 0x400 + (v.toNat - 0xDC00)))

/-- The code point of a unit that is in no pair. -/
def single (u : UInt16) : CodePoint :=
  if h : Leading u ∨ Trailing u then .surrogate ⟨u, h⟩ else .scalar (Char.ofNat u.toNat)

def decode : List UInt16 → List CodePoint
  | [] => []
  | [u] => [single u]
  | u :: v :: rest =>
      if Leading u ∧ Trailing v then .scalar (paired u v) :: decode rest
      else single u :: decode (v :: rest)

/-- `StringToCodePoints`. -/
def codePoints (s : JsString) : List CodePoint := decode s.units

/-- `UTF16EncodeCodePoint` of a character. -/
def charUnits (c : Char) : List UInt16 :=
  if c.toNat < 0x10000 then [.ofNat c.toNat]
  else
    [.ofNat (0xD800 + (c.toNat - 0x10000) / 0x400), .ofNat (0xDC00 + (c.toNat - 0x10000) % 0x400)]

def CodePoint.units : CodePoint → List UInt16
  | .scalar c => charUnits c
  | .surrogate u => [u.val]

def CodePoint.toNat : CodePoint → Nat
  | .scalar c => c.toNat
  | .surrogate u => u.val.toNat

theorem char_range (c : Char) : c.toNat < 0xD800 ∨ 0xDFFF < c.toNat ∧ c.toNat < 0x110000 := c.valid

theorem surrogate_range (u : Surrogate) : 0xD800 ≤ u.val.toNat ∧ u.val.toNat < 0xE000 := by
  have h := u.property
  unfold Leading Trailing at h
  omega

theorem toNat_ofNat {n : Nat} (h : n.isValidChar) : (Char.ofNat n).toNat = n := by
  rw [Char.ofNat, dif_pos h]
  rfl

/-- No half of a character has the number of a character. -/
theorem CodePoint.toNat_inj {p q : CodePoint} (h : p.toNat = q.toNat) : p = q := by
  cases p with
  | scalar c =>
      cases q with
      | scalar d => rw [Char.toNat_inj.mp h]
      | surrogate u =>
          have hc : c.toNat = u.val.toNat := h
          have := char_range c
          have := surrogate_range u
          omega
  | surrogate u =>
      cases q with
      | scalar d =>
          have hd : u.val.toNat = d.toNat := h
          have := char_range d
          have := surrogate_range u
          omega
      | surrogate v => rw [Subtype.ext (UInt16.toNat_inj.mp h)]

theorem units_single (u : UInt16) : (single u).units = [u] := by
  unfold single
  split_ifs with hsurrogate
  · rfl
  · have hu := u.toNat_lt
    unfold Leading Trailing at hsurrogate
    have hchar : (Char.ofNat u.toNat).toNat = u.toNat :=
      toNat_ofNat (by unfold Nat.isValidChar; omega)
    unfold CodePoint.units charUnits
    simp only [hchar]
    rw [if_pos hu, UInt16.ofNat_toNat]

theorem units_paired {u v : UInt16} (hu : Leading u) (hv : Trailing v) :
    charUnits (paired u v) = [u, v] := by
  unfold Leading at hu
  unfold Trailing at hv
  have hchar : (paired u v).toNat =
      0x10000 + ((u.toNat - 0xD800) * 0x400 + (v.toNat - 0xDC00)) :=
    toNat_ofNat (by unfold Nat.isValidChar; omega)
  have hleading : 0xD800 + ((paired u v).toNat - 0x10000) / 0x400 = u.toNat := by omega
  have htrailing : 0xDC00 + ((paired u v).toNat - 0x10000) % 0x400 = v.toNat := by omega
  unfold charUnits
  rw [if_neg (by omega), hleading, htrailing, UInt16.ofNat_toNat, UInt16.ofNat_toNat]

/-- **The code points spell the string.** -/
theorem units_decode (units : List UInt16) : (decode units).flatMap CodePoint.units = units := by
  fun_induction decode units with
  | case1 => rfl
  | case2 u => rw [List.flatMap_singleton, units_single]
  | case3 u v rest hpair ih =>
      rw [List.flatMap_cons, ih]
      exact congrArg (· ++ rest) (units_paired hpair.1 hpair.2)
  | case4 u v rest hpair ih => rw [List.flatMap_cons, ih, units_single, List.singleton_append]

theorem codePoints_injective : Function.Injective codePoints := by
  rintro ⟨units⟩ ⟨units'⟩ h
  have hunits := congrArg (List.flatMap CodePoint.units) h
  rw [codePoints, codePoints, units_decode, units_decode] at hunits
  exact congrArg JsString.mk hunits

/-! ## Unicode text -/

/-- Every surrogate is in a pair. -/
def WellFormed (s : JsString) : Prop := ∀ u, .surrogate u ∉ s.codePoints

/-- What is written of a code point in UTF-8. -/
def CodePoint.char : CodePoint → Char
  | .scalar c => c
  | .surrogate _ => Char.ofNat 0xFFFD

/-- The string in UTF-8, where the replacement character stands for half a character. -/
def chars (s : JsString) : List Char := s.codePoints.map CodePoint.char

def ofString (s : String) : JsString := ⟨s.toList.flatMap charUnits⟩

instance : Coe String JsString := ⟨ofString⟩

theorem decode_single {u : UInt16} (h : ¬ Leading u) (rest : List UInt16) :
    decode (u :: rest) = single u :: decode rest := by
  cases rest with
  | nil => rfl
  | cons v rest => exact if_neg fun hpair => h hpair.1

theorem decode_charUnits (c : Char) (rest : List UInt16) :
    decode (charUnits c ++ rest) = .scalar c :: decode rest := by
  have hc := char_range c
  unfold charUnits
  split_ifs with hsmall
  · have hunit : (UInt16.ofNat c.toNat).toNat = c.toNat := UInt16.toNat_ofNat_of_lt' hsmall
    have hscalar : ¬ (Leading (.ofNat c.toNat) ∨ Trailing (.ofNat c.toNat)) := by
      unfold Leading Trailing
      omega
    rw [List.singleton_append, decode_single fun h => hscalar (.inl h)]
    unfold single
    rw [dif_neg hscalar, hunit, Char.ofNat_toNat]
  · have hleading : (UInt16.ofNat (0xD800 + (c.toNat - 0x10000) / 0x400)).toNat = _ :=
      UInt16.toNat_ofNat_of_lt' (by unfold UInt16.size; omega)
    have htrailing : (UInt16.ofNat (0xDC00 + (c.toNat - 0x10000) % 0x400)).toNat = _ :=
      UInt16.toNat_ofNat_of_lt' (by unfold UInt16.size; omega)
    have hpair : Leading (.ofNat (0xD800 + (c.toNat - 0x10000) / 0x400)) ∧
        Trailing (.ofNat (0xDC00 + (c.toNat - 0x10000) % 0x400)) := by
      unfold Leading Trailing
      omega
    refine (if_pos hpair).trans (congrArg (· :: decode rest) (congrArg CodePoint.scalar ?_))
    unfold paired
    rw [hleading, htrailing]
    have hnumber : 0x10000 + ((0xD800 + (c.toNat - 0x10000) / 0x400 - 0xD800) * 0x400 +
        (0xDC00 + (c.toNat - 0x10000) % 0x400 - 0xDC00)) = c.toNat := by omega
    rw [hnumber, Char.ofNat_toNat]

theorem codePoints_ofString (s : String) : (ofString s).codePoints = s.toList.map .scalar := by
  unfold codePoints ofString
  dsimp only
  induction s.toList with
  | nil => rfl
  | cons c cs ih => rw [List.flatMap_cons, decode_charUnits, ih, List.map_cons]

theorem ofString_injective : Function.Injective ofString := by
  intro s t h
  have hpoints := congrArg codePoints h
  rw [codePoints_ofString, codePoints_ofString] at hpoints
  refine String.toList_inj.mp (List.map_injective_iff.mpr ?_ hpoints)
  intro c d hcd
  exact CodePoint.scalar.inj hcd

theorem wellFormed_ofString (s : String) : (ofString s).WellFormed := by
  intro u hu
  rw [codePoints_ofString] at hu
  obtain ⟨c, -, hc⟩ := List.mem_map.mp hu
  cases hc

end JsString

/-- What a program holds as a JavaScript string. -/
class JsText (σ : Type) where
  js : σ → JsString
  js_injective : Function.Injective js

instance : JsText JsString := ⟨id, Function.injective_id⟩

instance : JsText String := ⟨JsString.ofString, JsString.ofString_injective⟩

end TrustGate
