import Mathlib.Data.List.Basic
import Mathlib.Tactic.SplitIfs

set_option autoImplicit false

/-! # Base64

Three bytes as four characters of six bits each, padded with `=`. Decoding gets the bytes back, and
the text of a number of bytes that is no multiple of three is padded. -/

namespace TrustGate.Base64

def alphabet : List Char :=
  "ABCDEFGHIJKLMNOPQRSTUVWXYZabcdefghijklmnopqrstuvwxyz0123456789+/".toList

/-- The character of six bits. -/
def digit (n : Nat) : Char := alphabet.getD n '='

/-- The six bits of a character. -/
def value (c : Char) : Nat := alphabet.idxOf c

theorem digit_mem {n : Nat} (h : n < 64) : digit n ∈ alphabet := by
  have hall : ∀ n < 64, digit n ∈ alphabet := by decide
  exact hall n h

theorem value_digit {n : Nat} (h : n < 64) : value (digit n) = n := by
  have hall : ∀ n < 64, value (digit n) = n := by decide
  exact hall n h

theorem pad_notMem : '=' ∉ alphabet := by decide

theorem digit_ne_pad {n : Nat} (h : n < 64) : digit n ≠ '=' :=
  fun heq => pad_notMem (heq ▸ digit_mem h)

def encode : List UInt8 → List Char
  | [] => []
  | [a] => [digit (a.toNat / 4), digit (a.toNat % 4 * 16), '=', '=']
  | [a, b] =>
      [digit (a.toNat / 4), digit (a.toNat % 4 * 16 + b.toNat / 16), digit (b.toNat % 16 * 4), '=']
  | a :: b :: c :: bytes =>
      digit (a.toNat / 4) :: digit (a.toNat % 4 * 16 + b.toNat / 16) ::
        digit (b.toNat % 16 * 4 + c.toNat / 64) :: digit (c.toNat % 64) :: encode bytes

def decode : List Char → List UInt8
  | w :: x :: y :: z :: text =>
      let a := UInt8.ofNat (value w * 4 + value x / 16)
      let b := UInt8.ofNat (value x % 16 * 16 + value y / 4)
      let c := UInt8.ofNat (value y % 4 * 64 + value z)
      if y = '=' then [a] else if z = '=' then [a, b] else a :: b :: c :: decode text
  | _ => []

/-- **Decoding undoes encoding.** -/
theorem decode_encode (bytes : List UInt8) : decode (encode bytes) = bytes := by
  fun_induction encode bytes with
  | case1 => rfl
  | case2 a =>
      have ha := a.toNat_lt
      unfold decode
      rw [if_pos rfl, value_digit (by omega), value_digit (by omega)]
      have hbyte : a.toNat / 4 * 4 + a.toNat % 4 * 16 / 16 = a.toNat := by omega
      rw [hbyte, UInt8.ofNat_toNat]
  | case3 a b =>
      have ha := a.toNat_lt
      have hb := b.toNat_lt
      unfold decode
      rw [if_neg (digit_ne_pad (by omega)), if_pos rfl, value_digit (by omega),
        value_digit (by omega), value_digit (by omega)]
      have hfirst : a.toNat / 4 * 4 + (a.toNat % 4 * 16 + b.toNat / 16) / 16 = a.toNat := by omega
      have hsecond : (a.toNat % 4 * 16 + b.toNat / 16) % 16 * 16 + b.toNat % 16 * 4 / 4 =
          b.toNat := by omega
      rw [hfirst, hsecond, UInt8.ofNat_toNat, UInt8.ofNat_toNat]
  | case4 a b c bytes ih =>
      have ha := a.toNat_lt
      have hb := b.toNat_lt
      have hc := c.toNat_lt
      unfold decode
      rw [if_neg (digit_ne_pad (by omega)), if_neg (digit_ne_pad (by omega)),
        value_digit (by omega), value_digit (by omega), value_digit (by omega),
        value_digit (by omega)]
      have hfirst : a.toNat / 4 * 4 + (a.toNat % 4 * 16 + b.toNat / 16) / 16 = a.toNat := by omega
      have hsecond : (a.toNat % 4 * 16 + b.toNat / 16) % 16 * 16 +
          (b.toNat % 16 * 4 + c.toNat / 64) / 4 = b.toNat := by omega
      have hthird : (b.toNat % 16 * 4 + c.toNat / 64) % 4 * 64 + c.toNat % 64 = c.toNat := by omega
      rw [hfirst, hsecond, hthird, UInt8.ofNat_toNat, UInt8.ofNat_toNat, UInt8.ofNat_toNat, ih]

theorem mem_encode {bytes : List UInt8} {x : Char} (hx : x ∈ encode bytes) :
    x ∈ alphabet ∨ x = '=' := by
  fun_induction encode bytes with
  | case1 => cases hx
  | case2 a =>
      have ha := a.toNat_lt
      simp only [List.mem_cons, List.not_mem_nil, or_false] at hx
      rcases hx with rfl | rfl | rfl | rfl
      · exact .inl (digit_mem (by omega))
      · exact .inl (digit_mem (by omega))
      · exact .inr rfl
      · exact .inr rfl
  | case3 a b =>
      have ha := a.toNat_lt
      have hb := b.toNat_lt
      simp only [List.mem_cons, List.not_mem_nil, or_false] at hx
      rcases hx with rfl | rfl | rfl | rfl
      · exact .inl (digit_mem (by omega))
      · exact .inl (digit_mem (by omega))
      · exact .inl (digit_mem (by omega))
      · exact .inr rfl
  | case4 a b c bytes ih =>
      have ha := a.toNat_lt
      have hb := b.toNat_lt
      have hc := c.toNat_lt
      simp only [List.mem_cons] at hx
      rcases hx with rfl | rfl | rfl | rfl | hx
      · exact .inl (digit_mem (by omega))
      · exact .inl (digit_mem (by omega))
      · exact .inl (digit_mem (by omega))
      · exact .inl (digit_mem (by omega))
      · exact ih hx

/-- An incomplete group of bytes is padded. -/
theorem pad_mem_encode {bytes : List UInt8} (h : bytes.length % 3 ≠ 0) : '=' ∈ encode bytes := by
  fun_induction encode bytes with
  | case1 => exact absurd rfl h
  | case2 a => simp
  | case3 a b => simp
  | case4 a b c bytes ih =>
      have hrest : bytes.length % 3 ≠ 0 := by
        simp only [List.length_cons] at h
        omega
      simp [ih hrest]

end TrustGate.Base64
