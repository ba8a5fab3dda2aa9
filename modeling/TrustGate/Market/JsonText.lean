import TrustGate.Lib.JsString
import TrustGate.Market.Values

set_option autoImplicit false

/-! # JSON text

What `JSON.parse` returns and what `JSON.stringify` prints of it. An object prints its own keys in the
order JavaScript keeps them: array indices first, in ascending order, then the others in the order in
which they were set. Here the fields of an object stand in that order. A number too large for a double
is read as an infinite one, and printed as `null`. -/

namespace TrustGate.Market

open JsString

variable {σ : Type}

/-- Induction over a value: its items and the values of its fields come first. -/
@[elab_as_elim] theorem Json.rule {P : Json σ → Prop} (null : P .null) (bool : ∀ b, P (.bool b))
    (num : ∀ t, P (.num t)) (str : ∀ s, P (.str s)) (arr : ∀ xs, (∀ x ∈ xs, P x) → P (.arr xs))
    (obj : ∀ fields, (∀ e ∈ fields, P e.2) → P (.obj fields)) : ∀ v, P v
  | .null => null
  | .bool b => bool b
  | .num t => num t
  | .str s => str s
  | .arr xs => arr xs fun x _ => Json.rule null bool num str arr obj x
  | .obj fields => obj fields fun e _ => Json.rule null bool num str arr obj e.2
termination_by v => sizeOf v
decreasing_by
  · have := List.sizeOf_lt_of_mem ‹x ∈ xs›
    simp only [Json.arr.sizeOf_spec]
    omega
  · have := List.sizeOf_lt_of_mem ‹e ∈ fields›
    have : sizeOf e.2 < sizeOf e := by
      cases e
      simp only [Prod.mk.sizeOf_spec]
      omega
    simp only [Json.obj.sizeOf_spec]
    omega

variable [JsText σ]

/-! ## Own keys -/

/-- The array index that the key spells, if it does. -/
def arrayIndex (key : σ) : Option Nat :=
  let n := digitsValue (JsText.js key).chars
  if ofString (toString n) = JsText.js key ∧ n < 2 ^ 32 - 1 then some n else none

/-- The place of a key among the own keys, as far as it does not depend on when it was set. -/
def ownRank (key : σ) : Nat := (arrayIndex key).getD (2 ^ 32 - 1)

theorem arrayIndex_eq_some {key : σ} {n : Nat} (h : arrayIndex key = some n) :
    ofString (toString n) = JsText.js key ∧ n < 2 ^ 32 - 1 := by
  unfold arrayIndex at h
  dsimp only at h
  split_ifs at h with hindex
  cases h
  exact hindex

/-- Only keys that are no array indices share their place. -/
theorem arrayIndex_of_ownRank {a b : σ} (h : ownRank a = ownRank b) (hab : a ≠ b) :
    arrayIndex a = none := by
  cases ha : arrayIndex a with
  | none => rfl
  | some n =>
      obtain ⟨htext, hn⟩ := arrayIndex_eq_some ha
      simp only [ownRank, ha, Option.getD_some] at h
      cases hb : arrayIndex b with
      | none =>
          rw [hb] at h
          simp only [Option.getD_none] at h
          omega
      | some m =>
          rw [hb] at h
          simp only [Option.getD_some] at h
          rw [h] at htext
          exact absurd (JsText.js_injective (htext.symm.trans (arrayIndex_eq_some hb).1)) hab

/-! ## What `JSON.parse` returns -/

def isNumberChar (c : Char) : Bool := c.isDigit || c = '-' || c = '+' || c = '.' || c = 'e'

/-- A finite number prints as digits, signs, a point and an exponent. -/
def NumberText (text : String) : Prop :=
  text.toList ≠ [] ∧ ∀ c ∈ text.toList, isNumberChar c = true

/-- A number that is not finite. -/
def InfinityText (text : String) : Prop := text = "Infinity" ∨ text = "-Infinity"

instance : DecidablePred InfinityText := fun _ => inferInstanceAs (Decidable (_ ∨ _))

theorem NumberText.finite {text : String} (h : NumberText text) : ¬ InfinityText text := by
  rintro (rfl | rfl) <;> exact absurd (h.2 'I' (by decide)) (by decide)

/-- The values that JSON text stands for; `number` are the texts of their numbers. -/
inductive IsJson (number : String → Prop) : Json σ → Prop
  | null : IsJson number .null
  | bool (b : Bool) : IsJson number (.bool b)
  | num {text : String} (htext : number text) : IsJson number (.num text)
  | str (s : σ) : IsJson number (.str s)
  | arr {xs : List (Json σ)} (hitems : ∀ x ∈ xs, IsJson number x) : IsJson number (.arr xs)
  | obj {fields : List (σ × Json σ)} (hkeys : (fields.map Prod.fst).Nodup)
      (hown : fields.Pairwise fun a b => ownRank a.1 ≤ ownRank b.1)
      (hvalues : ∀ e ∈ fields, IsJson number e.2) : IsJson number (.obj fields)

theorem IsJson.mono {number number' : String → Prop} (h : ∀ t, number t → number' t)
    {v : Json σ} (hv : IsJson number v) : IsJson number' v := by
  induction hv with
  | null => exact .null
  | bool b => exact .bool b
  | num htext => exact .num (h _ htext)
  | str s => exact .str s
  | arr _ ih => exact .arr ih
  | obj hkeys hown _ ih => exact .obj hkeys hown ih

/-! ## What `JSON.stringify` prints -/

/-- The character around a string. -/
def quotation : Char := Char.ofNat 0x22

/-- The second character of a two-character escape. -/
def shortEscape (c : Char) : Option Char :=
  match c.toNat with
  | 0x08 => some 'b'
  | 0x09 => some 't'
  | 0x0A => some 'n'
  | 0x0C => some 'f'
  | 0x0D => some 'r'
  | 0x22 => some quotation
  | 0x5C => some '\\'
  | _ => none

/-- `UnicodeEscape`. -/
def unicodeEscape (n : Nat) : List Char :=
  ['\\', 'u', Nat.digitChar (n / 4096), Nat.digitChar (n / 256 % 16), Nat.digitChar (n / 16 % 16),
    Nat.digitChar (n % 16)]

def escape : CodePoint → List Char
  | .scalar c =>
    match shortEscape c with
    | some e => ['\\', e]
    | none => if c.toNat < 0x20 then unicodeEscape c.toNat else [c]
  | .surrogate u => unicodeEscape u.val.toNat

/-- `QuoteJSONString`. -/
def quote (s : σ) : List Char :=
  quotation :: ((JsText.js s).codePoints.flatMap escape ++ [quotation])

/-- The texts of the items after the first, each with its comma, and what closes the list. -/
def followed (close : Char) : List (List Char) → List Char
  | [] => [close]
  | t :: ts => ',' :: (t ++ followed close ts)

def separated (close : Char) : List (List Char) → List Char
  | [] => [close]
  | t :: ts => t ++ followed close ts

mutual

def Json.chars : Json σ → List Char
  | .null => ['n', 'u', 'l', 'l']
  | .bool true => ['t', 'r', 'u', 'e']
  | .bool false => ['f', 'a', 'l', 's', 'e']
  | .num text => if InfinityText text then ['n', 'u', 'l', 'l'] else text.toList
  | .str s => quote s
  | .arr xs => '[' :: separated ']' (itemChars xs)
  | .obj fields => '{' :: separated '}' (fieldChars fields)

def itemChars : List (Json σ) → List (List Char)
  | [] => []
  | x :: xs => x.chars :: itemChars xs

def fieldChars : List (σ × Json σ) → List (List Char)
  | [] => []
  | (key, value) :: fields => (quote key ++ ':' :: value.chars) :: fieldChars fields

end

/-- `JSON.stringify`. -/
def stringify (v : Json σ) : String := String.ofList v.chars

theorem itemChars_eq (xs : List (Json σ)) : itemChars xs = xs.map Json.chars := by
  induction xs with
  | nil => rfl
  | cons x xs ih =>
      rw [itemChars, ih]
      rfl

theorem fieldChars_eq (fields : List (σ × Json σ)) :
    fieldChars fields = fields.map fun e => quote e.1 ++ ':' :: e.2.chars := by
  induction fields with
  | nil => rfl
  | cons e fields ih =>
      obtain ⟨key, value⟩ := e
      rw [fieldChars, ih]
      rfl

theorem chars_num {text : String} (h : NumberText text) :
    (Json.num text : Json σ).chars = text.toList := if_neg h.finite

/-! ## The text determines the value -/

/-- The character that a short escape stands for. -/
def unescaped (e : Char) : Nat :=
  match e with
  | 'b' => 0x08
  | 't' => 0x09
  | 'n' => 0x0A
  | 'f' => 0x0C
  | 'r' => 0x0D
  | e => e.toNat

theorem toNat_of_shortEscape {c e : Char} (h : shortEscape c = some e) :
    c.toNat = unescaped e ∧ e ≠ 'u' := by
  unfold shortEscape at h
  split at h <;> cases h
  all_goals exact ⟨by assumption, by decide⟩

theorem shortEscape_isSome {c : Char} (h : c = '\\' ∨ c = quotation) : shortEscape c ≠ none := by
  rcases h with rfl | rfl <;> decide

theorem digitChar_inj : ∀ m < 16, ∀ n < 16, Nat.digitChar m = Nat.digitChar n → m = n := by
  decide

theorem unicodeEscape_append_inj {m n : Nat} (hm : m < 0x10000) (hn : n < 0x10000)
    {x y : List Char} (h : unicodeEscape m ++ x = unicodeEscape n ++ y) : m = n ∧ x = y := by
  simp only [unicodeEscape, List.cons_append, List.nil_append, List.cons.injEq, true_and] at h
  obtain ⟨hfirst, hsecond, hthird, hfourth, hrest⟩ := h
  have := digitChar_inj _ (by omega) _ (by omega) hfirst
  have := digitChar_inj _ (by omega) _ (by omega) hsecond
  have := digitChar_inj _ (by omega) _ (by omega) hthird
  have := digitChar_inj _ (by omega) _ (by omega) hfourth
  exact ⟨by omega, hrest⟩

/-- An escape is the character itself, or starts with a backslash and gives the number. -/
theorem escape_cases (p : CodePoint) :
    (∃ c, p = .scalar c ∧ escape p = [c] ∧ c ≠ '\\' ∧ c ≠ quotation) ∨
    (∃ e, e ≠ 'u' ∧ escape p = ['\\', e] ∧ p.toNat = unescaped e) ∨
    (p.toNat < 0x10000 ∧ escape p = unicodeEscape p.toNat) := by
  cases p with
  | scalar c =>
      cases hc : shortEscape c with
      | some e =>
          obtain ⟨htoNat, hne⟩ := toNat_of_shortEscape hc
          exact .inr (.inl ⟨e, hne, by simp only [escape, hc], htoNat⟩)
      | none =>
          simp only [escape, hc]
          split_ifs with hlt
          · have hsmall : c.toNat < 0x10000 := by omega
            exact .inr (.inr ⟨hsmall, rfl⟩)
          · exact .inl ⟨c, rfl, rfl, fun h => shortEscape_isSome (.inl h) hc,
              fun h => shortEscape_isSome (.inr h) hc⟩
  | surrogate u => exact .inr (.inr ⟨u.val.toNat_lt, rfl⟩)

theorem escape_append_inj {p q : CodePoint} {x y : List Char}
    (h : escape p ++ x = escape q ++ y) : p = q ∧ x = y := by
  rcases escape_cases p with ⟨c, rfl, hp, hslash, -⟩ | ⟨e, he, hp, hpn⟩ | ⟨hpn, hp⟩ <;>
  rcases escape_cases q with ⟨d, rfl, hq, hslash', -⟩ | ⟨e', he', hq, hqn⟩ | ⟨hqn, hq⟩ <;>
  rw [hp, hq] at h
  · exact ⟨congrArg CodePoint.scalar (List.cons.inj h).1, (List.cons.inj h).2⟩
  · exact absurd (List.cons.inj h).1 hslash
  · exact absurd (List.cons.inj h).1 hslash
  · exact absurd (List.cons.inj h).1.symm hslash'
  · simp only [List.cons_append, List.nil_append, List.cons.injEq, true_and] at h
    exact ⟨CodePoint.toNat_inj (by rw [hpn, hqn, h.1]), h.2⟩
  · exact absurd (List.cons.inj (List.cons.inj h).2).1 he
  · exact absurd (List.cons.inj h).1.symm hslash'
  · exact absurd (List.cons.inj (List.cons.inj h).2).1.symm he'
  · obtain ⟨hnumber, hrest⟩ := unicodeEscape_append_inj hpn hqn h
    exact ⟨CodePoint.toNat_inj hnumber, hrest⟩

theorem quotation_not_escape (p : CodePoint) (x y : List Char) :
    quotation :: x ≠ escape p ++ y := by
  intro h
  have hslash : quotation ≠ '\\' := by decide
  rcases escape_cases p with ⟨c, -, hp, -, hquote⟩ | ⟨e, -, hp, -⟩ | ⟨-, hp⟩ <;>
  rw [hp] at h <;>
  injection h with h
  · exact hquote h.symm
  · exact hslash h
  · exact hslash h

/-- A string ends at its quotation mark. -/
theorem quote_append_inj {s t : σ} {x y : List Char} (h : quote s ++ x = quote t ++ y) :
    s = t ∧ x = y := by
  suffices ∀ ps qs : List CodePoint, ps.flatMap escape ++ quotation :: x =
      qs.flatMap escape ++ quotation :: y → ps = qs ∧ x = y by
    simp only [quote, List.cons_append, List.append_assoc, List.nil_append, List.cons.injEq,
      true_and] at h
    obtain ⟨hpoints, hrest⟩ := this _ _ h
    exact ⟨JsText.js_injective (codePoints_injective hpoints), hrest⟩
  intro ps
  induction ps with
  | nil =>
      rintro (- | ⟨q, qs⟩) h
      · exact ⟨rfl, (List.cons.inj h).2⟩
      · rw [List.flatMap_cons, List.append_assoc] at h
        exact absurd h (quotation_not_escape _ _ _)
  | cons p ps ih =>
      rintro (- | ⟨q, qs⟩) h
      · rw [List.flatMap_cons, List.append_assoc] at h
        exact absurd h.symm (quotation_not_escape _ _ _)
      · rw [List.flatMap_cons, List.flatMap_cons, List.append_assoc, List.append_assoc] at h
        obtain ⟨rfl, hrest⟩ := escape_append_inj h
        obtain ⟨rfl, heq⟩ := ih _ hrest
        exact ⟨rfl, heq⟩

/-- No number goes on here. -/
def Stops (rest : List Char) : Prop := ∀ c ∈ rest.head?, isNumberChar c = false

/-- Such a text ends where a number would. -/
theorem number_append_inj {s t x y : List Char} (hs : ∀ c ∈ s, isNumberChar c = true)
    (ht : ∀ c ∈ t, isNumberChar c = true) (hx : Stops x) (hy : Stops y) (h : s ++ x = t ++ y) :
    s = t ∧ x = y := by
  have htake {s x : List Char} (hs : ∀ c ∈ s, isNumberChar c = true) (hx : Stops x) :
      (s ++ x).takeWhile isNumberChar = s := by
    rw [List.takeWhile_append_of_pos hs]
    cases x with
    | nil => simp
    | cons c x => simp [hx c rfl]
  have heq : s = t := by rw [← htake hs hx, ← htake ht hy, h]
  subst heq
  exact ⟨rfl, List.append_cancel_left h⟩

section

variable {α : Type} {print : α → List Char} {close : Char}

/-- The items can be told apart, whatever follows them. -/
def Readable (print : α → List Char) (l m : List α) : Prop :=
  ∀ a ∈ l, ∀ b ∈ m, ∀ x y, Stops x → Stops y → print a ++ x = print b ++ y → a = b ∧ x = y

theorem stops_followed (hclose : isNumberChar close = false) (ts : List (List Char))
    (x : List Char) : Stops (followed close ts ++ x) := by
  intro c hc
  cases ts with
  | nil =>
      cases hc
      exact hclose
  | cons t ts =>
      cases hc
      rfl

theorem followed_append_inj (hclose : isNumberChar close = false) (hcomma : close ≠ ',')
    {l m : List α} (h : Readable print l m) {x y : List Char}
    (heq : followed close (l.map print) ++ x = followed close (m.map print) ++ y) :
    l = m ∧ x = y := by
  induction l generalizing m with
  | nil =>
      cases m with
      | nil => exact ⟨rfl, (List.cons.inj heq).2⟩
      | cons b m => exact absurd (List.cons.inj heq).1 hcomma
  | cons a l ih =>
      cases m with
      | nil => exact absurd (List.cons.inj heq).1.symm hcomma
      | cons b m =>
          rw [List.map_cons, List.map_cons, followed, followed, List.cons_append, List.cons_append,
            List.append_assoc, List.append_assoc] at heq
          have htail := (List.cons.inj heq).2
          obtain ⟨rfl, hrest⟩ := h a (by simp) b (by simp) _ _ (stops_followed hclose _ _)
            (stops_followed hclose _ _) htail
          obtain ⟨rfl, hend⟩ := ih (fun a ha b hb => h a (by simp [ha]) b (by simp [hb])) hrest
          exact ⟨rfl, hend⟩

theorem separated_append_inj (hclose : isNumberChar close = false) (hcomma : close ≠ ',')
    {l m : List α} (h : Readable print l m)
    (hopen : ∀ a ∈ l ++ m, ∀ x y, print a ++ x ≠ close :: y) {x y : List Char}
    (heq : separated close (l.map print) ++ x = separated close (m.map print) ++ y) :
    l = m ∧ x = y := by
  cases l with
  | nil =>
      cases m with
      | nil => exact ⟨rfl, (List.cons.inj heq).2⟩
      | cons b m =>
          rw [List.map_cons, separated, List.append_assoc] at heq
          exact absurd heq.symm (hopen b (by simp) _ _)
  | cons a l =>
      cases m with
      | nil =>
          rw [List.map_cons, separated, List.append_assoc] at heq
          exact absurd heq (hopen a (by simp) _ _)
      | cons b m =>
          rw [List.map_cons, List.map_cons, separated, separated, List.append_assoc,
            List.append_assoc] at heq
          obtain ⟨rfl, hrest⟩ := h a (by simp) b (by simp) _ _ (stops_followed hclose _ _)
            (stops_followed hclose _ _) heq
          obtain ⟨rfl, hend⟩ := followed_append_inj hclose hcomma
            (fun a ha b hb => h a (by simp [ha]) b (by simp [hb])) hrest
          exact ⟨rfl, hend⟩

end

/-! The first character tells what kind of value follows. -/

inductive JsonKind where
  | null | bool | num | str | arr | obj
  deriving DecidableEq

def Json.kind : Json σ → JsonKind
  | .null => .null
  | .bool _ => .bool
  | .num _ => .num
  | .str _ => .str
  | .arr _ => .arr
  | .obj _ => .obj

def kindOf (c : Char) : Option JsonKind :=
  if isNumberChar c then some .num
  else match c with
    | 'n' => some .null
    | 't' => some .bool
    | 'f' => some .bool
    | '[' => some .arr
    | '{' => some .obj
    | c => if c = quotation then some .str else none

theorem head_chars {v : Json σ} (hv : IsJson NumberText v) :
    ∃ c cs, v.chars = c :: cs ∧ kindOf c = some v.kind := by
  cases hv with
  | null => exact ⟨_, _, rfl, rfl⟩
  | bool b => cases b <;> exact ⟨_, _, rfl, rfl⟩
  | num htext =>
      rename_i text
      have ⟨hne, hchars⟩ := htext
      obtain ⟨c, cs, hcs⟩ := List.exists_cons_of_ne_nil hne
      refine ⟨c, cs, (chars_num htext).trans hcs, ?_⟩
      unfold kindOf
      rw [if_pos (hchars c (hcs ▸ List.mem_cons_self))]
      rfl
  | str s => exact ⟨_, _, rfl, rfl⟩
  | arr _ => exact ⟨_, _, rfl, rfl⟩
  | obj _ _ _ => exact ⟨_, _, rfl, rfl⟩

theorem chars_ne_close {v : Json σ} (hv : IsJson NumberText v) {close : Char}
    (hclose : kindOf close = none) (x y : List Char) : v.chars ++ x ≠ close :: y := by
  intro h
  obtain ⟨c, cs, hcs, hkind⟩ := head_chars hv
  rw [hcs] at h
  rw [(List.cons.inj h).1, hclose] at hkind
  cases hkind

theorem kind_eq {v w : Json σ} (hv : IsJson NumberText v) (hw : IsJson NumberText w)
    {x y : List Char} (h : v.chars ++ x = w.chars ++ y) : v.kind = w.kind := by
  obtain ⟨c, cs, hcs, hkind⟩ := head_chars hv
  obtain ⟨d, ds, hds, hkind'⟩ := head_chars hw
  rw [hcs, hds] at h
  rw [(List.cons.inj h).1, hkind'] at hkind
  exact (Option.some.inj hkind).symm

theorem chars_append_inj {v w : Json σ} (hv : IsJson NumberText v) (hw : IsJson NumberText w)
    {x y : List Char} (hx : Stops x) (hy : Stops y) (h : v.chars ++ x = w.chars ++ y) :
    v = w ∧ x = y := by
  have hkind := kind_eq hv hw h
  induction v using Json.rule generalizing w x y with
  | null =>
      cases hw <;> cases hkind
      exact ⟨rfl, List.append_cancel_left h⟩
  | bool b =>
      cases hw <;> cases hkind
      rename_i b'
      cases b <;> cases b' <;> first
        | exact ⟨rfl, List.append_cancel_left h⟩
        | exact absurd (List.cons.inj h).1 (by decide)
  | num t =>
      cases hv with | num ht =>
      cases hw <;> cases hkind
      rename_i hs
      rw [chars_num ht, chars_num hs] at h
      obtain ⟨htext, hrest⟩ := number_append_inj ht.2 hs.2 hx hy h
      rw [String.toList_inj.mp htext]
      exact ⟨rfl, hrest⟩
  | str s =>
      cases hw <;> cases hkind
      obtain ⟨rfl, hrest⟩ := quote_append_inj h
      exact ⟨rfl, hrest⟩
  | arr xs ih =>
      cases hv with | arr hxs =>
      cases hw <;> cases hkind
      rename_i ys hys
      have htail := (List.cons.inj h).2
      rw [itemChars_eq, itemChars_eq] at htail
      obtain ⟨rfl, hrest⟩ := separated_append_inj rfl (by decide)
        (fun a ha b hb x y hx hy heq =>
          ih a ha (hxs a ha) (hys b hb) hx hy heq (kind_eq (hxs a ha) (hys b hb) heq))
        (fun a ha => by
          rcases List.mem_append.mp ha with ha | ha
          · exact chars_ne_close (hxs a ha) rfl
          · exact chars_ne_close (hys a ha) rfl) htail
      exact ⟨rfl, hrest⟩
  | obj fields ih =>
      cases hv with | obj _ _ hfields =>
      cases hw <;> cases hkind
      rename_i fields' _ _ hfields'
      have htail := (List.cons.inj h).2
      rw [fieldChars_eq, fieldChars_eq] at htail
      obtain ⟨rfl, hrest⟩ := separated_append_inj rfl (by decide)
        (fun a ha b hb x y hx hy heq => by
          rw [List.append_assoc, List.append_assoc] at heq
          obtain ⟨hkey, hvalue⟩ := quote_append_inj heq
          have hvalue := (List.cons.inj hvalue).2
          obtain ⟨hval, hend⟩ := ih a ha (hfields a ha) (hfields' b hb) hx hy hvalue
            (kind_eq (hfields a ha) (hfields' b hb) hvalue)
          exact ⟨Prod.ext hkey hval, hend⟩)
        (fun a _ x y heq => by
          have hquote : quotation ≠ '}' := by decide
          exact hquote (List.cons.inj heq).1) htail
      exact ⟨rfl, hrest⟩

/-- **The text of a value** is no other value's. -/
theorem stringify_inj {v w : Json σ} (hv : IsJson NumberText v) (hw : IsJson NumberText w)
    (h : stringify v = stringify w) : v = w := by
  have hchars : v.chars = w.chars := String.ofList_injective h
  refine (chars_append_inj hv hw (x := []) (y := []) ?_ ?_ ?_).1
  · rintro c ⟨⟩
  · rintro c ⟨⟩
  · rw [hchars]

end TrustGate.Market
