import Mathlib.Data.List.Basic

set_option autoImplicit false

/-! # Texts with separators

Where parts are put together with a separator that is in none of them, the parts can be told from the
whole, and so can their number. One part may have separators in it as long as the others do not. What
a text is split into is what stands between two separators. -/

namespace TrustGate.Lines

variable {α : Type} {x : α} {a a' b b' : List α}

/-- What comes before the first separator is determined, and so is what comes after it. -/
theorem append_cons_inj (ha : x ∉ a) (ha' : x ∉ a') (h : a ++ x :: b = a' ++ x :: b') :
    a = a' ∧ b = b' := by
  induction a generalizing a' with
  | nil =>
      cases a' with
      | nil => exact ⟨rfl, List.tail_eq_of_cons_eq h⟩
      | cons y a' => exact absurd (List.head_eq_of_cons_eq h ▸ List.mem_cons_self) ha'
  | cons y a ih =>
      cases a' with
      | nil => exact absurd (List.head_eq_of_cons_eq h ▸ List.mem_cons_self) ha
      | cons y' a' =>
          obtain ⟨rfl, htail⟩ := List.cons.inj h
          obtain ⟨rfl, rfl⟩ := ih (fun hm => ha (List.mem_cons_of_mem _ hm))
            (fun hm => ha' (List.mem_cons_of_mem _ hm)) htail
          exact ⟨rfl, rfl⟩

/-- What comes after the last separator is determined, and so is what comes before it. -/
theorem append_cons_inj_right (hb : x ∉ b) (hb' : x ∉ b') (h : a ++ x :: b = a' ++ x :: b') :
    a = a' ∧ b = b' := by
  have hrev := congrArg List.reverse h
  simp only [List.reverse_append, List.reverse_cons, List.append_assoc,
    List.singleton_append] at hrev
  obtain ⟨hb, ha⟩ := append_cons_inj (fun hm => hb (List.mem_reverse.mp hm))
    (fun hm => hb' (List.mem_reverse.mp hm)) hrev
  exact ⟨List.reverse_injective ha, List.reverse_injective hb⟩

theorem intercalate_cons_cons' (a b : List α) (l : List (List α)) :
    [x].intercalate (a :: b :: l) = a ++ x :: [x].intercalate (b :: l) := by
  rw [List.intercalate_cons_cons, List.append_assoc, List.singleton_append]

/-- **The parts are determined** by the text. -/
theorem intercalate_inj {l l' : List (List α)} (hne : l ≠ []) (hne' : l' ≠ [])
    (hl : ∀ a ∈ l, x ∉ a) (hl' : ∀ a ∈ l', x ∉ a)
    (h : [x].intercalate l = [x].intercalate l') : l = l' := by
  induction l generalizing l' with
  | nil => exact absurd rfl hne
  | cons a l ih =>
      cases l' with
      | nil => exact absurd rfl hne'
      | cons a' l' =>
          have ha := hl a List.mem_cons_self
          have ha' := hl' a' List.mem_cons_self
          rcases l with _ | ⟨b, l⟩ <;> rcases l' with _ | ⟨b', l'⟩
          · simpa using h
          · rw [List.intercalate_singleton, intercalate_cons_cons'] at h
            exact absurd (h ▸ List.mem_append_right _ List.mem_cons_self) ha
          · rw [List.intercalate_singleton, intercalate_cons_cons'] at h
            exact absurd (h ▸ List.mem_append_right _ List.mem_cons_self) ha'
          · rw [intercalate_cons_cons', intercalate_cons_cons'] at h
            obtain ⟨rfl, htail⟩ := append_cons_inj ha ha' h
            rw [ih (by simp) (by simp) (fun c hc => hl c (List.mem_cons_of_mem _ hc))
              (fun c hc => hl' c (List.mem_cons_of_mem _ hc)) htail]

/-! ## Splitting -/

/-- A text with a separator before every part, and one at its end. -/
theorem cons_intercalate {l : List (List α)} (hne : l ≠ []) :
    x :: [x].intercalate l ++ [x] = l.flatMap (x :: ·) ++ [x] := by
  induction l with
  | nil => exact absurd rfl hne
  | cons a l ih =>
      rcases l with _ | ⟨b, l⟩
      · simp
      · have hrest := ih (by simp)
        rw [intercalate_cons_cons', List.flatMap_cons, List.cons_append, List.append_assoc, hrest,
          List.append_assoc]
        rfl

variable [DecidableEq α]

/-- The parts that a text is split into stand between two separators each, where the text is taken
to have one at either end. -/
theorem between_of_mem_splitOn {text part : List α} (h : part ∈ text.splitOn x) :
    ∃ before after, x :: text ++ [x] = before ++ x :: part ++ x :: after := by
  obtain ⟨first, last, hsplit⟩ := List.append_of_mem h
  have htext : x :: text ++ [x] = (first ++ part :: last).flatMap (x :: ·) ++ [x] := by
    rw [← cons_intercalate (by simp), ← hsplit, List.intercalate_splitOn]
  rw [htext, List.flatMap_append, List.flatMap_cons]
  rcases last with _ | ⟨b, last⟩
  · exact ⟨first.flatMap (x :: ·), [], by simp⟩
  · exact ⟨first.flatMap (x :: ·), b ++ last.flatMap (x :: ·) ++ [x], by simp⟩

/-- **What stands between two separators is a part.** -/
theorem mem_splitOn_of_between {text part before after : List α} (hne : part ≠ []) (hx : x ∉ part)
    (h : x :: text ++ [x] = before ++ x :: part ++ x :: after) : part ∈ text.splitOn x := by
  have hsplit := congrArg (List.splitOn x) h
  simp only [List.append_assoc, List.cons_append] at hsplit
  rw [← List.nil_append (x :: (text ++ [x])), List.splitOn_append_cons_self,
    List.splitOn_append_cons_self, List.splitOn_append_cons_self,
    List.splitOn_append_cons_self, List.splitOn_eq_singleton hx] at hsplit
  have hmem : part ∈ List.splitOn x [] ++ (List.splitOn x text ++ List.splitOn x []) := by
    rw [hsplit]
    simp
  -- the parts before the first separator and after the last one are empty
  simpa [hne] using hmem

end TrustGate.Lines
