import Mathlib.Data.List.Basic

set_option autoImplicit false

/-! # A promise kept in a variable

Something that is slow to load is started by the first who needs it and kept in a variable; whoever
comes later waits for the same attempt. What differs is what becomes of the variable when the attempt
fails: it is emptied, so that the next one tries again, or the failure stays there for good. -/

namespace TrustGate.Memo

section

variable {ε α : Type}

/-- The variable, and the attempts that were started, with what they have come to. -/
structure Slot (ε α : Type) where
  cell : Option Nat
  attempts : List (Option (Except ε α))

def Slot.empty : Slot ε α := ⟨none, []⟩

/-- The attempt in the variable, or a new one. -/
def Slot.join (m : Slot ε α) : Nat × Slot ε α :=
  match m.cell with
  | some i => (i, m)
  | none => (m.attempts.length, ⟨some m.attempts.length, m.attempts ++ [none]⟩)

/-- An attempt comes to its end. A failure empties the variable, if it `resets`. -/
def Slot.settle (resets : Bool) (i : Nat) (r : Except ε α) (m : Slot ε α) : Option (Slot ε α) :=
  match m.attempts[i]? with
  | some none =>
      let cell := match r with
        | .ok _ => m.cell
        | .error _ => if resets then none else m.cell
      some ⟨cell, m.attempts.set i (some r)⟩
  | _ => none

def Slot.result (m : Slot ε α) (i : Nat) : Option (Except ε α) := m.attempts[i]?.join

/-- Somebody is given an attempt to wait for, an attempt ends, somebody is told how it ended. -/
inductive Event (ε α : Type) where
  | joined (i : Nat)
  | settled (i : Nat) (r : Except ε α)
  | saw (i : Nat) (r : Except ε α)

/-- What can happen, newest first. -/
inductive Run (resets : Bool) : List (Event ε α) → Slot ε α → Prop
  | start : Run resets [] .empty
  | join {t : List (Event ε α)} {m : Slot ε α} (h : Run resets t m) :
      Run resets (.joined m.join.1 :: t) m.join.2
  | settle {t : List (Event ε α)} {m m' : Slot ε α} {i : Nat} {r : Except ε α} (h : Run resets t m)
      (hs : m.settle resets i r = some m') : Run resets (.settled i r :: t) m'
  | saw {t : List (Event ε α)} {m : Slot ε α} {i : Nat} {r : Except ε α} (h : Run resets t m)
      (hr : m.result i = some r) : Run resets (.saw i r :: t) m

variable {resets : Bool} {t : List (Event ε α)} {m m' : Slot ε α} {i j : Nat} {r : Except ε α}

theorem settle_cases (h : m.settle resets i r = some m') : m.attempts[i]? = some none ∧
    m'.attempts = m.attempts.set i (some r) ∧
    (m'.cell = m.cell ∧ (resets = true → ∃ a, r = .ok a) ∨
      m'.cell = none ∧ resets = true ∧ ∃ e, r = .error e) := by
  unfold Slot.settle at h
  split at h
  · rename_i hpending
    cases h
    refine ⟨hpending, rfl, ?_⟩
    cases r with
    | ok a => exact .inl ⟨rfl, fun _ => ⟨a, rfl⟩⟩
    | error e =>
        cases resets with
        | true => exact .inr ⟨rfl, rfl, e, rfl⟩
        | false => exact .inl ⟨rfl, fun h => nomatch h⟩
  · cases h

theorem result_eq : m.result i = some r ↔ m.attempts[i]? = some (some r) := by
  unfold Slot.result
  cases h : m.attempts[i]? with
  | none => simp
  | some x => simp

/-- The variable holds the last attempt, and all that it does not hold have failed. -/
structure Sound (resets : Bool) (m : Slot ε α) : Prop where
  last : ∀ i, m.cell = some i → i + 1 = m.attempts.length
  given_up : ∀ i, i < m.attempts.length → m.cell ≠ some i →
    ∃ e, m.attempts[i]? = some (some (.error e))
  hopeful : resets = true → ∀ i e, m.cell = some i → m.attempts[i]? ≠ some (some (.error e))
  kept : resets = false → m.cell = none → m.attempts = []

theorem Sound.join (h : Sound resets m) : Sound resets m.join.2 := by
  unfold Slot.join
  cases hcell : m.cell with
  | some i => exact h
  | none =>
      constructor
      · rintro i ⟨⟩
        simp
      · intro i hi hne
        have hlt : i < m.attempts.length := by
          simp only [List.length_append, List.length_singleton] at hi
          have : i ≠ m.attempts.length := fun heq => hne (heq ▸ rfl)
          omega
        obtain ⟨e, he⟩ := h.given_up i hlt (by simp [hcell])
        exact ⟨e, by rw [List.getElem?_append_left hlt]; exact he⟩
      · rintro - i e ⟨⟩
        simp
      · rintro - ⟨⟩

theorem Sound.settle (h : Sound resets m) (hs : m.settle resets i r = some m') :
    Sound resets m' := by
  obtain ⟨hpending, hattempts, hcell⟩ := settle_cases hs
  have hlt := (List.getElem?_eq_some_iff.mp hpending).1
  -- only the attempt in the variable can be pending
  have hi : m.cell = some i := by
    by_contra hne
    obtain ⟨e, he⟩ := h.given_up i hlt hne
    rw [hpending] at he
    cases he
  constructor
  · intro k hk
    rw [hattempts, List.length_set]
    rcases hcell with ⟨heq, -⟩ | ⟨hnone, -, -⟩
    · exact h.last k (heq ▸ hk)
    · rw [hnone] at hk
      cases hk
  · intro k hk hne
    rw [hattempts, List.length_set] at hk
    rw [hattempts, List.getElem?_set]
    rcases hcell with ⟨heq, -⟩ | ⟨hnone, -, e, rfl⟩
    · rw [heq] at hne
      rw [if_neg (show ¬ i = k from fun hik => hne (hik ▸ hi))]
      exact h.given_up k hk hne
    · split_ifs with hik
      · exact ⟨e, rfl⟩
      · exact h.given_up k hk fun hc => hik (Option.some.inj (hi.symm.trans hc))
  · intro hresets k e hk
    rcases hcell with ⟨heq, hok⟩ | ⟨hnone, -, -⟩
    · obtain ⟨a, rfl⟩ := hok hresets
      rw [heq, hi] at hk
      cases hk
      rw [hattempts, List.getElem?_set_self hlt]
      rintro ⟨⟩
    · rw [hnone] at hk
      cases hk
  · intro hkeeps hnone
    rcases hcell with ⟨heq, -⟩ | ⟨-, hresets, -⟩
    · rw [← heq, hnone] at hi
      cases hi
    · rw [hkeeps] at hresets
      cases hresets

theorem Run.sound (h : Run resets t m) : Sound resets m := by
  induction h with
  | start => exact ⟨fun _ h => (nomatch h), fun _ h => (nomatch h), fun _ _ _ h => (nomatch h),
      fun _ _ => rfl⟩
  | join _ ih => exact ih.join
  | settle _ hs ih => exact ih.settle hs
  | saw _ _ ih => exact ih

/-- **At most one attempt is under way.** -/
theorem Run.one_in_flight (h : Run resets t m) (hi : m.attempts[i]? = some none)
    (hj : m.attempts[j]? = some none) : i = j := by
  have held {k : Nat} (hk : m.attempts[k]? = some none) : m.cell = some k := by
    by_contra hne
    obtain ⟨e, he⟩ := h.sound.given_up k (List.getElem?_eq_some_iff.mp hk).1 hne
    rw [hk] at he
    cases he
  exact Option.some.inj ((held hi).symm.trans (held hj))

/-- The attempts say what has been settled. -/
theorem Run.settled_iff (h : Run resets t m) :
    .settled i r ∈ t ↔ m.attempts[i]? = some (some r) := by
  induction h generalizing i r with
  | start => simp [Slot.empty]
  | @join t m h ih =>
      rw [List.mem_cons, or_iff_right (by simp), ih]
      unfold Slot.join
      cases m.cell with
      | some k => rfl
      | none =>
          rcases Nat.lt_trichotomy i m.attempts.length with hlt | rfl | hgt
          · rw [List.getElem?_append_left hlt]
          · simp
          · rw [List.getElem?_eq_none (Nat.le_of_lt hgt), List.getElem?_eq_none (by
              simp only [List.length_append, List.length_singleton]; omega)]
  | @settle t m m' k r' h hs ih =>
      obtain ⟨hpending, hattempts, -⟩ := settle_cases hs
      have hlt := (List.getElem?_eq_some_iff.mp hpending).1
      rw [List.mem_cons, ih, hattempts, List.getElem?_set]
      split_ifs with hki
      · subst hki
        rw [hpending]
        constructor
        · rintro (heq | heq)
          · cases heq
            rfl
          · cases heq
        · intro heq
          cases heq
          exact .inl rfl
      · refine or_iff_right fun heq => ?_
        cases heq
        exact hki rfl
  | saw _ _ ih => rw [List.mem_cons, or_iff_right (by simp), ih]

/-- Who is told that an attempt ended is told how it ended. -/
theorem Run.saw_settled (h : Run resets t m) (hsaw : .saw i r ∈ t) : .settled i r ∈ t := by
  induction h with
  | start => cases hsaw
  | join _ ih =>
      rcases List.mem_cons.mp hsaw with heq | hsaw
      · cases heq
      · exact List.mem_cons_of_mem _ (ih hsaw)
  | settle _ _ ih =>
      rcases List.mem_cons.mp hsaw with heq | hsaw
      · cases heq
      · exact List.mem_cons_of_mem _ (ih hsaw)
  | saw h hr ih =>
      rcases List.mem_cons.mp hsaw with heq | hsaw
      · cases heq
        exact List.mem_cons_of_mem _ (h.settled_iff.mpr (result_eq.mp hr))
      · exact List.mem_cons_of_mem _ (ih hsaw)

/-- An attempt ends once. -/
theorem Run.settled_once (h : Run resets t m) {r' : Except ε α} (hr : .settled i r ∈ t)
    (hr' : .settled i r' ∈ t) : r = r' := by
  rw [h.settled_iff] at hr hr'
  rw [hr] at hr'
  cases hr'
  rfl

/-- A part of a run is a run. -/
theorem Run.older (h : Run resets t m) {newer older : List (Event ε α)} (ht : t = newer ++ older) :
    ∃ m', Run resets older m' := by
  induction newer generalizing t m with
  | nil =>
      cases ht
      exact ⟨m, h⟩
  | cons e newer ih =>
      cases h with
      | start => cases ht
      | join h => exact ih h (List.cons.inj ht).2
      | settle h _ => exact ih h (List.cons.inj ht).2
      | saw h _ => exact ih h (List.cons.inj ht).2

/-- Where the variable is emptied, nobody is given an attempt that has failed. -/
theorem Run.joined_fresh (h : Run true (.joined i :: t) m) (e : ε) : .settled i (.error e) ∉ t := by
  generalize hl : Event.joined i :: t = l at h
  cases h with
  | start => cases hl
  | settle _ _ => cases hl
  | saw _ _ => cases hl
  | @join t' m' h =>
      cases hl
      rw [h.settled_iff]
      unfold Slot.join
      cases hcell : m'.cell with
      | some k => exact h.sound.hopeful rfl k e hcell
      | none => simp

/-- **Where the variable is emptied, nobody is told of a failure from before it came.** -/
theorem Run.fails_later (h : Run true t m) {newer older : List (Event ε α)} {e : ε}
    (ht : t = newer ++ .joined i :: older) (hsaw : .saw i (.error e) ∈ t) :
    .settled i (.error e) ∈ newer := by
  have hsettled := h.saw_settled hsaw
  obtain ⟨m', hrun⟩ := h.older ht
  rw [ht, List.mem_append, List.mem_cons] at hsettled
  rcases hsettled with hmem | heq | hmem
  · exact hmem
  · cases heq
  · exact absurd hmem (hrun.joined_fresh e)

/-- **A success is for good**: all who come later are given that attempt, and nothing else is
started. -/
theorem Run.success_final (h : Run resets t m) {a : α} (hok : .settled i (.ok a) ∈ t) :
    m.cell = some i ∧ i + 1 = m.attempts.length := by
  rw [h.settled_iff] at hok
  have hcell : m.cell = some i := by
    by_contra hne
    obtain ⟨e, he⟩ := h.sound.given_up i (List.getElem?_eq_some_iff.mp hok).1 hne
    rw [hok] at he
    cases he
  exact ⟨hcell, h.sound.last i hcell⟩

/-- Who comes after a success is given the attempt that succeeded. -/
theorem Run.joined_success (h : Run resets (.joined j :: t) m) {a : α} (hok : .settled i (.ok a) ∈ t) :
    j = i := by
  generalize hl : Event.joined j :: t = l at h
  cases h with
  | start => cases hl
  | settle _ _ => cases hl
  | saw _ _ => cases hl
  | @join t' m' h =>
      cases hl
      unfold Slot.join
      rw [(h.success_final hok).1]

/-- After a success no attempt ends any more. -/
theorem Run.no_more (h : Run resets (.settled j r :: t) m) (a : α) : .settled i (.ok a) ∉ t := by
  intro hok
  generalize hl : Event.settled j r :: t = l at h
  cases h with
  | start => cases hl
  | join _ => cases hl
  | saw _ _ => cases hl
  | @settle t' m' _ _ _ h hs =>
      cases hl
      obtain ⟨hcell, hlast⟩ := h.success_final hok
      have hpending := (settle_cases hs).1
      rw [h.settled_iff] at hok
      have hlt := (List.getElem?_eq_some_iff.mp hpending).1
      by_cases hji : j = i
      · rw [hji, hok] at hpending
        cases hpending
      · obtain ⟨e, he⟩ := h.sound.given_up j hlt fun hc => hji (Option.some.inj (hc.symm.trans hcell))
        rw [he] at hpending
        cases hpending

/-- Where the variable is never emptied, there is one attempt. -/
theorem Run.attempts_le (h : Run false t m) : m.attempts.length ≤ 1 := by
  induction h with
  | start => exact Nat.zero_le _
  | @join t m h ih =>
      unfold Slot.join
      cases hcell : m.cell with
      | some k => exact ih
      | none =>
          rw [h.sound.kept rfl hcell]
          exact Nat.le_refl _
  | settle h hs ih =>
      rw [(settle_cases hs).2.1, List.length_set]
      exact ih
  | saw _ _ ih => exact ih

/-- **Where the variable is never emptied, one attempt is everybody's**, and so is its outcome. -/
theorem Run.settled_alone (h : Run false t m) {r' : Except ε α} (hr : .settled i r ∈ t)
    (hr' : .settled j r' ∈ t) : i = j ∧ r = r' := by
  have hlength := h.attempts_le
  have hilt := (List.getElem?_eq_some_iff.mp (h.settled_iff.mp hr)).1
  have hjlt := (List.getElem?_eq_some_iff.mp (h.settled_iff.mp hr')).1
  obtain rfl : i = j := by omega
  exact ⟨rfl, h.settled_once hr hr'⟩

end

end TrustGate.Memo
