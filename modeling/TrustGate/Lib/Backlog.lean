import Mathlib.Data.List.Forall2

set_option autoImplicit false

/-! # A backlog served in batches

Rows wait in a list, of which the first few are served at a time. A row that is served need not be
done with: it may be refused and go on to wait, before everything behind it. A row is in the batch,
or the batch is full of rows before it (`mem_batch_or_full`); so it gets nearer unless the rows
before it that are refused fill a batch (`served_or_ahead`, `not_mem_batch`). -/

namespace TrustGate.Backlog

section

variable {ρ : Type} (waits : ρ → Bool) (size : Nat)

/-- The first `size` rows that wait. -/
def batch (rows : List ρ) : List ρ := (rows.filter waits).take size

/-- The rows that wait and satisfy `p`. -/
def waiting (p : ρ → Bool) (rows : List ρ) : Nat := rows.countP fun row => waits row && p row

variable {waits size} {before rest : List ρ} {x : ρ}

theorem waits_of_mem_batch {rows : List ρ} (hx : x ∈ batch waits size rows) : waits x = true :=
  List.of_mem_filter (List.mem_of_mem_take hx)

theorem mem_of_mem_batch {rows : List ρ} (hx : x ∈ batch waits size rows) : x ∈ rows :=
  List.mem_of_mem_filter (List.mem_of_mem_take hx)

/-- A batch that the first rows fill has no other rows. -/
theorem batch_of_full (hfull : size ≤ (before.filter waits).length) :
    batch waits size (before ++ rest) = batch waits size before := by
  rw [batch, batch, List.filter_append, List.take_append_of_le_length hfull]

theorem waiting_eq (p : ρ → Bool) (rows : List ρ) :
    waiting waits p rows = (rows.filter waits).countP p := by
  rw [waiting, List.countP_filter]
  exact List.countP_congr fun row _ => by rw [Bool.and_comm]

theorem mem_batch_or_full (hx : waits x = true) :
    x ∈ batch waits size (before ++ x :: rest) ∨
      batch waits size (before ++ x :: rest) = batch waits size before ∧
        (batch waits size before).length = size := by
  by_cases hfull : size ≤ (before.filter waits).length
  · refine .inr ⟨batch_of_full hfull, ?_⟩
    rw [batch, List.length_take, Nat.min_eq_left hfull]
  · left
    rw [batch, List.filter_append, List.filter_cons_of_pos hx, List.take_append,
      List.take_of_length_le (by omega), show size - (before.filter waits).length =
        (size - (before.filter waits).length - 1) + 1 by omega, List.take_succ_cons]
    exact List.mem_append_right _ List.mem_cons_self

/-- **The row is served, or one before it is served and not refused**, unless the refused rows
before it fill a batch. -/
theorem served_or_ahead (hx : waits x = true) {refused : ρ → Bool}
    (hfew : waiting waits refused before < size) :
    x ∈ batch waits size (before ++ x :: rest) ∨
      ∃ y ∈ before, y ∈ batch waits size (before ++ x :: rest) ∧ refused y = false := by
  rcases @mem_batch_or_full _ _ size before rest x hx with hmem | ⟨heq, hlength⟩
  · exact .inl hmem
  right
  by_contra hnone
  have hall : ∀ y ∈ batch waits size before, refused y = true := by
    intro y hy
    by_contra hno
    exact hnone ⟨y, mem_of_mem_batch hy, heq ▸ hy, by simpa using hno⟩
  have hcount : (batch waits size before).countP refused = size := by
    rw [List.countP_eq_length.mpr hall, hlength]
  have hle : (batch waits size before).countP refused ≤ (before.filter waits).countP refused :=
    (List.take_sublist _ _).countP_le
  rw [waiting_eq] at hfew
  omega

/-- **The row is not served** while the refused rows before it fill a batch. -/
theorem not_mem_batch {refused : ρ → Bool} (hfull : size ≤ waiting waits refused before)
    {y : ρ} (hy : y ∈ batch waits size (before ++ rest)) : y ∈ before := by
  have hlength : size ≤ (before.filter waits).length := by
    rw [waiting_eq] at hfull
    exact Nat.le_trans hfull List.countP_le_length
  rw [batch_of_full hlength] at hy
  exact mem_of_mem_batch hy

end

/-! ## Rows that change in place -/

section

variable {ρ : Type} {R : ρ → ρ → Prop} {p : ρ → Bool} {rows rows' : List ρ}

theorem countP_le (h : List.Forall₂ R rows rows') (hp : ∀ a b, R a b → p b = true → p a = true) :
    rows'.countP p ≤ rows.countP p := by
  induction h with
  | nil => exact Nat.le_refl _
  | @cons a b as bs hab _ ih =>
      rw [List.countP_cons, List.countP_cons]
      have := hp a b hab
      cases hb : p b with
      | false => rw [if_neg (by simp)]; omega
      | true => rw [if_pos rfl, if_pos (this hb)]; omega

/-- One row less. -/
theorem countP_lt (h : List.Forall₂ R rows rows') (hp : ∀ a b, R a b → p b = true → p a = true)
    {i : Nat} {a b : ρ} (ha : rows[i]? = some a) (hb : rows'[i]? = some b) (hpa : p a = true)
    (hpb : p b = false) : rows'.countP p < rows.countP p := by
  induction h generalizing i with
  | nil => cases ha
  | @cons c d cs ds hcd htail ih =>
      rw [List.countP_cons, List.countP_cons]
      cases i with
      | zero =>
          cases ha
          cases hb
          rw [if_pos hpa, hpb, if_neg (by simp)]
          have := countP_le htail hp
          omega
      | succ i =>
          have hless := ih ha hb
          have := hp c d hcd
          cases hd : p d with
          | false => rw [if_neg (by simp)]; omega
          | true => rw [if_pos rfl, if_pos (this hd)]; omega

theorem forall₂_take {rows rows' : List ρ}
    (h : ∀ (j : Nat) (a : ρ), rows[j]? = some a → ∃ b, rows'[j]? = some b ∧ R a b) {i : Nat}
    (hi : i ≤ rows.length) : List.Forall₂ R (rows.take i) (rows'.take i) := by
  induction i generalizing rows rows' with
  | zero => exact .nil
  | succ i ih =>
      cases rows with
      | nil => exact absurd hi (by simp)
      | cons a as =>
          cases rows' with
          | nil =>
              obtain ⟨b, hb, -⟩ := h 0 a rfl
              cases hb
          | cons b bs =>
              obtain ⟨b', hb', hab⟩ := h 0 a rfl
              cases hb'
              exact .cons hab (ih (fun j x hx => h (j + 1) x hx) (Nat.le_of_succ_le_succ hi))

end

end TrustGate.Backlog
