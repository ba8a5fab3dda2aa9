import Mathlib.Algebra.BigOperators.Group.List.Basic
import Mathlib.Algebra.Order.BigOperators.Group.List
import Mathlib.Algebra.Order.Group.Int
import Mathlib.Data.Int.Basic
import Mathlib.Tactic.Abel

set_option autoImplicit false

/-! # Deposits held for their owners

A custodian holds deposits of several assets, each under a key of its own. A deposit is open
until the custodian pays it out. `owed` is what the open deposits of one asset add up to; the
lemmas say how it moves when a deposit is opened or closed. `Covered` compares it with what the
custodian holds.
-/

namespace TrustGate.Custody

variable {κ ι : Type} [DecidableEq ι]

structure Deposit (κ ι : Type) where
  key : κ
  asset : ι
  amount : Int

/-- What `d` contributes to the debt in the asset `t`. -/
def Deposit.share (isOpen : κ → Bool) (t : ι) (d : Deposit κ ι) : Int :=
  if isOpen d.key = true ∧ d.asset = t then d.amount else 0

/-- The debt in the asset `t`. -/
def owed (isOpen : κ → Bool) (t : ι) (ds : List (Deposit κ ι)) : Int :=
  (ds.map (Deposit.share isOpen t)).sum

/-- In every asset, the custodian holds at least what it owes. -/
def Covered (isOpen : κ → Bool) (ds : List (Deposit κ ι)) (holding : ι → Int) : Prop :=
  ∀ t, owed isOpen t ds ≤ holding t

/-! ## Moves -/

theorem owed_congr {f g : κ → Bool} (t : ι) {ds : List (Deposit κ ι)}
    (h : ∀ d ∈ ds, f d.key = g d.key) : owed f t ds = owed g t ds := by
  unfold owed
  congr 1
  apply List.map_congr_left
  intro d hd
  rw [Deposit.share, Deposit.share, h d hd]

/-- An open deposit is part of the debt in its asset. -/
theorem le_owed {f : κ → Bool} {ds : List (Deposit κ ι)} {d : Deposit κ ι}
    (hnonneg : ∀ e ∈ ds, 0 ≤ e.amount) (hd : d ∈ ds) (hopen : f d.key = true) :
    d.amount ≤ owed f d.asset ds := by
  have hshare : d.share f d.asset = d.amount := if_pos ⟨hopen, rfl⟩
  rw [← hshare]
  refine List.single_le_sum ?_ _ (List.mem_map_of_mem hd)
  intro x hx
  obtain ⟨e, he, rfl⟩ := List.mem_map.mp hx
  unfold Deposit.share
  split
  · exact hnonneg e he
  · exact le_rfl

/-- A new open deposit adds its amount to the debt in its asset. -/
theorem owed_open {f g : κ → Bool} (t : ι) {ds : List (Deposit κ ι)} {d : Deposit κ ι}
    (hold : ∀ e ∈ ds, g e.key = f e.key) (hnew : g d.key = true) :
    owed g t (ds ++ [d]) = owed f t ds + if d.asset = t then d.amount else 0 := by
  have hcongr : owed g t ds = owed f t ds := owed_congr t hold
  rw [← hcongr]
  simp [owed, Deposit.share, hnew]

/-- Closing an open deposit takes its amount off the debt in its asset. -/
theorem owed_close {f g : κ → Bool} (t : ι) {ds : List (Deposit κ ι)} {d : Deposit κ ι}
    (hnodup : (ds.map (·.key)).Nodup) (hd : d ∈ ds) (hopen : f d.key = true)
    (hclosed : g d.key = false) (hother : ∀ e ∈ ds, e.key ≠ d.key → g e.key = f e.key) :
    owed f t ds = owed g t ds + if d.asset = t then d.amount else 0 := by
  obtain ⟨pre, post, rfl⟩ := List.append_of_mem hd
  have hne : ∀ e, e ∈ pre ∨ e ∈ post → e.key ≠ d.key := by
    rw [List.map_append, List.map_cons, List.nodup_append, List.nodup_cons] at hnodup
    obtain ⟨-, ⟨hpost, -⟩, hpre⟩ := hnodup
    rintro e (he | he) heq
    · exact hpre e.key (List.mem_map_of_mem he) d.key (by simp) heq
    · exact hpost (heq ▸ List.mem_map_of_mem he)
  have hpre : owed g t pre = owed f t pre :=
    owed_congr t fun e he => hother e (by simp [he]) (hne e (.inl he))
  have hpost : owed g t post = owed f t post :=
    owed_congr t fun e he => hother e (by simp [he]) (hne e (.inr he))
  have split : ∀ k : κ → Bool,
      owed k t (pre ++ d :: post) = owed k t pre + (d.share k t + owed k t post) := by
    intro k; simp [owed]
  rw [split f, split g, hpre, hpost]
  simp only [Deposit.share, hopen, hclosed, true_and, Bool.false_eq_true, false_and, if_false]
  abel

/-! ## Cover -/

theorem covered_nil (isOpen : κ → Bool) {holding : ι → Int} (h : ∀ t, 0 ≤ holding t) :
    Covered isOpen ([] : List (Deposit κ ι)) holding := h

/-- The custodian stays covered when it takes in what a new deposit names. -/
theorem Covered.deposit {f g : κ → Bool} {ds : List (Deposit κ ι)} {d : Deposit κ ι}
    {holding holding' : ι → Int} (h : Covered f ds holding)
    (hold : ∀ e ∈ ds, g e.key = f e.key) (hnew : g d.key = true)
    (hin : ∀ t, holding t + (if d.asset = t then d.amount else 0) ≤ holding' t) :
    Covered g (ds ++ [d]) holding' := by
  intro t
  have := h t
  have := hin t
  rw [owed_open t hold hnew]
  omega

/-- It stays covered when it closes a deposit and gives away no more than the deposit names. -/
theorem Covered.withdraw {f g : κ → Bool} {ds : List (Deposit κ ι)} {d : Deposit κ ι}
    {holding holding' : ι → Int} (h : Covered f ds holding)
    (hnodup : (ds.map (·.key)).Nodup) (hd : d ∈ ds) (hopen : f d.key = true)
    (hclosed : g d.key = false) (hother : ∀ e ∈ ds, e.key ≠ d.key → g e.key = f e.key)
    (hout : ∀ t, holding t ≤ holding' t + if d.asset = t then d.amount else 0) :
    Covered g ds holding' := by
  intro t
  have := h t
  have := hout t
  have := owed_close t hnodup hd hopen hclosed hother
  omega

end TrustGate.Custody
