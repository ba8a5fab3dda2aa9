import TrustGate.Market.Values

set_option autoImplicit false

/-! # The split of a confiscated collateral

`EscrowService.confiscate` computes both shares in USDC and rounds each to cents. Here its
arithmetic is read over the rationals. -/

namespace TrustGate.Market

/-- `Math.round`: halves go up. -/
def mathRound (x : ℚ) : ℤ := ⌊x + 1 / 2⌋

/-- `Math.round(x * 100)`. -/
def cents (x : ℚ) : ℤ := mathRound (x * 100)

/-- An amount of whole cents as a template literal prints it. -/
def centsText (n : ℤ) : String :=
  let whole := toString (n.natAbs / 100)
  let frac := n.natAbs % 100
  (if n < 0 then "-" else "") ++
    if frac = 0 then whole
    else if frac % 10 = 0 then whole ++ "." ++ toString (frac / 10)
    else whole ++ "." ++ toString (frac / 10) ++ toString (frac % 10)

def DEFAULT_REQUESTER_CONFISCATION_SHARE : ℚ := 7 / 10

/-- The dispute that `confiscate` raises, and the shares it reports with it. -/
structure Confiscation where
  escrowId : String
  reason : String
  requestedAction : String
  requesterShare : ℚ
  marketplaceShare : ℚ

/-- `EscrowService.confiscate`. -/
def confiscation (escrowId : String) (collateralAmount requesterSharePct : ℚ) : Confiscation :=
  let requesterCents := cents (collateralAmount * requesterSharePct)
  let requesterShare : ℚ := requesterCents / 100
  let marketplaceCents := cents (collateralAmount - requesterShare)
  { escrowId
    reason := "Executor abandoned task — deadline expired without delivery"
    requestedAction := "confiscate:requester=" ++ centsText requesterCents ++
      ",marketplace=" ++ centsText marketplaceCents
    requesterShare
    marketplaceShare := marketplaceCents / 100 }

/-- An amount of stroops in USDC. -/
def usdc (stroops : Nat) : ℚ := stroops / 10 ^ USDC_DECIMALS

/-- The split neither creates nor loses anything of `collateral`. -/
structure Confiscation.Conserves (d : Confiscation) (collateral : ℚ) : Prop where
  requester_nonneg : 0 ≤ d.requesterShare
  requester_le : d.requesterShare ≤ collateral
  marketplace_nonneg : 0 ≤ d.marketplaceShare
  sum : d.requesterShare + d.marketplaceShare = collateral

/-! ## Rounding to cents -/

theorem cents_mono {x y : ℚ} (h : x ≤ y) : cents x ≤ cents y := by
  apply Int.floor_mono
  linarith

theorem cents_whole (n : ℤ) : cents (n / 100) = n := by
  have hhalf : (n / 100 * 100 + 1 / 2 : ℚ) = n + 1 / 2 := by ring
  rw [cents, mathRound, hhalf, Int.floor_intCast_add]
  norm_num

theorem cents_zero : cents 0 = 0 := by
  simpa using cents_whole 0

/-- Rounding to cents and taking the rest of a whole number of cents loses nothing. -/
theorem cents_rest (n r : ℤ) : cents ((n / 100 : ℚ) - r / 100) = n - r := by
  have hrest : (n / 100 : ℚ) - r / 100 = ((n - r : ℤ) : ℚ) / 100 := by
    push_cast
    ring
  rw [hrest, cents_whole]

section

variable {escrowId : String} {share : ℚ}

/-- A collateral of whole cents is split without a rest. -/
theorem conserves_of_cents (n : ℕ) (h0 : 0 ≤ share) (h1 : share ≤ 1) :
    (confiscation escrowId (n / 100) share).Conserves (n / 100) := by
  have hn : (0 : ℚ) ≤ n / 100 := by positivity
  have hlow : 0 ≤ cents (n / 100 * share) := by
    rw [← cents_zero]
    exact cents_mono (mul_nonneg hn h0)
  have hhigh : cents (n / 100 * share) ≤ n := by
    have hmono : cents (n / 100 * share) ≤ cents ((n : ℤ) / 100) :=
      cents_mono (by simpa using mul_le_of_le_one_right hn h1)
    rwa [cents_whole] at hmono
  have hrest : cents ((n / 100 : ℚ) - cents (n / 100 * share) / 100) =
      n - cents (n / 100 * share) := by
    simpa using cents_rest n (cents (n / 100 * share))
  have hlow' : (0 : ℚ) ≤ cents (n / 100 * share) := by exact_mod_cast hlow
  have hhigh' : (cents (n / 100 * share) : ℚ) ≤ n := by exact_mod_cast hhigh
  refine ⟨?_, ?_, ?_, ?_⟩
  · exact div_nonneg hlow' (by norm_num)
  · exact div_le_div_of_nonneg_right hhigh' (by norm_num)
  · show (0 : ℚ) ≤ (cents _ : ℤ) / 100
    rw [hrest]
    push_cast
    exact div_nonneg (by linarith) (by norm_num)
  · show (_ / 100 + (cents _ : ℤ) / 100 : ℚ) = _
    rw [hrest]
    push_cast
    ring

/-- What the two shares add up to is a whole number of cents. -/
theorem cents_of_conserves {collateral : ℚ}
    (h : (confiscation escrowId collateral share).Conserves collateral) :
    ∃ n : ℤ, collateral = n / 100 := by
  refine ⟨cents (collateral * share) +
    cents (collateral - (cents (collateral * share) : ℚ) / 100), ?_⟩
  have hsum := h.sum
  simp only [confiscation] at hsum
  push_cast
  linarith

theorem usdc_cents_iff (stroops : ℕ) : (∃ n : ℤ, usdc stroops = n / 100) ↔ 100000 ∣ stroops := by
  constructor
  · rintro ⟨n, hn⟩
    have hq : (stroops : ℚ) = (100000 * n : ℤ) := by
      unfold usdc USDC_DECIMALS at hn
      push_cast
      linarith
    have hz : (stroops : ℤ) = 100000 * n := by exact_mod_cast hq
    omega
  · rintro ⟨k, rfl⟩
    refine ⟨k, ?_⟩
    unfold usdc USDC_DECIMALS
    push_cast
    ring

/-- **The split conserves exactly the collaterals of whole cents.** -/
theorem confiscation_conserves_iff (escrowId : String) (stroops : ℕ) (share : ℚ) (h0 : 0 ≤ share)
    (h1 : share ≤ 1) :
    (confiscation escrowId (usdc stroops) share).Conserves (usdc stroops) ↔ 100000 ∣ stroops := by
  rw [← usdc_cents_iff]
  constructor
  · exact cents_of_conserves
  · intro hcents
    obtain ⟨k, rfl⟩ := (usdc_cents_iff stroops).mp hcents
    have hk : usdc (100000 * k) = (k : ℚ) / 100 := by
      unfold usdc USDC_DECIMALS
      push_cast
      ring
    rw [hk]
    exact conserves_of_cents k h0 h1

end

/-- A collateral of 1.05 USDC is split without a rest. -/
theorem wholeCents_conserved :
    (confiscation "escrow-1" (usdc 10500000) DEFAULT_REQUESTER_CONFISCATION_SHARE).Conserves
      (usdc 10500000) :=
  (confiscation_conserves_iff "escrow-1" 10500000 DEFAULT_REQUESTER_CONFISCATION_SHARE
    (by norm_num [DEFAULT_REQUESTER_CONFISCATION_SHARE])
    (by norm_num [DEFAULT_REQUESTER_CONFISCATION_SHARE])).mpr (by decide)

/-- Of 0.006 USDC the two shares ask for 0.01 USDC. -/
theorem halfCent_overasked :
    (confiscation "escrow-1" (usdc 60000) DEFAULT_REQUESTER_CONFISCATION_SHARE).requestedAction
        = "confiscate:requester=0,marketplace=0.01" ∧
      ¬ ∀ (stroops : ℕ) (share : ℚ), 0 ≤ share → share ≤ 1 →
        (confiscation "escrow-1" (usdc stroops) share).Conserves (usdc stroops) := by
  refine ⟨by decide +kernel, fun hall => ?_⟩
  have hsum := (hall 60000 DEFAULT_REQUESTER_CONFISCATION_SHARE
    (by norm_num [DEFAULT_REQUESTER_CONFISCATION_SHARE])
    (by norm_num [DEFAULT_REQUESTER_CONFISCATION_SHARE])).sum
  exact absurd hsum (by decide +kernel)

end TrustGate.Market
