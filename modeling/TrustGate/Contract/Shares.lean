import TrustGate.Contract.Solvency

set_option autoImplicit false

/-! # The confiscation split

What `confiscate` does with a locked escrow whose requester has authorised the call: for every
collateral and every share it stops at one of two checks, or splits the collateral at the floor of
the requester's part. -/

namespace TrustGate.Contract

/-- The largest `i128`. -/
def I128_MAX : Int := 2 ^ 127 - 1

/-- The requester's part: `bp` basis points of `c`, rounded down. -/
def requesterPart (c : Int) (bp : Nat) : Int := c * bp / 10000

section

variable {c : Int} {bp bp' : Nat}

theorem requesterPart_full : requesterPart c 10000 = c := by
  unfold requesterPart
  omega

theorem requesterPart_none : requesterPart c 0 = 0 := by
  unfold requesterPart
  omega

theorem requesterPart_mono (hc : 0 ≤ c) (hle : bp ≤ bp') :
    requesterPart c bp ≤ requesterPart c bp' := by
  have hmul : c * bp ≤ c * bp' := Int.mul_le_mul_of_nonneg_left (by omega) hc
  exact Int.ediv_le_ediv (by omega) hmul

theorem requesterPart_bounds (hc : 0 ≤ c) (hbp : bp ≤ 10000) :
    0 ≤ requesterPart c bp ∧ requesterPart c bp ≤ c := by
  have hlow := requesterPart_mono hc (Nat.zero_le bp)
  have hhigh := requesterPart_mono hc hbp
  rw [requesterPart_none] at hlow
  rw [requesterPart_full] at hhigh
  exact ⟨hlow, hhigh⟩

/-- The product does not fit into an `i128`; with the full share it is never formed. -/
def Overflows (c : Int) (bp : Nat) : Prop := bp < 10000 ∧ I128_MAX < c * bp

instance : Decidable (Overflows c bp) := inferInstanceAs (Decidable (_ ∧ _))

theorem checkedI128_of_bounds {x : Int} (hx : 0 ≤ x) (hmax : x ≤ I128_MAX) :
    checkedI128 x = some x := by
  unfold I128_MAX at hmax
  exact if_pos (by omega)

/-- The arithmetic of the requester's share. -/
theorem requesterShareOf_run (hc : 0 ≤ c) (hmax : c ≤ I128_MAX) (hbp : bp ≤ 10000) (w : World) :
    requesterShareOf c bp w =
      if Overflows c bp then .error (.err .insufficientCollateral)
      else .ok (requesterPart c bp, w) := by
  unfold requesterShareOf
  by_cases hfull : bp = 10000
  · subst hfull
    rw [if_pos rfl, if_neg fun ho => Nat.lt_irrefl _ ho.1, requesterPart_full]
    rfl
  rw [if_neg hfull]
  have hproduct : 0 ≤ c * bp := Int.mul_nonneg hc (Int.natCast_nonneg bp)
  by_cases ho : Overflows c bp
  · have hnone : checkedMul c bp = none := by
      have hlarge := ho.2
      unfold I128_MAX at hlarge
      exact if_neg (by omega)
    rw [if_pos ho, hnone]
    rfl
  · have hfits : c * bp ≤ I128_MAX := by
      by_contra hlarge
      exact ho ⟨by omega, by omega⟩
    have hbounds := requesterPart_bounds hc hbp
    have hsome : checkedMul c bp = some (c * bp) := checkedI128_of_bounds hproduct hfits
    have hdiv : checkedDiv (c * bp) 10000 = some (requesterPart c bp) := by
      unfold checkedDiv
      rw [if_neg (by decide), Int.tdiv_eq_ediv_of_nonneg hproduct]
      exact checkedI128_of_bounds hbounds.1 (hbounds.2.trans hmax)
    rw [if_neg ho, hsome]
    show okOr _ (checkedDiv (c * bp) 10000) w = _
    rw [hdiv]
    rfl

end

/-! ## The steps of `confiscate` on a live entry -/

section

variable {net : Network} {env : Env} {id : BytesN32} {s : EscrowState} {life : Nat} {w : World}

/-- A step that fails ends the invocation. -/
theorem bind_error {α β : Type} {x : Invocation α} {f : α → Invocation β} {v : World} {e : Failure}
    (h : x v = .error e) : (x >>= f) v = .error e := by
  change (x v >>= fun p => f p.1 p.2) = _
  rw [h]
  rfl

theorem ensure_error {c : Prop} [Decidable c] {e : Failure} {v : World} (h : ¬ c) :
    ensure c e v = .error e := by
  rw [ensure, if_neg h]
  rfl

theorem requireAuth_run {a : Address} (h : env.Authorises net a) :
    requireAuth net env a w = .ok ((), w) :=
  ensure_run h

theorem okOr_run {α : Type} {e : Failure} {o : Option α} {a : α} (h : o = some a) :
    okOr e o w = .ok (a, w) := by
  rw [h]
  rfl

theorem loadState_run (hentry : w.persistent id = some ⟨s, life⟩) (hlive : w.sequence < life) :
    loadState id w = .ok (s, w) := by
  have hget : persistentGet id w = .ok (some s, w) := by
    simp [persistentGet, hentry, hlive]
  exact bind_run hget

theorem instanceToken_run {token : Address} (hslot : w.inst.token = some token) :
    instanceToken w = .ok (token, w) := by
  have hget : (get : Invocation World) w = .ok (w, w) := rfl
  exact (bind_run hget).trans (okOr_run hslot)

/-- A state is saved over a live entry. -/
theorem saveState_live {state : EscrowState} (hentry : w.persistent id = some ⟨s, life⟩)
    (hlive : w.sequence < life) :
    saveState net id state w = .ok ((), w.withEntry id ⟨state, savedLife net w id⟩) := by
  have hset : persistentSet net id state w = .ok ((), w.withEntry id ⟨state, life⟩) := by
    simp [persistentSet, hentry, hlive]
  refine Eq.trans (bind_run hset) ?_
  simp [persistentExtendTtl, World.withEntry, savedLife, writtenLife, hentry, hlive]

/-- The world after the contract has paid the positive one of `payouts`. -/
def World.paying (net : Network) (w : World) (token : Address) (payouts : List (Address × Int)) :
    World :=
  let paid := payouts.filter fun p => decide (0 < p.2)
  { w with
    balance := payOut net token paid w.balance
    transfers := w.transfers ++
      paid.map fun p => ⟨token, net.currentContractAddress, p.1, p.2⟩ }

/-- The token contract carries out the payment of `amount` to `dst`, if there is one to make. -/
def Accepts (net : Network) (env : Env) (token dst : Address) (amount : Int) : Prop :=
  0 < amount → env.tokenAccepts token net.currentContractAddress dst amount

theorem transferPositive_run {token dst : Address} {amount : Int}
    (hbalance : amount ≤ w.balance token net.currentContractAddress)
    (haccepts : Accepts net env token dst amount) :
    transferPositive env token net.currentContractAddress dst amount w =
      .ok ((), w.paying net token [(dst, amount)]) := by
  unfold transferPositive
  by_cases hpos : 0 < amount
  · rw [if_pos hpos]
    refine (if_pos ⟨by omega, hbalance, haccepts hpos⟩).trans ?_
    simp [World.paying, hpos, payOut]
  · rw [if_neg hpos]
    simp only [World.paying, hpos, List.filter_cons, List.filter_nil, decide_false,
      Bool.false_eq_true, if_false, payOut, List.foldl_nil, List.map_nil, List.append_nil]
    rfl

theorem transferPositive_error {token dst : Address} {amount : Int}
    (hrefused : 0 < amount ∧ w.balance token net.currentContractAddress < amount ∨
      ¬ Accepts net env token dst amount) :
    transferPositive env token net.currentContractAddress dst amount w = .error .trap := by
  have hpos : 0 < amount := by
    rcases hrefused with h | h
    · exact h.1
    · by_contra hle
      exact h fun hpos => absurd hpos hle
  unfold transferPositive
  rw [if_pos hpos]
  refine if_neg fun hok => ?_
  rcases hrefused with h | h
  · exact absurd hok.2.1 (by omega)
  · exact h fun _ => hok.2.2

theorem World.paying_paying (token : Address) (p q : Address × Int) :
    (w.paying net token [p]).paying net token [q] = w.paying net token [p, q] := by
  have hsplit : [p, q] = [p] ++ [q] := rfl
  simp only [World.paying, hsplit, List.filter_append, payOut_append, List.map_append,
    List.append_assoc]

theorem paying_balance (w : World) (token : Address) {dst : Address} {amount : Int}
    (hnonneg : 0 ≤ amount)
    (hne : dst ≠ net.currentContractAddress)
    (hle : amount ≤ w.balance token net.currentContractAddress) :
    ((w.paying net token [(dst, amount)]).balance token net.currentContractAddress : Int) =
      w.balance token net.currentContractAddress - amount := by
  by_cases hpos : 0 < amount
  · simp only [World.paying, hpos, payOut, List.filter_cons, List.filter_nil, decide_true, if_true,
      List.foldl_cons, List.foldl_nil, moveBalance, Function.update_self,
      Function.update_of_ne hne.symm]
    omega
  · have hzero : amount = 0 := by omega
    simp [World.paying, hzero, payOut]

end

/-! ## The split -/

section

variable {net : Network} {env : Env} {id : BytesN32} {s : EscrowState} {life : Nat} {w : World}
  {token : Address}

/-- The token can pay both shares: the contract holds the collateral, and the token contract
carries out each positive payment. -/
structure Payable (net : Network) (env : Env) (w : World) (token requester marketplace : Address)
    (r m : Int) : Prop where
  held : r + m ≤ w.balance token net.currentContractAddress
  requester : Accepts net env token requester r
  marketplace : Accepts net env token marketplace m

/-- The world `confiscate` leaves when it pays `r` and `m`. -/
def World.confiscated (net : Network) (w : World) (id : BytesN32) (s : EscrowState)
    (token marketplace : Address) (r m : Int) (bp : Nat) : World :=
  let saved := w.withEntry id ⟨{ s with status := .confiscated }, savedLife net w id⟩
  let paid := saved.paying net token [(s.requester, r), (marketplace, m)]
  { paid with events := paid.events ++ [.escrowConfiscated id s.requester marketplace r m bp] }

/-- The two payments of a split that the token can pay. -/
theorem payShares_run {marketplace requester : Address} {r m : Int} (hr : 0 ≤ r) (hm : 0 ≤ m)
    (hne : requester ≠ net.currentContractAddress)
    (hpay : Payable net env w token requester marketplace r m)
    (rest : Unit → Invocation (Int × Int)) :
    (transferPositive env token net.currentContractAddress requester r >>= fun _ =>
      transferPositive env token net.currentContractAddress marketplace m >>= rest) w =
      rest () (w.paying net token [(requester, r), (marketplace, m)]) := by
  obtain ⟨hheld, hrequester, hmarketplace⟩ := hpay
  have hle : r ≤ w.balance token net.currentContractAddress := by omega
  have hleft := paying_balance w token hr hne hle
  rw [bind_run (transferPositive_run hle hrequester),
    bind_run (transferPositive_run (by omega) hmarketplace), World.paying_paying]

/-- A split that the token cannot pay traps at one of its payments. -/
theorem payShares_error {marketplace requester : Address} {r m : Int} (hr : 0 ≤ r) (hm : 0 ≤ m)
    (hne : requester ≠ net.currentContractAddress)
    (hpay : ¬ Payable net env w token requester marketplace r m)
    (rest : Unit → Invocation (Int × Int)) :
    (transferPositive env token net.currentContractAddress requester r >>= fun _ =>
      transferPositive env token net.currentContractAddress marketplace m >>= rest) w =
      .error .trap := by
  by_cases hrequester : Accepts net env token requester r
  case neg => exact bind_error (transferPositive_error (.inr hrequester))
  by_cases hle : r ≤ w.balance token net.currentContractAddress
  case neg => exact bind_error (transferPositive_error (.inl (by omega)))
  rw [bind_run (transferPositive_run hle hrequester)]
  have hleft := paying_balance w token hr hne hle
  by_cases hmarketplace : Accepts net env token marketplace m
  case neg => exact bind_error (transferPositive_error (.inr hmarketplace))
  refine bind_error (transferPositive_error (.inl ?_))
  have hshort : ¬ r + m ≤ w.balance token net.currentContractAddress :=
    fun hheld => hpay ⟨hheld, hrequester, hmarketplace⟩
  omega

variable (marketplace : Address) {bp : Nat}

/-- `confiscate` up to the check of the share. -/
theorem confiscate_over (hbp : 10000 < bp) :
    confiscate net env id bp marketplace w = .error (.err .shareBpInvalid) :=
  bind_error (ensure_error (by omega))

/-- `confiscate` of a locked escrow up to its arithmetic. -/
theorem confiscate_checks (hentry : w.persistent id = some ⟨s, life⟩) (hlive : w.sequence < life)
    (hlocked : s.status = .locked) (hauth : env.Authorises net s.requester)
    (hslot : w.inst.token = some token) (hbp : bp ≤ 10000) :
    confiscate net env id bp marketplace w =
      (do let requesterShare ← requesterShareOf s.collateral bp
          let marketplaceShare ←
            okOr (.err .insufficientCollateral) (checkedSub s.collateral requesterShare)
          saveState net id { s with status := .confiscated }
          transferPositive env token net.currentContractAddress s.requester requesterShare
          transferPositive env token net.currentContractAddress marketplace marketplaceShare
          publish (.escrowConfiscated id s.requester marketplace requesterShare marketplaceShare bp)
          return (requesterShare, marketplaceShare) : Invocation (Int × Int)) w := by
  unfold confiscate
  rw [bind_run (ensure_run hbp), bind_run (loadState_run hentry hlive),
    bind_run (ensure_run hlocked), bind_run (requireAuth_run hauth),
    bind_run (instanceToken_run hslot)]

/-- What `confiscate` does with a locked escrow and a share it accepts. -/
theorem confiscate_locked (hentry : w.persistent id = some ⟨s, life⟩) (hlive : w.sequence < life)
    (hlocked : s.status = .locked) (hauth : env.Authorises net s.requester)
    (hslot : w.inst.token = some token) (hbp : bp ≤ 10000)
    (hpos : 0 < s.collateral) (hmax : s.collateral ≤ I128_MAX) :
    (Overflows s.collateral bp →
      confiscate net env id bp marketplace w = .error (.err .insufficientCollateral)) ∧
    (¬ Overflows s.collateral bp →
      let r := requesterPart s.collateral bp
      let m := s.collateral - r
      (Payable net env w token s.requester marketplace r m →
        confiscate net env id bp marketplace w =
          .ok ((r, m), w.confiscated net id s token marketplace r m bp)) ∧
      (¬ Payable net env w token s.requester marketplace r m →
        confiscate net env id bp marketplace w = .error .trap)) := by
  rw [confiscate_checks marketplace hentry hlive hlocked hauth hslot hbp]
  have hshare := requesterShareOf_run hpos.le hmax hbp w
  obtain ⟨hr, hrle⟩ := requesterPart_bounds hpos.le hbp
  refine ⟨fun ho => ?_, fun ho => ?_⟩
  · rw [if_pos ho] at hshare
    exact bind_error hshare
  rw [if_neg ho] at hshare
  have hm : 0 ≤ s.collateral - requesterPart s.collateral bp := by omega
  have hsub : checkedSub s.collateral (requesterPart s.collateral bp) =
      some (s.collateral - requesterPart s.collateral bp) :=
    checkedI128_of_bounds hm (by omega)
  rw [bind_run hshare, bind_run (okOr_run hsub), bind_run (saveState_live hentry hlive)]
  -- saving the state leaves the balances the payments look at
  have hsaved : ∀ {state : EscrowState}, Payable net env
      (w.withEntry id ⟨state, savedLife net w id⟩) token s.requester marketplace
      (requesterPart s.collateral bp) (s.collateral - requesterPart s.collateral bp) ↔
      Payable net env w token s.requester marketplace
      (requesterPart s.collateral bp) (s.collateral - requesterPart s.collateral bp) :=
    ⟨fun ⟨h1, h2, h3⟩ => ⟨h1, h2, h3⟩, fun ⟨h1, h2, h3⟩ => ⟨h1, h2, h3⟩⟩
  refine ⟨fun hpay => ?_, fun hpay => ?_⟩
  · rw [payShares_run hr hm hauth.2 (hsaved.mpr hpay)]
    rfl
  · exact payShares_error hr hm hauth.2 (fun h => hpay (hsaved.mp h)) _

section

variable (hentry : w.persistent id = some ⟨s, life⟩) (hlive : w.sequence < life)
  (hlocked : s.status = .locked) (hpos : 0 < s.collateral) (hmax : s.collateral ≤ I128_MAX)
  (hauth : env.Authorises net s.requester) (hslot : w.inst.token = some token)
include hentry hlive hlocked hpos hmax hauth hslot

/-- A product that fits is not answered with a contract error. -/
theorem confiscate_fits (hbp : bp ≤ 10000) (ho : ¬ Overflows s.collateral bp) (e : EscrowError) :
    confiscate net env id bp marketplace w ≠ .error (.err e) := by
  obtain ⟨-, hsplit⟩ :=
    confiscate_locked marketplace hentry hlive hlocked hauth hslot hbp hpos hmax
  obtain ⟨hpaid, hunpaid⟩ := hsplit ho
  intro herror
  by_cases hpay : Payable net env w token s.requester marketplace (requesterPart s.collateral bp)
      (s.collateral - requesterPart s.collateral bp)
  · have hok := herror.symm.trans (hpaid hpay)
    cases hok
  · have htrap := herror.symm.trans (hunpaid hpay)
    cases htrap

theorem confiscate_shareBpInvalid_iff :
    confiscate net env id bp marketplace w = .error (.err .shareBpInvalid) ↔ 10000 < bp := by
  refine ⟨fun herror => by_contra fun hbp => ?_, confiscate_over marketplace⟩
  have hle : bp ≤ 10000 := Nat.le_of_not_lt hbp
  by_cases ho : Overflows s.collateral bp
  · have hoverflow := (confiscate_locked marketplace hentry hlive hlocked hauth
      hslot hle hpos hmax).1 ho
    cases herror.symm.trans hoverflow
  · exact confiscate_fits marketplace hentry hlive hlocked hpos hmax hauth hslot hle ho _ herror

theorem confiscate_insufficient_iff :
    confiscate net env id bp marketplace w = .error (.err .insufficientCollateral) ↔
      Overflows s.collateral bp := by
  constructor
  · intro herror
    by_contra ho
    by_cases hbp : 10000 < bp
    · cases herror.symm.trans (confiscate_over marketplace hbp)
    · exact confiscate_fits marketplace hentry hlive hlocked hpos hmax hauth hslot
        (Nat.le_of_not_lt hbp) ho _ herror
  · intro ho
    exact (confiscate_locked marketplace hentry hlive hlocked hauth hslot ho.1.le hpos hmax).1 ho

end

/-- **The confiscation split.** On a locked escrow the requester's call fails with `ShareBpInvalid`
exactly when the share is above 10000, and with `InsufficientCollateral` exactly when the share is
below 10000 and the product overflows. Otherwise it returns the floor of the requester's part and
the rest, and transfers the positive ones; nothing but a payment the token refuses stops it. -/
theorem confiscate_split (net : Network) (env : Env) (id : BytesN32) (bp : Nat)
    (marketplace : Address) (w : World) (hentry : w.persistent id = some ⟨s, life⟩)
    (hlive : w.sequence < life) (hlocked : s.status = .locked) (hpos : 0 < s.collateral)
    (hmax : s.collateral ≤ 2 ^ 127 - 1) (hauth : env.Authorises net s.requester) (hslot : w.inst.token = some token) :
    (confiscate net env id bp marketplace w = .error (.err .shareBpInvalid) ↔ 10000 < bp) ∧
    (confiscate net env id bp marketplace w = .error (.err .insufficientCollateral) ↔
      bp < 10000 ∧ 2 ^ 127 - 1 < s.collateral * bp) ∧
    (¬ 10000 < bp → ¬ (bp < 10000 ∧ 2 ^ 127 - 1 < s.collateral * bp) →
      let r := requesterPart s.collateral bp
      let m := s.collateral - r
      (0 ≤ r ∧ r ≤ s.collateral) ∧ (0 ≤ m ∧ m ≤ s.collateral) ∧
      (Payable net env w token s.requester marketplace r m →
        ∃ w', confiscate net env id bp marketplace w = .ok ((r, m), w') ∧
          w'.transfers = w.transfers ++
            ([(s.requester, r), (marketplace, m)].filter fun p => decide (0 < p.2)).map
              fun p => ⟨token, net.currentContractAddress, p.1, p.2⟩) ∧
      (¬ Payable net env w token s.requester marketplace r m →
        confiscate net env id bp marketplace w = .error .trap)) ∧
    (∀ bp', bp ≤ bp' → requesterPart s.collateral bp ≤ requesterPart s.collateral bp') ∧
    requesterPart s.collateral 10000 = s.collateral ∧ requesterPart s.collateral 0 = 0 := by
  refine ⟨confiscate_shareBpInvalid_iff marketplace hentry hlive hlocked hpos hmax hauth hslot,
    confiscate_insufficient_iff marketplace hentry hlive hlocked hpos hmax hauth hslot,
    fun hbp ho => ?_, fun bp' hle => requesterPart_mono hpos.le hle, requesterPart_full, requesterPart_none⟩
  obtain ⟨hr, hrle⟩ := requesterPart_bounds hpos.le (Nat.le_of_not_lt hbp)
  obtain ⟨-, hsplit⟩ := confiscate_locked marketplace hentry hlive hlocked hauth
    hslot (Nat.le_of_not_lt hbp) hpos hmax
  obtain ⟨hpaid, hunpaid⟩ := hsplit ho
  exact ⟨⟨hr, hrle⟩, ⟨by omega, by omega⟩, fun h => ⟨_, hpaid h, rfl⟩, hunpaid⟩

end

/-! ## A split of 70 and 30 per cent -/

/-- An escrow of 1001 units, locked by `GEXECUTOR` for `GREQUESTER`. -/
def lockedEscrow : EscrowState where
  taskIdHash := Vector.replicate 32 7
  executor := "GEXECUTOR"
  requester := "GREQUESTER"
  releaseSigner := "GSIGNER"
  collateral := 1001
  createdAtLedger := 1000
  status := .locked

/-- The contract with that escrow as its only one, and just its collateral. -/
def lockedWorld : World where
  sequence := 1000
  inst := ⟨some 1, some "USDC", some "GSIGNER", 519400⟩
  persistent := fun id => if id = Vector.replicate 32 0 then some ⟨lockedEscrow, 519400⟩ else none
  balance := fun _ _ => 1001
  transfers := []
  events := []

/-- The escrow's requester takes 70 per cent, rounded down, and the marketplace the rest. -/
theorem lockedWorld_confiscated :
    ∃ w', confiscate (copyNetwork 4096) ⟨["GREQUESTER"], fun _ _ _ _ => true⟩
        (Vector.replicate 32 0) 7000 "GMARKET" lockedWorld = .ok ((700, 301), w') ∧
      w'.transfers =
        [⟨"USDC", "CESCROW", "GREQUESTER", 700⟩, ⟨"USDC", "CESCROW", "GMARKET", 301⟩] := by
  have hentry : lockedWorld.persistent (Vector.replicate 32 0) = some ⟨lockedEscrow, 519400⟩ := by
    simp [lockedWorld]
  have hslot : lockedWorld.inst.token = some "USDC" := rfl
  obtain ⟨-, -, hsplit, -⟩ := confiscate_split (copyNetwork 4096)
    ⟨["GREQUESTER"], fun _ _ _ _ => true⟩ (Vector.replicate 32 0) 7000 "GMARKET" lockedWorld hentry
    (by decide) rfl (by decide) (by decide) (by decide) hslot
  obtain ⟨-, -, hpaid, -⟩ := hsplit (by decide) (by decide)
  exact hpaid ⟨by decide, fun _ => rfl, fun _ => rfl⟩

end TrustGate.Contract
