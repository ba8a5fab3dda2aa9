import TrustGate.Contract.Escrow

set_option autoImplicit false

/-! # What a committed invocation does

One lemma for each host function and each contract function: what must have held for it to
commit, and the world it leaves. `execInput_cases` puts them together. A committed input closes
ledgers, creates one escrow, or settles one locked escrow; every invariant of the contract is
proved from that case split alone. -/

namespace TrustGate.Contract

open Rollback

/-! ## Host functions -/

theorem bind_ok {α β : Type} {x : Invocation α} {f : α → Invocation β} {w w' : World} {b : β}
    (h : (x >>= f) w = .ok (b, w')) : ∃ a v, x w = .ok (a, v) ∧ f a v = .ok (b, w') := by
  change (x w >>= fun p => f p.1 p.2) = _ at h
  cases hx : x w with
  | error e => rw [hx] at h; cases h
  | ok p => rw [hx] at h; exact ⟨p.1, p.2, rfl, h⟩

/-- A step that succeeds hands over to the next one. -/
theorem bind_run {α β : Type} {x : Invocation α} {f : α → Invocation β} {w v : World} {a : α}
    (h : x w = .ok (a, v)) : (x >>= f) w = f a v := by
  change (x w >>= fun p => f p.1 p.2) = _
  rw [h]; rfl

theorem map_ok {α β : Type} {x : Invocation α} {f : α → β} {w w' : World} {b : β}
    (h : (f <$> x) w = .ok (b, w')) : ∃ a, x w = .ok (a, w') ∧ b = f a := by
  change (x w >>= fun p => pure (f p.1, p.2)) = _ at h
  cases hx : x w with
  | error e => rw [hx] at h; cases h
  | ok p => rw [hx] at h; cases h; exact ⟨p.1, rfl, rfl⟩

theorem map_run {α β : Type} {x : Invocation α} {f : α → β} {w w' : World} {a : α}
    (h : x w = .ok (a, w')) : (f <$> x) w = .ok (f a, w') := by
  change (x w >>= fun p => pure (f p.1, p.2)) = _
  rw [h]; rfl

theorem pure_ok {α : Type} {a b : α} {w w' : World}
    (h : (pure a : Invocation α) w = .ok (b, w')) : a = b ∧ w = w' := by
  cases h; exact ⟨rfl, rfl⟩

theorem get_ok {s w w' : World} (h : (get : Invocation World) w = .ok (s, w')) :
    s = w ∧ w' = w := by
  cases h; exact ⟨rfl, rfl⟩

theorem modify_ok {f : World → World} {u : Unit} {w w' : World}
    (h : (modify f : Invocation Unit) w = .ok (u, w')) : w' = f w := by
  cases h; rfl

theorem ensure_ok {c : Prop} [Decidable c] {e : Failure} {u : Unit} {w w' : World}
    (h : ensure c e w = .ok (u, w')) : c ∧ w' = w := by
  unfold ensure at h
  split at h
  · rename_i hc; exact ⟨hc, (pure_ok h).2.symm⟩
  · cases h

theorem ensure_run {c : Prop} [Decidable c] {e : Failure} {w : World} (h : c) :
    ensure c e w = .ok ((), w) := by
  rw [ensure, if_pos h]; rfl

theorem okOr_ok {α : Type} {e : Failure} {o : Option α} {a : α} {w w' : World}
    (h : okOr e o w = .ok (a, w')) : o = some a ∧ w' = w := by
  cases o with
  | none => cases h
  | some b => obtain ⟨rfl, rfl⟩ := pure_ok h; exact ⟨rfl, rfl⟩

theorem requireAuth_ok {net : Network} {env : Env} {a : Address} {u : Unit} {w w' : World}
    (h : requireAuth net env a w = .ok (u, w')) : env.Authorises net a ∧ w' = w :=
  ensure_ok h

theorem persistentGet_ok {id : BytesN32} {o : Option EscrowState} {w w' : World}
    (h : persistentGet id w = .ok (o, w')) : w' = w ∧ o = (w.persistent id).map (·.state) ∧
      ∀ entry, w.persistent id = some entry → w.sequence < entry.archivedAt := by
  unfold persistentGet at h
  split at h
  · rename_i hn; cases h; simp [hn]
  · rename_i entry hs
    split at h
    · rename_i hlive; cases h; simp [hs, hlive]
    · cases h

theorem persistentHas_ok {id : BytesN32} {b : Bool} {w w' : World}
    (h : persistentHas id w = .ok (b, w')) : w' = w ∧ b = (w.persistent id).isSome := by
  obtain ⟨o, v, h1, h2⟩ := bind_ok h
  obtain ⟨rfl, rfl, -⟩ := persistentGet_ok h1
  obtain ⟨rfl, rfl⟩ := pure_ok h2
  simp

/-- The life the entry `id` has, or gets when it is written for the first time. -/
def writtenLife (net : Network) (w : World) (id : BytesN32) : Nat :=
  match w.persistent id with
  | none => w.sequence + net.minPersistentTtl
  | some entry => entry.archivedAt

/-- The life of the entry `id` after `saveState`. -/
def savedLife (net : Network) (w : World) (id : BytesN32) : Nat :=
  extendTtl w.sequence (writtenLife net w id) 100 INSTANCE_TTL_EXTEND_TO

theorem persistentSet_ok {net : Network} {id : BytesN32} {state : EscrowState} {u : Unit}
    {w w' : World} (h : persistentSet net id state w = .ok (u, w')) :
    w' = w.withEntry id ⟨state, writtenLife net w id⟩ := by
  unfold persistentSet at h
  split at h
  · rename_i hn; cases h; simp [writtenLife, hn]
  · rename_i entry hs
    split at h
    · cases h; simp [writtenLife, hs]
    · cases h

theorem persistentExtendTtl_ok {id : BytesN32} {threshold extendTo : Nat} {u : Unit}
    {w w' : World} (h : persistentExtendTtl id threshold extendTo w = .ok (u, w')) :
    ∃ entry, w.persistent id = some entry ∧ w' = w.withEntry id
      ⟨entry.state, extendTtl w.sequence entry.archivedAt threshold extendTo⟩ := by
  unfold persistentExtendTtl at h
  split at h
  · cases h
  · rename_i entry hs
    split at h
    · cases h; exact ⟨entry, hs, rfl⟩
    · cases h

theorem saveState_ok {net : Network} {id : BytesN32} {state : EscrowState} {u : Unit}
    {w w' : World} (h : saveState net id state w = .ok (u, w')) :
    w' = w.withEntry id ⟨state, savedLife net w id⟩ := by
  obtain ⟨_, v, h1, h2⟩ := bind_ok h
  obtain rfl := persistentSet_ok h1
  obtain ⟨entry, hentry, rfl⟩ := persistentExtendTtl_ok h2
  simp only [World.withEntry, Function.update_self, Option.some.injEq] at hentry
  subst hentry
  simp [World.withEntry, savedLife]

/-- A state is saved under an unused id. -/
theorem saveState_run {net : Network} {id : BytesN32} {state : EscrowState} {w : World}
    (hnone : w.persistent id = none) (hnet : 0 < net.minPersistentTtl) :
    saveState net id state w = .ok ((), w.withEntry id ⟨state, savedLife net w id⟩) := by
  have hset : persistentSet net id state w =
      .ok ((), w.withEntry id ⟨state, w.sequence + net.minPersistentTtl⟩) := by
    simp [persistentSet, hnone]
  refine Eq.trans (bind_run hset) ?_
  simp [persistentExtendTtl, World.withEntry, savedLife, writtenLife, hnone, hnet]

theorem loadState_ok {id : BytesN32} {s : EscrowState} {w w' : World}
    (h : loadState id w = .ok (s, w')) :
    w' = w ∧ ∃ life, w.persistent id = some ⟨s, life⟩ ∧ w.sequence < life := by
  obtain ⟨o, v, h1, h2⟩ := bind_ok h
  obtain ⟨rfl, rfl, hlive⟩ := persistentGet_ok h1
  obtain ⟨ho, rfl⟩ := okOr_ok h2
  refine ⟨rfl, ?_⟩
  cases hp : w'.persistent id with
  | none => rw [hp] at ho; cases ho
  | some entry =>
      rw [hp] at ho
      obtain ⟨rfl⟩ := ho
      exact ⟨entry.archivedAt, rfl, hlive entry hp⟩

theorem instanceToken_ok {token : Address} {w w' : World}
    (h : instanceToken w = .ok (token, w')) : w.inst.token = some token ∧ w' = w := by
  obtain ⟨s, v, h1, h2⟩ := bind_ok h
  obtain ⟨rfl, rfl⟩ := get_ok h1
  exact okOr_ok h2

theorem transfer_ok {env : Env} {token src dst : Address} {amount : Int} {u : Unit}
    {w w' : World} (h : transfer env token src dst amount w = .ok (u, w')) :
    0 ≤ amount ∧ amount ≤ w.balance token src ∧
      w' = { w with
        balance := moveBalance w.balance token src dst amount.toNat
        transfers := w.transfers ++ [⟨token, src, dst, amount⟩] } := by
  unfold transfer at h
  split at h
  · rename_i hc; cases h; exact ⟨hc.1, hc.2.1, rfl⟩
  · cases h

/-! ## Token balances -/

theorem moveBalance_other {balance : Address → Address → Nat} {token src dst : Address}
    {amount : Nat} {t : Address} (ht : t ≠ token) :
    moveBalance balance token src dst amount t = balance t := by
  simp [moveBalance, Function.update_of_ne ht]

/-- A transfer takes at most its amount from any holder. -/
theorem moveBalance_ge (balance : Address → Address → Nat) (token src dst : Address)
    (amount : Nat) (t a : Address) :
    balance t a ≤ moveBalance balance token src dst amount t a + if t = token then amount else 0 := by
  by_cases ht : t = token
  · subst ht
    by_cases hd : a = dst
    · subst hd
      by_cases hs : a = src
      · subst hs; simp [moveBalance]; omega
      · simp [moveBalance, Function.update_of_ne hs]; omega
    · by_cases hs : a = src
      · subst hs; simp [moveBalance, Function.update_of_ne hd]; omega
      · simp [moveBalance, Function.update_of_ne hd, Function.update_of_ne hs]
  · rw [moveBalance_other ht]; simp

theorem moveBalance_dst {balance : Address → Address → Nat} {token src dst : Address}
    (amount : Nat) (hne : src ≠ dst) :
    moveBalance balance token src dst amount token dst = balance token dst + amount := by
  simp [moveBalance, Function.update_of_ne hne.symm]

/-- The balances after the contract has paid `payouts` in `token`, one transfer each. -/
def payOut (net : Network) (token : Address) (payouts : List (Address × Int))
    (balance : Address → Address → Nat) : Address → Address → Nat :=
  payouts.foldl (fun b p => moveBalance b token net.currentContractAddress p.1 p.2.toNat) balance

theorem payOut_other {net : Network} {token t : Address} (payouts : List (Address × Int))
    (balance : Address → Address → Nat) (ht : t ≠ token) :
    payOut net token payouts balance t = balance t := by
  induction payouts generalizing balance with
  | nil => rfl
  | cons p ps ih => exact (ih _).trans (moveBalance_other ht)

theorem payOut_append (net : Network) (token : Address) (ps qs : List (Address × Int))
    (balance : Address → Address → Nat) :
    payOut net token (ps ++ qs) balance = payOut net token qs (payOut net token ps balance) :=
  List.foldl_append

theorem payOut_ge (net : Network) (token : Address) (payouts : List (Address × Int))
    (balance : Address → Address → Nat) (a : Address) (hpos : ∀ p ∈ payouts, 0 ≤ p.2) :
    (balance token a : Int) ≤ payOut net token payouts balance token a + (payouts.map (·.2)).sum := by
  induction payouts generalizing balance with
  | nil => simp [payOut]
  | cons p ps ih =>
      have hstep := moveBalance_ge balance token net.currentContractAddress p.1 p.2.toNat token a
      have hrest := ih (moveBalance balance token net.currentContractAddress p.1 p.2.toNat)
        (fun q hq => hpos q (by simp [hq]))
      have hp : (p.2.toNat : Int) = p.2 := Int.toNat_of_nonneg (hpos p (by simp))
      rw [if_pos rfl] at hstep
      rw [List.map_cons, List.sum_cons]
      change (balance token a : Int) ≤ (payOut net token ps
        (moveBalance balance token net.currentContractAddress p.1 p.2.toNat) token a : Int) + _
      omega

/-! ## Creating an escrow -/

/-- The escrow `create_escrow` writes. -/
def CreateArgs.opened (a : CreateArgs) (ledger : Nat) : EscrowState where
  taskIdHash := a.taskIdHash
  executor := a.executor
  requester := a.requester
  releaseSigner := a.releaseSigner
  collateral := a.collateralAmount
  createdAtLedger := ledger
  status := .locked

/-- `w'` is `w` after a committed `create_escrow(a)` that returned `id`. -/
structure Created (net : Network) (env : Env) (a : CreateArgs) (w : World) (id : BytesN32)
    (w' : World) : Prop where
  authorised : env.Authorises net a.executor
  positive : 0 < a.collateralAmount
  unused : w.persistent id = none
  sequence : w'.sequence = w.sequence
  token : w'.inst.token = some a.token
  persistent : w'.persistent = Function.update w.persistent id
    (some ⟨a.opened w.sequence,
      extendTtl w.sequence (w.sequence + net.minPersistentTtl) 100 INSTANCE_TTL_EXTEND_TO⟩)
  balance : w'.balance = moveBalance w.balance a.token a.executor net.currentContractAddress
    a.collateralAmount.toNat
  transfers : w'.transfers = w.transfers ++
    [⟨a.token, a.executor, net.currentContractAddress, a.collateralAmount⟩]

/-- `nextNonce` touches nothing but the instance storage. -/
theorem nextNonce_ok {n : Nat} {w w' : World} (h : nextNonce w = .ok (n, w')) :
    ∃ inst, w' = { w with inst := inst } := by
  obtain ⟨current, v, h1, t1⟩ := bind_ok h
  obtain ⟨-, rfl⟩ := get_ok h1
  obtain ⟨next, v, h2, t2⟩ := bind_ok t1
  obtain ⟨-, rfl⟩ := okOr_ok h2
  obtain ⟨_, v, h3, t3⟩ := bind_ok t2
  obtain rfl := modify_ok h3
  obtain ⟨_, v, h4, t4⟩ := bind_ok t3
  obtain rfl := modify_ok h4
  obtain ⟨-, rfl⟩ := pure_ok t4
  exact ⟨_, rfl⟩

theorem createEscrow_ok {net : Network} {env : Env} {a : CreateArgs} {id : BytesN32}
    {w w' : World} (h : createEscrow net env a w = .ok (id, w')) : Created net env a w id w' := by
  unfold createEscrow at h
  -- each bind of the body in turn, and what its step says when it succeeds
  obtain ⟨_, v, h1, t1⟩ := bind_ok h
  obtain ⟨hauth, rfl⟩ := requireAuth_ok h1
  obtain ⟨_, v, h2, t2⟩ := bind_ok t1
  obtain ⟨hpos, rfl⟩ := ensure_ok h2
  obtain ⟨n, w1, h3, t3⟩ := bind_ok t2
  obtain ⟨inst, rfl⟩ := nextNonce_ok h3
  obtain ⟨taken, w2, h4, t4⟩ := bind_ok t3
  obtain ⟨rfl, rfl⟩ := persistentHas_ok h4
  obtain ⟨_, w3, h5, t5⟩ := bind_ok t4
  obtain ⟨hunused, rfl⟩ := ensure_ok h5
  obtain ⟨_, w4, h6, t6⟩ := bind_ok t5
  obtain rfl := modify_ok h6
  obtain ⟨_, w5, h7, t7⟩ := bind_ok t6
  obtain rfl := modify_ok h7
  obtain ⟨_, w6, h8, t8⟩ := bind_ok t7
  obtain rfl := modify_ok h8
  obtain ⟨s, w7, h9, t9⟩ := bind_ok t8
  obtain ⟨rfl, rfl⟩ := get_ok h9
  obtain ⟨_, w8, h10, t10⟩ := bind_ok t9
  obtain rfl := saveState_ok h10
  obtain ⟨_, w9, h11, t11⟩ := bind_ok t10
  obtain ⟨-, -, rfl⟩ := transfer_ok h11
  obtain ⟨_, w10, h12, t12⟩ := bind_ok t11
  obtain rfl := modify_ok h12
  obtain ⟨rfl, rfl⟩ := pure_ok t12
  -- the new escrow id was not in use, so the entry is a fresh one with a fresh lifetime
  simp only [Option.isSome_eq_false_iff, Option.isNone_iff_eq_none] at hunused
  exact {
    authorised := hauth
    positive := hpos
    unused := hunused
    sequence := rfl
    token := rfl
    persistent := by simp [World.withEntry, savedLife, writtenLife, hunused, CreateArgs.opened]
    balance := rfl
    transfers := rfl }

/-! ## Settling an escrow -/

/-- `w'` is `w` after a committed call that settled the locked escrow `id`, found as `s`, with
the status `status` and paid `payouts` for it in `token`. -/
structure Settled (net : Network) (w : World) (id : BytesN32) (s : EscrowState)
    (status : EscrowStatus) (token : Address) (payouts : List (Address × Int)) (w' : World) :
    Prop where
  loaded : ∃ life, w.persistent id = some ⟨s, life⟩
  locked : s.status = .locked
  slot : w.inst.token = some token
  nonneg : ∀ p ∈ payouts, 0 ≤ p.2
  sequence : w'.sequence = w.sequence
  inst : w'.inst = w.inst
  persistent : w'.persistent = Function.update w.persistent id
    (some ⟨{ s with status := status }, savedLife net w id⟩)
  balance : w'.balance = payOut net token payouts w.balance
  transfers : w'.transfers = w.transfers ++
    payouts.map fun p => ⟨token, net.currentContractAddress, p.1, p.2⟩

/-- Which settlement a call asks for, and what it takes for the escrow `s` at ledger `ledger`. -/
inductive SettlementRule (net : Network) (env : Env) (s : EscrowState) (ledger : Nat) :
    Call → EscrowStatus → List (Address × Int) → Prop
  | released (id : BytesN32) (auth : env.Authorises net s.releaseSigner) :
      SettlementRule net env s ledger (.releaseMilestone id) .released
        [(s.executor, s.collateral)]
  | confiscated (id : BytesN32) (bp : Nat) (marketplace : Address) (r m : Int)
      (auth : env.Authorises net s.requester)
      (bound : bp ≤ 10000)
      (share : r = if bp = 10000 then s.collateral else (s.collateral * bp).tdiv 10000)
      (sum : r + m = s.collateral) :
      SettlementRule net env s ledger (.confiscate id bp marketplace) .confiscated
        ([(s.requester, r), (marketplace, m)].filter fun p => decide (0 < p.2))
  | timedOut (id : BytesN32) (late : s.createdAtLedger + LOCK_DURATION_LEDGERS ≤ ledger) :
      SettlementRule net env s ledger (.claimTimeout id) .timedOut [(s.requester, s.collateral)]

theorem releaseMilestone_ok {net : Network} {env : Env} {id : BytesN32} {u : Unit}
    {w w' : World} (h : releaseMilestone net env id w = .ok (u, w')) :
    ∃ s token, SettlementRule net env s w.sequence (.releaseMilestone id) .released
        [(s.executor, s.collateral)] ∧
      Settled net w id s .released token [(s.executor, s.collateral)] w' := by
  unfold releaseMilestone at h
  obtain ⟨s, v, h1, t1⟩ := bind_ok h
  obtain ⟨rfl, life, hs, -⟩ := loadState_ok h1
  obtain ⟨_, v, h2, t2⟩ := bind_ok t1
  obtain ⟨hlocked, rfl⟩ := ensure_ok h2
  obtain ⟨_, v, h3, t3⟩ := bind_ok t2
  obtain ⟨hauth, rfl⟩ := requireAuth_ok h3
  obtain ⟨token, v, h4, t4⟩ := bind_ok t3
  obtain ⟨hslot, rfl⟩ := instanceToken_ok h4
  obtain ⟨_, w1, h5, t5⟩ := bind_ok t4
  obtain rfl := saveState_ok h5
  obtain ⟨_, w2, h6, t6⟩ := bind_ok t5
  obtain ⟨hpos, -, rfl⟩ := transfer_ok h6
  obtain rfl := modify_ok t6
  exact ⟨s, token, .released id hauth, {
    loaded := ⟨life, hs⟩
    locked := hlocked
    slot := hslot
    nonneg := by simpa using hpos
    sequence := rfl
    inst := rfl
    persistent := rfl
    balance := rfl
    transfers := rfl }⟩

theorem claimTimeout_ok {net : Network} {env : Env} {id : BytesN32} {full : Int}
    {w w' : World} (h : claimTimeout net env id w = .ok (full, w')) :
    ∃ s token, SettlementRule net env s w.sequence (.claimTimeout id) .timedOut
        [(s.requester, s.collateral)] ∧
      Settled net w id s .timedOut token [(s.requester, s.collateral)] w' := by
  unfold claimTimeout at h
  obtain ⟨s, v, h1, t1⟩ := bind_ok h
  obtain ⟨rfl, life, hs, -⟩ := loadState_ok h1
  obtain ⟨_, v, h2, t2⟩ := bind_ok t1
  obtain ⟨hlocked, rfl⟩ := ensure_ok h2
  obtain ⟨_, v, h3, t3⟩ := bind_ok t2
  obtain ⟨rfl, rfl⟩ := get_ok h3
  obtain ⟨_, v, h4, t4⟩ := bind_ok t3
  obtain ⟨hlate, rfl⟩ := ensure_ok h4
  obtain ⟨token, v, h5, t5⟩ := bind_ok t4
  obtain ⟨hslot, rfl⟩ := instanceToken_ok h5
  obtain ⟨_, w1, h6, t6⟩ := bind_ok t5
  obtain rfl := saveState_ok h6
  obtain ⟨_, w2, h7, t7⟩ := bind_ok t6
  obtain ⟨hpos, -, rfl⟩ := transfer_ok h7
  obtain ⟨_, w3, h8, t8⟩ := bind_ok t7
  obtain rfl := modify_ok h8
  obtain ⟨-, rfl⟩ := pure_ok t8
  have hle : s.createdAtLedger + LOCK_DURATION_LEDGERS ≤ v.sequence := by
    have : 0 < LOCK_DURATION_LEDGERS := by decide
    omega
  exact ⟨s, token, .timedOut id hle, {
    loaded := ⟨life, hs⟩
    locked := hlocked
    slot := hslot
    nonneg := by simpa using hpos
    sequence := rfl
    inst := rfl
    persistent := rfl
    balance := rfl
    transfers := rfl }⟩

theorem checkedI128_some {x y : Int} (h : checkedI128 x = some y) : y = x := by
  unfold checkedI128 at h
  split at h
  · exact (Option.some.inj h).symm
  · cases h

theorem requesterShareOf_ok {c : Int} {bp : Nat} {r : Int} {w w' : World}
    (h : requesterShareOf c bp w = .ok (r, w')) :
    w' = w ∧ r = if bp = 10000 then c else (c * bp).tdiv 10000 := by
  unfold requesterShareOf at h
  split at h
  · rename_i hbp
    obtain ⟨rfl, rfl⟩ := pure_ok h
    simp [hbp]
  · rename_i hbp
    obtain ⟨product, v, h1, t1⟩ := bind_ok h
    obtain ⟨hprod, rfl⟩ := okOr_ok h1
    obtain ⟨hdiv, rfl⟩ := okOr_ok t1
    obtain rfl := checkedI128_some hprod
    simp only [checkedDiv, OfNat.ofNat_ne_zero, if_false] at hdiv
    exact ⟨rfl, by rw [if_neg hbp]; exact checkedI128_some hdiv⟩

/-- `transferPositive` pays what a filtered list of payouts pays. -/
theorem transferPositive_ok {net : Network} {env : Env} {token dst : Address} {amount : Int}
    {u : Unit} {w w' : World}
    (h : transferPositive env token net.currentContractAddress dst amount w = .ok (u, w')) :
    let paid := [(dst, amount)].filter fun p => decide (0 < p.2)
    w' = { w with
      balance := payOut net token paid w.balance
      transfers := w.transfers ++
        paid.map fun p => ⟨token, net.currentContractAddress, p.1, p.2⟩ } := by
  unfold transferPositive at h
  split at h
  · rename_i hpos
    obtain ⟨-, -, rfl⟩ := transfer_ok h
    simp [hpos, payOut]
  · rename_i hneg
    obtain ⟨-, rfl⟩ := pure_ok h
    simp [hneg, payOut]

theorem confiscate_ok {net : Network} {env : Env} {id : BytesN32} {bp : Nat}
    {marketplace : Address} {shares : Int × Int} {w w' : World}
    (h : confiscate net env id bp marketplace w = .ok (shares, w')) :
    ∃ s token payouts, SettlementRule net env s w.sequence (.confiscate id bp marketplace)
        .confiscated payouts ∧
      Settled net w id s .confiscated token payouts w' := by
  unfold confiscate at h
  obtain ⟨_, v, h1, t1⟩ := bind_ok h
  obtain ⟨hbound, rfl⟩ := ensure_ok h1
  obtain ⟨s, v, h2, t2⟩ := bind_ok t1
  obtain ⟨rfl, life, hs, -⟩ := loadState_ok h2
  obtain ⟨_, v, h3, t3⟩ := bind_ok t2
  obtain ⟨hlocked, rfl⟩ := ensure_ok h3
  obtain ⟨_, v, h4, t4⟩ := bind_ok t3
  obtain ⟨hauth, rfl⟩ := requireAuth_ok h4
  obtain ⟨token, v, h5, t5⟩ := bind_ok t4
  obtain ⟨hslot, rfl⟩ := instanceToken_ok h5
  obtain ⟨r, v, h6, t6⟩ := bind_ok t5
  obtain ⟨rfl, hshare⟩ := requesterShareOf_ok h6
  obtain ⟨m, v, h7, t7⟩ := bind_ok t6
  obtain ⟨hm, rfl⟩ := okOr_ok h7
  obtain rfl := checkedI128_some hm
  obtain ⟨_, w1, h8, t8⟩ := bind_ok t7
  obtain rfl := saveState_ok h8
  obtain ⟨_, w2, h9, t9⟩ := bind_ok t8
  obtain rfl := transferPositive_ok h9
  obtain ⟨_, w3, h10, t10⟩ := bind_ok t9
  obtain rfl := transferPositive_ok h10
  obtain ⟨_, w4, h11, t11⟩ := bind_ok t10
  obtain rfl := modify_ok h11
  obtain ⟨-, rfl⟩ := pure_ok t11
  refine ⟨s, token, _, .confiscated id bp marketplace r (s.collateral - r) hauth hbound hshare
    (by omega), ?_⟩
  -- the two payouts are two transfers, and each is skipped when its share is not positive
  have hsplit : [(s.requester, r), (marketplace, s.collateral - r)]
      = [(s.requester, r)] ++ [(marketplace, s.collateral - r)] := rfl
  exact {
    loaded := ⟨life, hs⟩
    locked := hlocked
    slot := hslot
    nonneg := by
      intro p hp
      have := (List.mem_filter.mp hp).2
      simp only [decide_eq_true_eq] at this
      omega
    sequence := rfl
    inst := rfl
    persistent := rfl
    balance := by rw [hsplit, List.filter_append, payOut_append]; rfl
    transfers := by
      rw [hsplit, List.filter_append, List.map_append, ← List.append_assoc]; rfl }

/-! ## One committed input -/

/-- The escrow a settlement call names. -/
def Call.settles : Call → Option BytesN32
  | .createEscrow _ => none
  | .releaseMilestone id => some id
  | .confiscate id _ _ => some id
  | .claimTimeout id => some id

/-- **What a committed input does.** -/
theorem execInput_cases {net : Network} {i : Input} {w w' : World} {o : Output}
    (h : execInput net i w = .ok (o, w')) :
    (∃ n, i = .closeLedgers n ∧ o = ⟨.closed, [], [], w.sequence⟩ ∧
      w' = { w with sequence := w.sequence + n }) ∨
    (∃ env a id, i = .invoke env (.createEscrow a) ∧ o.value = .escrowId id ∧
      o.ledger = w.sequence ∧ o.transfers = w'.transfers ∧
      Created net env a { w with transfers := [], events := [] } id w') ∨
    (∃ env call id s status token payouts, i = .invoke env call ∧ call.settles = some id ∧
      o.ledger = w.sequence ∧ o.transfers = w'.transfers ∧
      SettlementRule net env s w.sequence call status payouts ∧
      Settled net { w with transfers := [], events := [] } id s status token payouts w') := by
  cases i with
  | closeLedgers n => cases h; exact .inl ⟨n, rfl, rfl, rfl⟩
  | invoke env call =>
      simp only [execInput] at h
      split at h
      case isFalse => cases h
      case isTrue =>
        -- the call runs in a world whose logs are empty
        generalize hw : ({ w with transfers := [], events := [] } : World) = w0 at h ⊢
        have hseq : w.sequence = w0.sequence := by rw [← hw]
        cases hd : dispatchCall net env call w0 with
        | error e => rw [hd] at h; cases h
        | ok p =>
            obtain ⟨v, w1⟩ := p
            rw [hd] at h
            rw [hseq]
            cases h
            cases call with
            | createEscrow a =>
                obtain ⟨id, h1, rfl⟩ := map_ok hd
                exact .inr (.inl ⟨env, a, id, rfl, rfl, hseq, rfl, createEscrow_ok h1⟩)
            | releaseMilestone id =>
                obtain ⟨u, h1, rfl⟩ := map_ok hd
                obtain ⟨s, token, hr, hs⟩ := releaseMilestone_ok h1
                exact .inr (.inr ⟨env, _, id, s, _, token, _, rfl, rfl, hseq, rfl, hr, hs⟩)
            | confiscate id bp m =>
                obtain ⟨u, h1, rfl⟩ := map_ok hd
                obtain ⟨s, token, payouts, hr, hs⟩ := confiscate_ok h1
                exact .inr (.inr ⟨env, _, id, s, _, token, _, rfl, rfl, hseq, rfl, hr, hs⟩)
            | claimTimeout id =>
                obtain ⟨u, h1, rfl⟩ := map_ok hd
                obtain ⟨s, token, hr, hs⟩ := claimTimeout_ok h1
                exact .inr (.inr ⟨env, _, id, s, _, token, _, rfl, rfl, hseq, rfl, hr, hs⟩)

end TrustGate.Contract
