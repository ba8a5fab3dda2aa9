import TrustGate.Contract.Effects

set_option autoImplicit false

/-! # Every escrow is settled at most once, to the right party

The receipts of a run tell which escrows were created and which calls settled them. The invariant
`Ledgered` ties them to storage: the stored escrows are exactly the created ones, under distinct
ids, each as it was created except for its status, and the status agrees with the settlements so
far (`Story`). `escrow_settled_once` reads the contract's guarantee off it. -/

namespace TrustGate.Contract

open Rollback

/-! ## What the receipts tell -/

/-- A committed `create_escrow`. -/
structure Creation where
  id : BytesN32
  args : CreateArgs
  ledger : Nat
  deriving DecidableEq

/-- The escrow as its creation wrote it. -/
def Creation.state (c : Creation) : EscrowState := c.args.opened c.ledger

/-- A committed call that settled an escrow. -/
structure Settlement where
  env : Env
  call : Call
  output : Output

def creationOf (r : Receipt Input Output Failure) : Option Creation :=
  match r.input, r.result with
  | .invoke _ (.createEscrow a), .ok ⟨.escrowId id, _, _, ledger⟩ => some ⟨id, a, ledger⟩
  | _, _ => none

def settlementOf (id : BytesN32) (r : Receipt Input Output Failure) : Option Settlement :=
  match r.input, r.result with
  | .invoke env call, .ok o => if call.settles = some id then some ⟨env, call, o⟩ else none
  | _, _ => none

def creations (h : History) : List Creation := h.filterMap creationOf

/-- The committed settlements of the escrow `id`, oldest first. -/
def settlements (h : History) (id : BytesN32) : List Settlement := h.filterMap (settlementOf id)

/-- The transfers made for the escrow `id`. -/
def paidOut (h : History) (id : BytesN32) : List Transfer :=
  (settlements h id).flatMap (·.output.transfers)

theorem creations_append (h h' : History) :
    creations (h ++ h') = creations h ++ creations h' := List.filterMap_append

theorem settlements_append (h h' : History) (id : BytesN32) :
    settlements (h ++ h') id = settlements h id ++ settlements h' id := List.filterMap_append

/-! ## One more receipt -/

theorem creationOf_error (i : Input) (e : Failure) : creationOf ⟨i, .error e⟩ = none := by
  cases i with
  | invoke env call => cases call <;> rfl
  | closeLedgers n => rfl

theorem settlementOf_error (i : Input) (e : Failure) (id : BytesN32) :
    settlementOf id ⟨i, .error e⟩ = none := by
  cases i <;> rfl

/-- The receipt of a committed settlement records no creation. -/
theorem creationOf_settles {env : Env} {call : Call} {o : Output} {id : BytesN32}
    (h : call.settles = some id) : creationOf ⟨.invoke env call, .ok o⟩ = none := by
  cases call with
  | createEscrow a => cases h
  | releaseMilestone id => rfl
  | confiscate id bp m => rfl
  | claimTimeout id => rfl

theorem creationOf_created {env : Env} {a : CreateArgs} {o : Output} {id : BytesN32}
    (h : o.value = .escrowId id) :
    creationOf ⟨.invoke env (.createEscrow a), .ok o⟩ = some ⟨id, a, o.ledger⟩ := by
  obtain ⟨v, t, e, l⟩ := o
  cases h; rfl

section

variable {h : History} {r : Receipt Input Output Failure} {env : Env} {o : Output} {id : BytesN32}

theorem creations_concat_none (hr : creationOf r = none) : creations (h ++ [r]) = creations h := by
  rw [creations_append]
  simp [creations, hr]

theorem settlements_concat_none (hr : settlementOf id r = none) :
    settlements (h ++ [r]) id = settlements h id := by
  rw [settlements_append]
  simp [settlements, hr]

theorem creations_concat_created {a : CreateArgs} (hv : o.value = .escrowId id) :
    creations (h ++ [⟨.invoke env (.createEscrow a), .ok o⟩]) =
      creations h ++ [⟨id, a, o.ledger⟩] := by
  rw [creations_append]
  simp [creations, creationOf_created hv]

theorem settlements_concat_settled {call : Call} (hcall : call.settles = some id) (j : BytesN32) :
    settlements (h ++ [⟨.invoke env call, .ok o⟩]) j =
      settlements h j ++ if j = id then [⟨env, call, o⟩] else [] := by
  rw [settlements_append]
  by_cases hji : j = id
  · simp [settlements, settlementOf, hcall, hji]
  · simp [settlements, settlementOf, hcall, hji, Ne.symm hji]

end

/-- The life of one escrow: no settlement while it is locked, and one in its final status. -/
inductive Story (net : Network) (s : EscrowState) : List Settlement → EscrowStatus → Prop
  | locked : Story net s [] .locked
  | settled (x : Settlement) (status : EscrowStatus) (token : Address)
      (payouts : List (Address × Int))
      (rule : SettlementRule net x.env s x.output.ledger x.call status payouts)
      (paid : x.output.transfers =
        payouts.map fun p => ⟨token, net.currentContractAddress, p.1, p.2⟩) :
      Story net s [x] status

/-! ## Settlement rules -/

theorem SettlementRule.not_locked {net : Network} {env : Env} {s : EscrowState} {ledger : Nat}
    {call : Call} {status : EscrowStatus} {payouts : List (Address × Int)}
    (h : SettlementRule net env s ledger call status payouts) : status ≠ .locked := by
  cases h <;> decide

/-- The call determines the final status. -/
theorem SettlementRule.status_unique {net : Network} {env env' : Env} {s s' : EscrowState}
    {ledger ledger' : Nat} {call : Call} {status status' : EscrowStatus}
    {payouts payouts' : List (Address × Int)}
    (h : SettlementRule net env s ledger call status payouts)
    (h' : SettlementRule net env' s' ledger' call status' payouts') : status = status' := by
  cases h <;> cases h' <;> rfl

/-- The requester's share of a positive collateral lies between zero and the collateral. -/
theorem share_bounds {c r : Int} {bp : Nat} (hc : 0 < c) (hbp : bp ≤ 10000)
    (hr : r = if bp = 10000 then c else (c * bp).tdiv 10000) : 0 ≤ r ∧ r ≤ c := by
  split at hr
  · omega
  · have hnn : 0 ≤ c * bp := Int.mul_nonneg hc.le (Int.natCast_nonneg bp)
    rw [Int.tdiv_eq_ediv_of_nonneg hnn] at hr
    have hle : c * bp ≤ c * 10000 := Int.mul_le_mul_of_nonneg_left (by omega) hc.le
    omega

theorem sum_filter_pos {x y : Address × Int} (hx : 0 ≤ x.2) (hy : 0 ≤ y.2) :
    (([x, y].filter fun p => decide (0 < p.2)).map (·.2)).sum = x.2 + y.2 := by
  by_cases h1 : 0 < x.2 <;> by_cases h2 : 0 < y.2 <;> simp [h1, h2] <;> omega

/-- What a settlement pays adds up to the collateral. -/
theorem SettlementRule.sum_payouts {net : Network} {env : Env} {s : EscrowState} {ledger : Nat}
    {call : Call} {status : EscrowStatus} {payouts : List (Address × Int)}
    (hpos : 0 < s.collateral) (h : SettlementRule net env s ledger call status payouts) :
    (payouts.map (·.2)).sum = s.collateral := by
  cases h with
  | released id auth => simp
  | confiscated id bp marketplace r m auth bound share sum =>
      obtain ⟨h0, h1⟩ := share_bounds hpos bound share
      rw [sum_filter_pos h0 (by simp only; omega)]
      exact sum
  | timedOut id late => simp

/-! ## The invariant -/

structure Ledgered (net : Network) (h : History) (w : World) : Prop where
  nodup : ((creations h).map (·.id)).Nodup
  stored : ∀ id, w.persistent id ≠ none → ∃ c ∈ creations h, c.id = id
  positive : ∀ c ∈ creations h, 0 < c.args.collateralAmount
  story : ∀ c ∈ creations h, ∃ status life,
    w.persistent c.id = some ⟨{ c.state with status := status }, life⟩ ∧
    Story net c.state (settlements h c.id) status

theorem ledgered_deploy (net : Network) (sequence : Nat) (balance : Address → Address → Nat) :
    Ledgered net [] (deploy net sequence balance) where
  nodup := List.nodup_nil
  stored := fun _ h => absurd rfl h
  positive := fun _ h => nomatch h
  story := fun _ h => nomatch h

/-- A receipt that neither creates nor settles, over unchanged persistent storage. -/
theorem Ledgered.frame {net : Network} {h : History} {w w' : World}
    {r : Receipt Input Output Failure} (hl : Ledgered net h w)
    (hc : creationOf r = none) (hs : ∀ id, settlementOf id r = none)
    (hp : w'.persistent = w.persistent) : Ledgered net (h ++ [r]) w' := by
  have hcr : creations (h ++ [r]) = creations h := creations_concat_none hc
  have hse : ∀ id, settlements (h ++ [r]) id = settlements h id := fun id =>
    settlements_concat_none (hs id)
  obtain ⟨h1, h2, h3, h4⟩ := hl
  refine ⟨?_, ?_, ?_, ?_⟩
  · rwa [hcr]
  · rwa [hcr, hp]
  · rwa [hcr]
  · simpa only [hcr, hse, hp] using h4

/-- A creation that is found under a stored id was made by an earlier receipt. -/
theorem Ledgered.not_created {net : Network} {h : History} {w : World} (hl : Ledgered net h w)
    {id : BytesN32} (hn : w.persistent id = none) : ∀ c ∈ creations h, c.id ≠ id := by
  rintro c hc rfl
  obtain ⟨status, life, hp, -⟩ := hl.story c hc
  rw [hn] at hp; cases hp

/-- No call can settle an escrow before it is created. -/
def SettledAfterCreation (h : History) : Prop :=
  ∀ id, (∀ c ∈ creations h, c.id ≠ id) → settlements h id = []

theorem Ledgered.created {net : Network} {env : Env} {a : CreateArgs} {id : BytesN32}
    {h : History} {w w' : World} {o : Output} (hl : Ledgered net h w)
    (ha : SettledAfterCreation h) (hv : o.value = .escrowId id) (hled : o.ledger = w.sequence)
    (hc : Created net env a { w with transfers := [], events := [] } id w') :
    Ledgered net (h ++ [⟨.invoke env (.createEscrow a), .ok o⟩]) w' := by
  have hcr : creations (h ++ [⟨.invoke env (.createEscrow a), .ok o⟩])
      = creations h ++ [⟨id, a, w.sequence⟩] := by
    rw [creations_concat_created hv, hled]
  have hse : ∀ j, settlements (h ++ [⟨.invoke env (.createEscrow a), .ok o⟩]) j
      = settlements h j := fun _ => settlements_concat_none rfl
  have hfresh := hl.not_created hc.unused
  refine ⟨?_, ?_, ?_, ?_⟩
  · rw [hcr, List.map_append, List.nodup_append]
    refine ⟨hl.nodup, List.nodup_singleton _, ?_⟩
    intro j hj k hk
    obtain ⟨c, hc1, rfl⟩ := List.mem_map.mp hj
    rw [List.map_singleton, List.mem_singleton] at hk
    subst hk
    exact hfresh c hc1
  · intro j hj
    rw [hcr]
    by_cases hji : j = id
    · exact ⟨⟨id, a, w.sequence⟩, by simp, hji.symm⟩
    · rw [hc.persistent, Function.update_of_ne hji] at hj
      obtain ⟨c, hc1, hc2⟩ := hl.stored j hj
      exact ⟨c, by simp [hc1], hc2⟩
  · intro c hcm
    rw [hcr, List.mem_append, List.mem_singleton] at hcm
    rcases hcm with hcm | rfl
    · exact hl.positive c hcm
    · exact hc.positive
  · intro c hcm
    rw [hcr, List.mem_append, List.mem_singleton] at hcm
    rw [hse]
    rcases hcm with hcm | rfl
    · obtain ⟨status, life, hp, hs⟩ := hl.story c hcm
      refine ⟨status, life, ?_, hs⟩
      rw [hc.persistent, Function.update_of_ne (hfresh c hcm)]
      exact hp
    -- nothing can have settled the new escrow before
    · refine ⟨.locked,
        extendTtl w.sequence (w.sequence + net.minPersistentTtl) 100 INSTANCE_TTL_EXTEND_TO,
        ?_, ?_⟩
      · rw [hc.persistent, Function.update_self]; rfl
      · rw [ha id hfresh]; exact .locked

theorem Ledgered.settled {net : Network} {env : Env} {call : Call} {id : BytesN32}
    {s : EscrowState} {status : EscrowStatus} {token : Address}
    {payouts : List (Address × Int)} {h : History} {w w' : World} {o : Output}
    (hl : Ledgered net h w) (hcall : call.settles = some id) (hled : o.ledger = w.sequence)
    (htr : o.transfers = w'.transfers)
    (hrule : SettlementRule net env s w.sequence call status payouts)
    (hset : Settled net { w with transfers := [], events := [] } id s status token payouts w') :
    Ledgered net (h ++ [⟨.invoke env call, .ok o⟩]) w' := by
  have hcr : creations (h ++ [⟨.invoke env call, .ok o⟩]) = creations h :=
    creations_concat_none (creationOf_settles hcall)
  have hse : ∀ j, settlements (h ++ [⟨.invoke env call, .ok o⟩]) j
      = settlements h j ++ if j = id then [⟨env, call, o⟩] else [] :=
    settlements_concat_settled hcall
  refine ⟨by rw [hcr]; exact hl.nodup, ?_, by rw [hcr]; exact hl.positive, ?_⟩
  · intro j hj
    rw [hcr]
    by_cases hji : j = id
    · subst hji
      obtain ⟨life, hp⟩ := hset.loaded
      exact hl.stored j (fun hn => by rw [show w.persistent j = _ from hp] at hn; cases hn)
    · rw [hset.persistent, Function.update_of_ne hji] at hj
      exact hl.stored j hj
  · intro c hcm
    rw [hcr] at hcm
    rw [hse]
    obtain ⟨st, life, hp, hst⟩ := hl.story c hcm
    by_cases hji : c.id = id
    · -- the settled escrow was locked, so its story so far is empty
      obtain ⟨life', hp'⟩ := hset.loaded
      change w.persistent id = _ at hp'
      rw [hji, hp'] at hp
      obtain ⟨rfl, rfl⟩ : s = { c.state with status := st } ∧ life' = life := by
        cases hp; exact ⟨rfl, rfl⟩
      obtain rfl : st = .locked := hset.locked
      have hs0 : ({ c.state with status := .locked } : EscrowState) = c.state := rfl
      rw [hs0] at hrule hset
      refine ⟨status, savedLife net { w with transfers := [], events := [] } id, ?_, ?_⟩
      · rw [hset.persistent, hji, Function.update_self]
      · rw [if_pos hji]
        generalize settlements h c.id = xs at hst ⊢
        cases hst with
        | locked =>
            refine .settled ⟨env, call, o⟩ status token payouts ?_ ?_
            · rw [hled]; exact hrule
            · rw [htr, hset.transfers]; rfl
        | settled x status' token' payouts' rule' paid' => exact absurd rfl rule'.not_locked
    · refine ⟨st, life, ?_, ?_⟩
      · rw [hset.persistent, Function.update_of_ne hji]; exact hp
      · rw [if_neg hji, List.append_nil]; exact hst

/-! ## Runs -/

/-- One committed input keeps the invariant. -/
theorem ledgered_step {net : Network} {h : History} {w w' : World} {i : Input} {o : Output}
    (hl : Ledgered net h w) (ha : SettledAfterCreation h)
    (hi : execInput net i w = .ok (o, w')) :
    Ledgered net (h ++ [⟨i, .ok o⟩]) w' ∧ SettledAfterCreation (h ++ [⟨i, .ok o⟩]) := by
  rcases execInput_cases hi with ⟨n, rfl, rfl, rfl⟩ |
    ⟨env, a, id, rfl, hv, hled, -, hc⟩ |
    ⟨env, call, id, s, status, token, payouts, rfl, hcall, hled, htr, hrule, hset⟩
  · refine ⟨hl.frame rfl (fun _ => rfl) rfl, ?_⟩
    intro id hid
    rw [settlements_concat_none rfl]
    rw [creations_concat_none rfl] at hid
    exact ha id hid
  · refine ⟨hl.created ha hv hled hc, ?_⟩
    intro j hj
    rw [settlements_concat_none rfl]
    rw [creations_concat_created hv] at hj
    exact ha j fun c hc => hj c (List.mem_append_left _ hc)
  · refine ⟨hl.settled hcall hled htr hrule hset, ?_⟩
    intro j hj
    rw [settlements_concat_settled hcall]
    rw [creations_concat_none (creationOf_settles hcall)] at hj
    -- the settled escrow is stored, hence created
    have hne : j ≠ id := by
      rintro rfl
      obtain ⟨life, hp⟩ := hset.loaded
      obtain ⟨c, hc1, hc2⟩ :=
        hl.stored j (fun hn => by rw [show w.persistent j = _ from hp] at hn; cases hn)
      exact hj c hc1 hc2
    rw [ha j hj, if_neg hne]
    rfl

/-- **The invariant holds after every run.** -/
theorem ledgered_run (net : Network) (sequence : Nat) (balance : Address → Address → Nat)
    (inputs : List Input) :
    Ledgered net (run net (deploy net sequence balance) inputs).1
      (run net (deploy net sequence balance) inputs).2 := by
  have key := runCalls_invariant (P := fun h w => Ledgered net h w ∧ SettledAfterCreation h)
    (fun h s i a s' hP hi => ledgered_step hP.1 hP.2 hi)
    (fun h s i e hP _ => by
      refine ⟨hP.1.frame (creationOf_error i e) (settlementOf_error i e) rfl, ?_⟩
      intro id hid
      rw [settlements_concat_none (settlementOf_error i e id)]
      rw [creations_concat_none (creationOf_error i e)] at hid
      exact hP.2 id hid)
    inputs [] (deploy net sequence balance)
    ⟨ledgered_deploy net sequence balance, fun _ _ => rfl⟩
  exact key.1

theorem run_append (net : Network) (w : World) (pre post : List Input) :
    run net w (pre ++ post)
      = ((run net w pre).1 ++ (run net (run net w pre).2 post).1,
          (run net (run net w pre).2 post).2) :=
  runCalls_append _ pre post w

/-- The sums transferred for an escrow agree with its story. -/
theorem Story.sum_paid {net : Network} {s : EscrowState} {xs : List Settlement}
    {status : EscrowStatus} (h : Story net s xs status) (hpos : 0 < s.collateral) :
    ((xs.flatMap (·.output.transfers)).map (·.amount)).sum
      = if status = .locked then 0 else s.collateral := by
  cases h with
  | locked => rfl
  | settled x status token payouts rule paid =>
      rw [if_neg rule.not_locked, ← rule.sum_payouts hpos]
      simp [paid, List.map_map, Function.comp_def]

/-- A story that goes on from another one keeps its status, unless that was locked. -/
theorem Story.status_of_prefix {net : Network} {s : EscrowState} {xs ys : List Settlement}
    {status status' : EscrowStatus} (h : Story net s xs status)
    (h' : Story net s (xs ++ ys) status') : status = .locked ∨ status = status' := by
  cases h with
  | locked => exact .inl rfl
  | settled x status token payouts rule paid =>
      right
      rw [List.singleton_append] at h'
      cases h' with
      | settled x' status' token' payouts' rule' paid' => exact rule.status_unique rule'

/-- **Exactly one settlement, to the right party.** After any run of the deployed contract:

* the ids of the created escrows are distinct, and no creation found its id in use;
* every created escrow is stored as it was created, but for its status;
* its settlements form a `Story`: none while it is locked, and otherwise a single one, allowed by
  the `SettlementRule` of its final status;
* what was transferred for it adds up to nothing while it is locked and to its collateral
  otherwise;
* its status after any shorter run is `locked` or the same. -/
theorem escrow_settled_once (net : Network) (sequence : Nat)
    (balance : Address → Address → Nat) (inputs : List Input) :
    let h := (run net (deploy net sequence balance) inputs).1
    let w := (run net (deploy net sequence balance) inputs).2
    ((creations h).map (·.id)).Nodup ∧
    (∀ pre i post, inputs = pre ++ i :: post →
      ∀ c, creationOf (attempt (execInput net) (run net (deploy net sequence balance) pre).2 i).1
          = some c →
        (run net (deploy net sequence balance) pre).2.persistent c.id = none) ∧
    ∀ c ∈ creations h, ∃ status life,
      w.persistent c.id = some ⟨{ c.state with status := status }, life⟩ ∧
      Story net c.state (settlements h c.id) status ∧
      ((paidOut h c.id).map (·.amount)).sum
        = (if status = .locked then 0 else c.state.collateral) ∧
      ∀ pre post, inputs = pre ++ post →
        c ∈ creations (run net (deploy net sequence balance) pre).1 →
        ∃ status' life',
          (run net (deploy net sequence balance) pre).2.persistent c.id
            = some ⟨{ c.state with status := status' }, life'⟩ ∧
          (status' = .locked ∨ status' = status) := by
  intro h w
  have hl : Ledgered net h w := ledgered_run net sequence balance inputs
  refine ⟨hl.nodup, ?_, ?_⟩
  · intro pre i post _ c hc
    generalize (run net (deploy net sequence balance) pre).2 = v at hc ⊢
    cases he : execInput net i v with
    | error e =>
        rw [attempt_error he, creationOf_error] at hc; cases hc
    | ok p =>
        obtain ⟨o, v'⟩ := p
        rw [attempt_ok he] at hc
        rcases execInput_cases he with ⟨n, rfl, rfl, rfl⟩ |
          ⟨env, a, id, rfl, hv, -, -, hcr⟩ |
          ⟨env, call, id, s, status, token, payouts, rfl, hcall, -, -, -, -⟩
        · cases hc
        · rw [creationOf_created hv] at hc
          cases hc
          exact hcr.unused
        · rw [creationOf_settles hcall] at hc; cases hc
  · intro c hc
    obtain ⟨status, life, hp, hs⟩ := hl.story c hc
    refine ⟨status, life, hp, hs, hs.sum_paid (hl.positive c hc), ?_⟩
    rintro pre post rfl hcpre
    obtain ⟨status', life', hp', hs'⟩ :=
      (ledgered_run net sequence balance pre).story c hcpre
    -- the settlements up to there are a prefix of those of the whole run
    have htail : Story net c.state
        (settlements (run net (deploy net sequence balance) pre).1 c.id ++
          settlements (run net (run net (deploy net sequence balance) pre).2 post).1 c.id)
        status := by
      rw [← settlements_append]
      simpa only [h, run_append] using hs
    exact ⟨status', life', hp', hs'.status_of_prefix htail⟩

end TrustGate.Contract
