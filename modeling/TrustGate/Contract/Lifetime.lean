import TrustGate.Contract.Solvency

set_option autoImplicit false

/-! # When storage outlives the lock

`save_state` follows its write with `extend_ttl(.., 100, 518400)`, which prolongs a life only when
at most 100 ledgers of it remain. A new entry has the network's minimum life, so a minimum above
100 is never prolonged. `outlivesLock_iff` gives the minima under which a locked escrow can still
be loaded when its lock ends. -/

namespace TrustGate.Contract

open Rollback

/-- In every reachable state, an escrow that is `LOCKED` can be loaded up to and including the
first ledger at which `claim_timeout` accepts it. -/
def OutlivesLock (net : Network) : Prop :=
  ∀ (sequence : Nat) (balance : Address → Address → Nat) (inputs : List Input),
    let h := (run net (deploy net sequence balance) inputs).1
    let w := (run net (deploy net sequence balance) inputs).2
    ∀ c ∈ creations h, ∀ entry, w.persistent c.id = some entry →
      entry.state.status = .locked → w.sequence ≤ c.ledger + LOCK_DURATION_LEDGERS →
      w.sequence < entry.archivedAt

/-! ## The life of a locked escrow -/

/-- The life `create_escrow` gives its entry. -/
def initialLife (net : Network) (ledger : Nat) : Nat :=
  extendTtl ledger (ledger + net.minPersistentTtl) 100 INSTANCE_TTL_EXTEND_TO

/-- As long as an escrow is locked, its entry has the life it got at its creation. -/
structure Aged (net : Network) (h : History) (w : World) : Prop where
  ledgered : Ledgered net h w
  created : SettledAfterCreation h
  life : ∀ c ∈ creations h, ∀ entry, w.persistent c.id = some entry →
    entry.state.status = .locked → entry.archivedAt = initialLife net c.ledger

theorem aged_deploy (net : Network) (sequence : Nat) (balance : Address → Address → Nat) :
    Aged net [] (deploy net sequence balance) where
  ledgered := ledgered_deploy net sequence balance
  created := fun _ _ => rfl
  life := fun _ hc => nomatch hc

theorem aged_step {net : Network} {h : History} {w w' : World} {i : Input} {o : Output}
    (ha : Aged net h w) (hi : execInput net i w = .ok (o, w')) :
    Aged net (h ++ [⟨i, .ok o⟩]) w' := by
  obtain ⟨hl, hc⟩ := ledgered_step ha.ledgered ha.created hi
  refine ⟨hl, hc, ?_⟩
  rcases execInput_cases hi with ⟨n, rfl, rfl, rfl⟩ |
    ⟨env, a, id, rfl, hv, hled, -, hnew⟩ |
    ⟨env, call, id, s, status, token, payouts, rfl, hcall, -, -, hrule, hset⟩
  · rw [creations_concat_none rfl]
    exact ha.life
  · intro c hm entry hp hlocked
    rw [creations_concat_created hv, List.mem_append, List.mem_singleton] at hm
    rw [hnew.persistent] at hp
    rcases hm with hm | rfl
    · rw [Function.update_of_ne (ha.ledgered.not_created hnew.unused c hm)] at hp
      exact ha.life c hm entry hp hlocked
    · rw [Function.update_self] at hp
      cases hp
      rw [hled]; rfl
  · intro c hm entry hp hlocked
    rw [creations_concat_none (creationOf_settles hcall)] at hm
    rw [hset.persistent] at hp
    by_cases hid : c.id = id
    · -- the settled escrow is no longer locked
      rw [hid, Function.update_self] at hp
      cases hp
      exact absurd hlocked hrule.not_locked
    · rw [Function.update_of_ne hid] at hp
      exact ha.life c hm entry hp hlocked

theorem aged_run (net : Network) (sequence : Nat) (balance : Address → Address → Nat)
    (inputs : List Input) :
    Aged net (run net (deploy net sequence balance) inputs).1
      (run net (deploy net sequence balance) inputs).2 := by
  refine runCalls_invariant (P := Aged net) (fun _ _ _ _ _ => aged_step) ?_ inputs [] _
    (aged_deploy net sequence balance)
  intro h w i e ha _
  have hcr : creations (h ++ [⟨i, .error e⟩]) = creations h :=
    creations_concat_none (creationOf_error i e)
  refine ⟨ha.ledgered.frame (creationOf_error i e) (settlementOf_error i e) rfl, ?_, hcr ▸ ha.life⟩
  intro id hid
  rw [settlements_concat_none (settlementOf_error i e id)]
  exact ha.created id (hcr ▸ hid)

/-! ## An escrow nobody touches -/

/-- One executor locks one unit, and then `n` ledgers close. -/
def lockAndWait (a : CreateArgs) (n : Nat) : List Input :=
  [.invoke ⟨[a.executor], fun _ _ _ _ => true⟩ (.createEscrow a), .closeLedgers n]

/-- A `create_escrow` right after the deployment commits. -/
theorem createEscrow_first {net : Network} {a : CreateArgs} (sequence : Nat)
    {balance : Address → Address → Nat} (hnet : 0 < net.minPersistentTtl)
    (hself : a.executor ≠ net.currentContractAddress) (hpos : 0 < a.collateralAmount)
    (hfunds : a.collateralAmount ≤ balance a.token a.executor) :
    ∃ id w', createEscrow net ⟨[a.executor], fun _ _ _ _ => true⟩ a
      (deploy net sequence balance) = .ok (id, w') := by
  have hauth : (⟨[a.executor], fun _ _ _ _ => true⟩ : Env).Authorises net a.executor :=
    ⟨by simp, hself⟩
  apply Exists.intro
  apply Exists.intro
  unfold createEscrow
  refine Eq.trans (bind_run (ensure_run hauth)) ?_
  refine Eq.trans (bind_run (ensure_run hpos)) ?_
  -- the first nonce, and the id made from it, which nothing is stored under
  refine Eq.trans (bind_run rfl) ?_
  refine Eq.trans (bind_run rfl) ?_
  refine Eq.trans (bind_run (ensure_run rfl)) ?_
  -- the two slots and the life of the instance
  refine Eq.trans (bind_run rfl) ?_
  refine Eq.trans (bind_run rfl) ?_
  refine Eq.trans (bind_run rfl) ?_
  refine Eq.trans (bind_run rfl) ?_
  refine Eq.trans (bind_run (saveState_run rfl hnet)) ?_
  refine Eq.trans (bind_run (if_pos ⟨hpos.le, hfunds, rfl⟩)) ?_
  exact bind_run rfl

/-- The escrow of `lockAndWait` is still locked when the ledgers have closed. -/
theorem lockAndWait_locked {net : Network} {a : CreateArgs} (sequence : Nat)
    (balance : Address → Address → Nat) (n : Nat) (hnet : 0 < net.minPersistentTtl)
    (hself : a.executor ≠ net.currentContractAddress) (hpos : 0 < a.collateralAmount)
    (hfunds : a.collateralAmount ≤ balance a.token a.executor) :
    let h := (run net (deploy net sequence balance) (lockAndWait a n)).1
    let w := (run net (deploy net sequence balance) (lockAndWait a n)).2
    w.sequence = sequence + n ∧ ∃ c ∈ creations h, c.ledger = sequence ∧
      ∃ entry, w.persistent c.id = some entry ∧ entry.state.status = .locked := by
  obtain ⟨id, w₁, hcreate⟩ := createEscrow_first sequence hnet hself hpos hfunds
  have hseq : w₁.sequence = sequence := (createEscrow_ok hcreate).sequence
  have hfirst : execInput net (.invoke ⟨[a.executor], fun _ _ _ _ => true⟩ (.createEscrow a))
      (deploy net sequence balance)
        = .ok (⟨.escrowId id, w₁.transfers, w₁.events, sequence⟩, w₁) := by
    have hlive : (deploy net sequence balance).sequence
        < (deploy net sequence balance).inst.archivedAt := by simp [deploy, hnet]
    simp only [execInput, if_pos hlive, dispatchCall]
    change (Value.escrowId <$> createEscrow net _ a) (deploy net sequence balance) >>= _ = _
    rw [map_run hcreate]
    rfl
  have hrun : run net (deploy net sequence balance) (lockAndWait a n)
      = ([⟨.invoke ⟨[a.executor], fun _ _ _ _ => true⟩ (.createEscrow a),
            .ok ⟨.escrowId id, w₁.transfers, w₁.events, sequence⟩⟩,
          ⟨.closeLedgers n, .ok ⟨.closed, [], [], w₁.sequence⟩⟩],
        { w₁ with sequence := w₁.sequence + n }) := by
    rw [run, lockAndWait, runCalls_cons, attempt_ok hfirst]
    rfl
  have hl := ledgered_run net sequence balance (lockAndWait a n)
  rw [hrun] at hl ⊢
  refine ⟨by rw [← hseq], ⟨id, a, sequence⟩, List.mem_singleton_self _, rfl, ?_⟩
  obtain ⟨status, life, hp, hstory⟩ := hl.story ⟨id, a, sequence⟩ (List.mem_singleton_self _)
  -- neither receipt is a settlement
  change Story net _ [] status at hstory
  cases hstory
  exact ⟨_, hp, rfl⟩

/-! ## Which minima outlive the lock -/

theorem initialLife_covers {net : Network} {ledger sequence : Nat}
    (h : net.minPersistentTtl ≤ 100 ∨ LOCK_DURATION_LEDGERS < net.minPersistentTtl)
    (hs : sequence ≤ ledger + LOCK_DURATION_LEDGERS) : sequence < initialLife net ledger := by
  unfold initialLife extendTtl INSTANCE_TTL_EXTEND_TO
  unfold LOCK_DURATION_LEDGERS at h hs
  split <;> omega

/-- **Storage outlives the lock exactly when the extension applies or is not needed.** A locked
escrow can be loaded until its lock ends, in every run, if and only if the network's minimum life
is at most the threshold of `extend_ttl` or longer than the lock. -/
theorem outlivesLock_iff (net : Network) :
    OutlivesLock net ↔
      net.minPersistentTtl ≤ 100 ∨ LOCK_DURATION_LEDGERS < net.minPersistentTtl := by
  constructor
  · intro hall
    by_contra hbad
    push Not at hbad
    obtain ⟨hlow, hhigh⟩ := hbad
    let a : CreateArgs := ⟨net.currentContractAddress ++ "'", Vector.replicate 32 0, "", "", "", 1⟩
    have hself : a.executor ≠ net.currentContractAddress := by
      intro heq
      have := congrArg String.length heq
      simp [a] at this
    obtain ⟨hseq, c, hc, hledger, entry, hp, hlocked⟩ :=
      lockAndWait_locked (a := a) 0 (fun _ _ => 1) net.minPersistentTtl (by omega) hself
        Int.one_pos le_rfl
    have hlive := hall 0 (fun _ _ => 1) (lockAndWait a net.minPersistentTtl) c hc entry hp hlocked
      (by omega)
    -- the entry still has its first life, which ends now
    have hlife := (aged_run net 0 (fun _ _ => 1) (lockAndWait a net.minPersistentTtl)).life
      c hc entry hp hlocked
    unfold initialLife extendTtl at hlife
    rw [if_neg (by omega)] at hlife
    omega
  · intro h sequence balance inputs _ _ c hc entry hp hlocked hs
    rw [(aged_run net sequence balance inputs).life c hc entry hp hlocked]
    exact initialLife_covers h hs

/-- On a network with a minimum life of 4096 ledgers, an escrow nobody touches is archived about
six hours after its creation. -/
theorem copyNetwork_not_outlivesLock : ¬ OutlivesLock (copyNetwork 4096) := by
  intro hall
  let a : CreateArgs := ⟨"GALICE", Vector.replicate 32 7, "GSIGNER", "GREQUESTER", "USDC", 100⟩
  let inputs := lockAndWait a 4096
  let c : Creation :=
    ⟨(copyNetwork 4096).keccak256 (toBeBytes 1 ++ toBeBytes "GALICE".length), a, 1000⟩
  have hbad := hall 1000 (fun _ _ => 100) inputs c (by decide +kernel)
    ⟨c.state, 5096⟩ (by decide +kernel) (by decide +kernel) (by decide +kernel)
  exact absurd hbad (by decide +kernel)

end TrustGate.Contract
