import TrustGate.Contract.Settlement
import TrustGate.Lib.Custody

set_option autoImplicit false

/-! # When the contract is solvent

All escrows share the one `Token` slot of the instance storage. `create_escrow` rewrites it, and
every settlement pays in the token it finds there, so a settlement pays in the token of the
latest creation. `solvent_iff_latestToken` says what this means for the contract's balances. -/

namespace TrustGate.Contract

open Rollback Custody

/-! ## The token slot -/

/-- The token of the latest creation. -/
def latestToken (h : History) : Option Address := (creations h).getLast?.map (·.args.token)

/-- `r` settled the escrow `c` at a time when the latest creation had named its token. -/
def UnderOwnToken (h : History) (r : Receipt Input Output Failure) : Prop :=
  ∀ c ∈ creations h, settlementOf c.id r ≠ none → latestToken h = some c.args.token

/-- At every settlement, the latest creation before it named the token of the settled escrow. -/
def LatestTokenIsOwn (h : History) : Prop :=
  ∀ pre r post, h = pre ++ r :: post → UnderOwnToken pre r

/-- Every settlement of an escrow pays in the token its creation deposited. -/
def PaysOwnToken (h : History) : Prop :=
  ∀ c ∈ creations h, ∀ x ∈ settlements h c.id, ∀ t ∈ x.output.transfers, t.token = c.args.token

instance (h : History) : Decidable (PaysOwnToken h) :=
  inferInstanceAs (Decidable (∀ c ∈ creations h, ∀ x ∈ settlements h c.id, _))

theorem latestTokenIsOwn_nil : LatestTokenIsOwn [] := by
  intro pre r post h
  simp at h

theorem latestTokenIsOwn_concat (h : History) (r : Receipt Input Output Failure) :
    LatestTokenIsOwn (h ++ [r]) ↔ LatestTokenIsOwn h ∧ UnderOwnToken h r := by
  constructor
  · intro hall
    refine ⟨?_, hall h r [] rfl⟩
    rintro pre s post rfl
    exact hall pre s (post ++ [r]) (by simp)
  · rintro ⟨hall, hr⟩ pre s post heq
    rcases List.eq_nil_or_concat post with rfl | ⟨post, t, rfl⟩
    · obtain ⟨rfl, hs⟩ := List.append_inj' heq rfl
      cases hs
      exact hr
    · rw [List.concat_eq_append, ← List.cons_append, ← List.append_assoc] at heq
      obtain ⟨rfl, -⟩ := List.append_inj' heq rfl
      exact hall pre s post rfl

theorem latestTokenIsOwn_of_append {h h' : History} (hall : LatestTokenIsOwn (h ++ h')) :
    LatestTokenIsOwn h := by
  rintro pre r post rfl
  exact hall pre r (post ++ h') (by simp)

/-! ## What the contract owes -/

/-- The escrow `id` is stored with the status `LOCKED`. -/
def isLocked (w : World) (id : BytesN32) : Bool :=
  (w.persistent id).any fun entry => entry.state.status = .locked

def Creation.deposit (c : Creation) : Deposit BytesN32 Address :=
  ⟨c.id, c.args.token, c.args.collateralAmount⟩

def deposits (h : History) : List (Deposit BytesN32 Address) := (creations h).map Creation.deposit

/-- What the contract holds of each token. -/
def holding (net : Network) (w : World) (token : Address) : Int :=
  w.balance token net.currentContractAddress

/-- For every token, the contract's balance is at least the sum of the collateral of the locked
escrows that were created with it. -/
def Backed (net : Network) (h : History) (w : World) : Prop :=
  Covered (isLocked w) (deposits h) (holding net w)

theorem isLocked_update (w w' : World) (id : BytesN32) (entry : PersistentEntry)
    (hp : w'.persistent = Function.update w.persistent id (some entry)) (j : BytesN32) :
    isLocked w' j = if j = id then decide (entry.state.status = .locked) else isLocked w j := by
  unfold isLocked
  rw [hp]
  by_cases hj : j = id
  · subst hj; simp
  · rw [Function.update_of_ne hj, if_neg hj]

theorem deposits_keys (h : History) :
    (deposits h).map (·.key) = (creations h).map (·.id) := by
  simp [deposits, Creation.deposit, Function.comp_def]

/-! ## The invariant -/

structure Solvency (net : Network) (h : History) (w : World) : Prop where
  ledgered : Ledgered net h w
  created : SettledAfterCreation h
  slot : w.inst.token = latestToken h
  own : PaysOwnToken h ↔ LatestTokenIsOwn h
  backed : LatestTokenIsOwn h → Backed net h w

theorem solvency_deploy (net : Network) (sequence : Nat) (balance : Address → Address → Nat) :
    Solvency net [] (deploy net sequence balance) where
  ledgered := ledgered_deploy net sequence balance
  created := fun _ _ => rfl
  slot := rfl
  own := iff_of_true (fun _ hc => nomatch hc) latestTokenIsOwn_nil
  backed := fun _ => covered_nil _ fun _ => Int.natCast_nonneg _

/-- A receipt that neither creates nor settles. -/
theorem Solvency.frame {net : Network} {h : History} {w w' : World}
    {r : Receipt Input Output Failure} (hs : Solvency net h w)
    (hc : creationOf r = none) (hn : ∀ id, settlementOf id r = none)
    (hp : w'.persistent = w.persistent) (hi : w'.inst = w.inst) (hb : w'.balance = w.balance) :
    Solvency net (h ++ [r]) w' := by
  have hcr : creations (h ++ [r]) = creations h := creations_concat_none hc
  have hse : ∀ id, settlements (h ++ [r]) id = settlements h id := fun id =>
    settlements_concat_none (hn id)
  have hown : LatestTokenIsOwn (h ++ [r]) ↔ LatestTokenIsOwn h := by
    rw [latestTokenIsOwn_concat]
    exact and_iff_left fun c _ hne => absurd (hn c.id) hne
  refine ⟨hs.ledgered.frame hc hn hp, ?_, ?_, ?_, ?_⟩
  · intro id hid
    rw [hse]
    exact hs.created id (hcr ▸ hid)
  · rw [hi, hs.slot, latestToken, latestToken, hcr]
  · rw [hown, ← hs.own, PaysOwnToken, PaysOwnToken, hcr]
    simp only [hse]
  · intro h1
    have hbacked := hs.backed (hown.mp h1)
    unfold Backed deposits holding isLocked at hbacked ⊢
    rwa [hcr, hp, hb]

/-- The collateral of a creation is taken in before anything is owed for it. -/
theorem Solvency.opened {net : Network} {env : Env} {a : CreateArgs} {id : BytesN32}
    {h : History} {w w' : World} {o : Output} (hs : Solvency net h w)
    (hv : o.value = .escrowId id) (hled : o.ledger = w.sequence)
    (hc : Created net env a { w with transfers := [], events := [] } id w') :
    Solvency net (h ++ [⟨.invoke env (.createEscrow a), .ok o⟩]) w' := by
  have hcr : creations (h ++ [⟨.invoke env (.createEscrow a), .ok o⟩])
      = creations h ++ [⟨id, a, w.sequence⟩] := by
    rw [creations_concat_created hv, hled]
  have hse : ∀ j, settlements (h ++ [⟨.invoke env (.createEscrow a), .ok o⟩]) j
      = settlements h j := fun _ => settlements_concat_none rfl
  have hfresh := hs.ledgered.not_created hc.unused
  have hown : LatestTokenIsOwn (h ++ [⟨.invoke env (.createEscrow a), .ok o⟩])
      ↔ LatestTokenIsOwn h := by
    rw [latestTokenIsOwn_concat]
    exact and_iff_left fun c _ hne => absurd rfl hne
  refine ⟨hs.ledgered.created hs.created hv hled hc, ?_, ?_, ?_, ?_⟩
  · intro j hj
    rw [hcr] at hj
    rw [hse, hs.created j fun c hm => hj c (by simp [hm])]
  · rw [hc.token, latestToken, hcr]
    simp
  · rw [hown, ← hs.own, PaysOwnToken, PaysOwnToken, hcr]
    simp only [hse]
    constructor
    · intro hp c hm
      exact hp c (by simp [hm])
    · intro hp c hm
      rw [List.mem_append, List.mem_singleton] at hm
      rcases hm with hm | rfl
      · exact hp c hm
      · -- nothing was settled under the new id yet
        rw [hs.created id hfresh]
        intro x hx
        cases hx
  · intro h1
    have hbacked : Covered (isLocked w) (deposits h) (holding net w) := hs.backed (hown.mp h1)
    have hlock := isLocked_update w w' id _ hc.persistent
    have hdep : deposits (h ++ [⟨.invoke env (.createEscrow a), .ok o⟩])
        = deposits h ++ [Creation.deposit ⟨id, a, w.sequence⟩] := by
      rw [deposits, hcr, List.map_append]; rfl
    unfold Backed
    rw [hdep]
    -- the collateral has come in by the transfer that locked it
    refine hbacked.deposit ?_ ?_ ?_
    · intro d hd
      obtain ⟨c, hm, rfl⟩ := List.mem_map.mp hd
      have hkey : c.deposit.key ≠ id := hfresh c hm
      rw [hlock, if_neg hkey]
    · have hkey : (Creation.deposit ⟨id, a, w.sequence⟩).key = id := rfl
      rw [hlock, if_pos hkey]; rfl
    · intro t
      unfold holding
      rw [hc.balance]
      change (w.balance t net.currentContractAddress : Int)
        + (if a.token = t then a.collateralAmount else 0) ≤ _
      by_cases ht : t = a.token
      · subst ht
        rw [moveBalance_dst _ hc.authorised.2, if_pos rfl]
        have := hc.positive
        push_cast
        omega
      · rw [moveBalance_other ht, if_neg (Ne.symm ht), add_zero]

/-- A settlement pays in the token of the latest creation, and pays something. -/
theorem Solvency.settled {net : Network} {env : Env} {call : Call} {id : BytesN32}
    {s : EscrowState} {status : EscrowStatus} {token : Address}
    {payouts : List (Address × Int)} {h : History} {w w' : World} {o : Output}
    (hs : Solvency net h w) (hcall : call.settles = some id) (hled : o.ledger = w.sequence)
    (htr : o.transfers = w'.transfers)
    (hrule : SettlementRule net env s w.sequence call status payouts)
    (hset : Settled net { w with transfers := [], events := [] } id s status token payouts w') :
    Solvency net (h ++ [⟨.invoke env call, .ok o⟩]) w' := by
  have hcr : creations (h ++ [⟨.invoke env call, .ok o⟩]) = creations h :=
    creations_concat_none (creationOf_settles hcall)
  have hse : ∀ j, settlements (h ++ [⟨.invoke env call, .ok o⟩]) j
      = settlements h j ++ if j = id then [⟨env, call, o⟩] else [] :=
    settlements_concat_settled hcall
  have hslot : latestToken h = some token := hs.slot ▸ hset.slot
  obtain ⟨life, hload⟩ := hset.loaded
  change w.persistent id = _ at hload
  obtain ⟨c₀, hc₀, hid⟩ := hs.ledgered.stored id (by rw [hload]; exact Option.some_ne_none _)
  have huniq : ∀ c ∈ creations h, c.id = id → c = c₀ := by
    intro c hm hcid
    exact List.inj_on_of_nodup_map hs.ledgered.nodup hm hc₀ (hcid.trans hid.symm)
  obtain ⟨st, life', hp, -⟩ := hs.ledgered.story c₀ hc₀
  have hcoll : s.collateral = c₀.args.collateralAmount := by
    rw [hid, hload] at hp
    cases hp; rfl
  have hpos : 0 < s.collateral := hcoll ▸ hs.ledgered.positive c₀ hc₀
  have htransfers : o.transfers =
      payouts.map fun p => ⟨token, net.currentContractAddress, p.1, p.2⟩ := by
    rw [htr, hset.transfers]; rfl
  have hsum := hrule.sum_payouts hpos
  have hunder : UnderOwnToken h ⟨.invoke env call, .ok o⟩ ↔ token = c₀.args.token := by
    constructor
    · intro hu
      have := hu c₀ hc₀ (by simp [settlementOf, hcall, hid])
      rw [hslot] at this
      exact Option.some.inj this
    · rintro rfl c hm hne
      have hcid : c.id = id := by
        by_contra hji
        simp [settlementOf, hcall, Ne.symm hji] at hne
      rw [huniq c hm hcid]
      exact hslot
  refine ⟨hs.ledgered.settled hcall hled htr hrule hset, ?_, ?_, ?_, ?_⟩
  · intro j hj
    rw [hcr] at hj
    rw [hse, hs.created j hj, if_neg, List.append_nil]
    rintro rfl
    exact hj c₀ hc₀ hid
  · rw [hset.inst, latestToken, hcr]
    exact hs.slot
  · rw [latestTokenIsOwn_concat, ← hs.own, hunder, PaysOwnToken, hcr]
    simp only [hse, List.mem_append]
    constructor
    · intro hp
      refine ⟨fun c hm x hx => hp c hm x (.inl hx), ?_⟩
      -- the payouts add up to a positive sum, so there is one
      obtain ⟨p, ps, rfl⟩ : ∃ p ps, payouts = p :: ps := by
        cases payouts with
        | nil => simp at hsum; omega
        | cons p ps => exact ⟨p, ps, rfl⟩
      have hlast := hp c₀ hc₀ ⟨env, call, o⟩ (.inr (by rw [if_pos hid]; simp))
        ⟨token, net.currentContractAddress, p.1, p.2⟩ (by rw [htransfers]; simp)
      exact hlast
    · rintro ⟨hp, htok⟩ c hm x (hx | hx)
      · exact hp c hm x hx
      · by_cases hji : c.id = id
        · rw [if_pos hji, List.mem_singleton] at hx
          subst hx
          rw [huniq c hm hji, ← htok, htransfers]
          intro t ht
          obtain ⟨p, -, rfl⟩ := List.mem_map.mp ht
          rfl
        · rw [if_neg hji] at hx; cases hx
  · intro h1
    obtain ⟨hall, hu⟩ := (latestTokenIsOwn_concat h _).mp h1
    have htok := hunder.mp hu
    have hbacked : Covered (isLocked w) (deposits h) (holding net w) := hs.backed hall
    have hlock := isLocked_update w w' id _ hset.persistent
    have hlocked := hset.locked
    have hkey : c₀.deposit.key = id := hid
    unfold Backed
    rw [show deposits (h ++ [⟨.invoke env call, .ok o⟩]) = deposits h by
      rw [deposits, hcr, deposits]]
    refine hbacked.withdraw ?_ (List.mem_map_of_mem (f := Creation.deposit) hc₀) ?_ ?_ ?_ ?_
    · rw [deposits_keys]; exact hs.ledgered.nodup
    · rw [hkey, isLocked, hload]
      simp [hlocked]
    · rw [hkey, hlock, if_pos rfl]
      exact decide_eq_false hrule.not_locked
    · intro d _ hne
      rw [hlock, if_neg (hkey ▸ hne)]
    · intro t
      unfold holding
      rw [hset.balance]
      change (w.balance t net.currentContractAddress : Int)
        ≤ payOut net token payouts w.balance t net.currentContractAddress
          + if c₀.args.token = t then c₀.args.collateralAmount else 0
      by_cases ht : t = token
      · subst ht
        rw [if_pos htok.symm, ← hcoll, ← hsum]
        exact payOut_ge net t payouts w.balance _ hset.nonneg
      · rw [payOut_other _ _ ht, if_neg (htok ▸ Ne.symm ht), add_zero]

/-! ## Runs -/

/-- One committed input keeps the invariant. -/
theorem solvency_step {net : Network} {h : History} {w w' : World} {i : Input} {o : Output}
    (hs : Solvency net h w) (hi : execInput net i w = .ok (o, w')) :
    Solvency net (h ++ [⟨i, .ok o⟩]) w' := by
  rcases execInput_cases hi with ⟨n, rfl, rfl, rfl⟩ |
    ⟨env, a, id, rfl, hv, hled, -, hc⟩ |
    ⟨env, call, id, s, status, token, payouts, rfl, hcall, hled, htr, hrule, hset⟩
  · exact hs.frame rfl (fun _ => rfl) rfl rfl rfl
  · exact hs.opened hv hled hc
  · exact hs.settled hcall hled htr hrule hset

theorem solvency_run (net : Network) (sequence : Nat) (balance : Address → Address → Nat)
    (inputs : List Input) :
    Solvency net (run net (deploy net sequence balance) inputs).1
      (run net (deploy net sequence balance) inputs).2 := by
  refine runCalls_invariant (P := Solvency net) (fun _ _ _ _ _ => solvency_step) ?_ inputs [] _
    (solvency_deploy net sequence balance)
  intro h w i e hs _
  exact hs.frame (creationOf_error i e) (settlementOf_error i e) rfl rfl rfl

/-- **The contract is solvent exactly when no other token is slipped in.** In a run of the
deployed contract, every settlement pays in the escrow's own token and the contract is backed
after every step, if and only if at every settlement the latest creation before it named the
same token as the settled escrow's own creation. -/
theorem solvent_iff_latestToken (net : Network) (sequence : Nat)
    (balance : Address → Address → Nat) (inputs : List Input) :
    (PaysOwnToken (run net (deploy net sequence balance) inputs).1 ∧
      ∀ pre post, inputs = pre ++ post →
        Backed net (run net (deploy net sequence balance) pre).1
          (run net (deploy net sequence balance) pre).2) ↔
    LatestTokenIsOwn (run net (deploy net sequence balance) inputs).1 := by
  have hs := solvency_run net sequence balance inputs
  constructor
  · rintro ⟨hp, -⟩
    exact hs.own.mp hp
  · intro hall
    refine ⟨hs.own.mpr hall, ?_⟩
    rintro pre post rfl
    refine (solvency_run net sequence balance pre).backed ?_
    rw [run_append] at hall
    exact latestTokenIsOwn_of_append hall

/-! ## A run that mixes two tokens -/

/-- A network whose hash keeps 16-byte inputs apart by copying them. -/
def copyNetwork (minPersistentTtl : Nat) : Network where
  currentContractAddress := "CESCROW"
  minPersistentTtl := minPersistentTtl
  keccak256 := fun bytes => Vector.ofFn fun i : Fin 32 => bytes.getD i 0

theorem copyNetwork_injOn (m : Nat) :
    Set.InjOn (copyNetwork m).keccak256 {bytes | bytes.length = 16} := by
  intro xs hx ys hy h
  replace hx : xs.length = 16 := hx
  replace hy : ys.length = 16 := hy
  apply List.ext_getElem (hx.trans hy.symm)
  intro i h1 h2
  have hi : i < 32 := by omega
  have := congrArg (fun v => v[i]) h
  simpa [copyNetwork, h1, h2] using this

/-- Two executors lock 100 units each, the first in `USDC` and the second in `XLM`; then the first
escrow is released. -/
def mixedTokens : List Input :=
  let env : Env := ⟨["GALICE", "GBOB", "GSIGNER"], fun _ _ _ _ => true⟩
  let args (executor token : Address) : CreateArgs :=
    ⟨executor, Vector.replicate 32 7, "GSIGNER", "GREQUESTER", token, 100⟩
  [.invoke env (.createEscrow (args "GALICE" "USDC")),
    .invoke env (.createEscrow (args "GBOB" "XLM")),
    .invoke env (.releaseMilestone
      ((copyNetwork 4096).keccak256 (toBeBytes 1 ++ toBeBytes "GALICE".length)))]

/-- **The first escrow is released in the second one's token.** The hash keeps apart what the
contract hashes, and still the release pays Alice in `XLM`, after which nothing is left of the
collateral that is locked for Bob. -/
theorem mixedTokens_insolvent :
    Set.InjOn (copyNetwork 4096).keccak256 {bytes | bytes.length = 16} ∧
    let w := deploy (copyNetwork 4096) 1000 fun token holder =>
      if (token, holder) = ("USDC", "GALICE") ∨ (token, holder) = ("XLM", "GBOB") then 100 else 0
    ¬ PaysOwnToken (run (copyNetwork 4096) w mixedTokens).1 ∧
    ¬ Backed (copyNetwork 4096) (run (copyNetwork 4096) w mixedTokens).1
        (run (copyNetwork 4096) w mixedTokens).2 := by
  refine ⟨copyNetwork_injOn 4096, by decide +kernel, ?_⟩
  intro h
  exact absurd (h "XLM") (by decide +kernel)

end TrustGate.Contract
