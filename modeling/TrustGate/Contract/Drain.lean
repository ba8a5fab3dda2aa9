import TrustGate.Contract.Shares

set_option autoImplicit false

/-! # No locked escrow is stuck

Solvency says what the contract holds; here is what that is good for. A settlement that its rule
allows cannot fail for want of funds, whatever was settled before it: any number of escrows can be
settled, each by any of its due calls, in any order (`escrows_drain`). -/

namespace TrustGate.Contract

open Rollback Custody

/-- `call`, made under `env` at the ledger `ledger`, is a settlement of the escrow `c` that the
escrow's terms allow. -/
inductive Due (net : Network) (ledger : Nat) (c : Creation) (env : Env) : Call → Prop
  | release (auth : env.Authorises net c.args.releaseSigner) :
      Due net ledger c env (.releaseMilestone c.id)
  | confiscation (bp : Nat) (marketplace : Address) (auth : env.Authorises net c.args.requester)
      (bound : bp ≤ 10000) (fits : ¬ Overflows c.args.collateralAmount bp) :
      Due net ledger c env (.confiscate c.id bp marketplace)
  | timeout (late : c.ledger + LOCK_DURATION_LEDGERS ≤ ledger) :
      Due net ledger c env (.claimTimeout c.id)

/-- The escrow `c` is locked, its entry can be loaded, and the latest creation named its token. -/
structure Ready (h : History) (w : World) (c : Creation) : Prop where
  created : c ∈ creations h
  entry : ∃ life, w.persistent c.id = some ⟨c.state, life⟩ ∧ w.sequence < life
  own : latestToken h = some c.args.token
  max : c.args.collateralAmount ≤ I128_MAX

/-- The token of `c` carries out every payment of the contract. -/
def Paying (net : Network) (env : Env) (c : Creation) : Prop :=
  ∀ dst amount, env.tokenAccepts c.args.token net.currentContractAddress dst amount = true

theorem Due.settles {net : Network} {ledger : Nat} {c : Creation} {env : Env} {call : Call}
    (h : Due net ledger c env call) : call.settles = some c.id := by
  cases h <;> rfl

/-! ## Settlements that succeed -/

section

variable {net : Network} {env : Env} {id : BytesN32} {s : EscrowState} {life : Nat} {w : World}
  {token : Address}

theorem transfer_run {dst : Address} {amount : Int} (hnonneg : 0 ≤ amount)
    (hheld : amount ≤ w.balance token net.currentContractAddress)
    (haccepts : env.tokenAccepts token net.currentContractAddress dst amount = true) :
    ∃ w', transfer env token net.currentContractAddress dst amount w = .ok ((), w') :=
  ⟨_, if_pos ⟨hnonneg, hheld, haccepts⟩⟩

variable (hentry : w.persistent id = some ⟨s, life⟩) (hlive : w.sequence < life)
  (hlocked : s.status = .locked) (hslot : w.inst.token = some token) (hpos : 0 < s.collateral)
  (hheld : s.collateral ≤ w.balance token net.currentContractAddress)
  (haccepts : ∀ dst amount, env.tokenAccepts token net.currentContractAddress dst amount = true)
include hentry hlive hlocked hslot hpos hheld haccepts

theorem releaseMilestone_run (hauth : env.Authorises net s.releaseSigner) :
    ∃ w', releaseMilestone net env id w = .ok ((), w') := by
  unfold releaseMilestone
  rw [bind_run (loadState_run hentry hlive), bind_run (ensure_run hlocked),
    bind_run (requireAuth_run hauth), bind_run (instanceToken_run hslot),
    bind_run (saveState_live hentry hlive)]
  -- the entry is written before the payment, and the balances are as they were
  obtain ⟨v, hpaid⟩ := transfer_run (w := w.withEntry id ⟨{ s with status := .released },
    savedLife net w id⟩) hpos.le hheld (haccepts s.executor s.collateral)
  rw [bind_run hpaid]
  exact ⟨_, rfl⟩

theorem claimTimeout_run (hlate : LOCK_DURATION_LEDGERS ≤ w.sequence - s.createdAtLedger) :
    ∃ w', claimTimeout net env id w = .ok (s.collateral, w') := by
  have hget : (get : Invocation World) w = .ok (w, w) := rfl
  unfold claimTimeout
  rw [bind_run (loadState_run hentry hlive), bind_run (ensure_run hlocked), bind_run hget,
    bind_run (ensure_run hlate), bind_run (instanceToken_run hslot),
    bind_run (saveState_live hentry hlive)]
  obtain ⟨v, hpaid⟩ := transfer_run (w := w.withEntry id ⟨{ s with status := .timedOut },
    savedLife net w id⟩) hpos.le hheld (haccepts s.requester s.collateral)
  rw [bind_run hpaid]
  exact ⟨_, rfl⟩

theorem confiscate_run {bp : Nat} (marketplace : Address) (hauth : env.Authorises net s.requester)
    (hbp : bp ≤ 10000) (hmax : s.collateral ≤ I128_MAX) (hfits : ¬ Overflows s.collateral bp) :
    ∃ shares w', confiscate net env id bp marketplace w = .ok (shares, w') := by
  obtain ⟨-, hsplit⟩ :=
    confiscate_locked marketplace hentry hlive hlocked hauth hslot hbp hpos hmax
  have hpay : Payable net env w token s.requester marketplace (requesterPart s.collateral bp)
      (s.collateral - requesterPart s.collateral bp) :=
    ⟨by omega, fun _ => haccepts _ _, fun _ => haccepts _ _⟩
  exact ⟨_, _, (hsplit hfits).1 hpay⟩

end

theorem invoke_run {net : Network} {env : Env} {call : Call} {v : Value} {w w' : World}
    (hlive : w.sequence < w.inst.archivedAt)
    (hcall : dispatchCall net env call { w with transfers := [], events := [] } = .ok (v, w')) :
    execInput net (.invoke env call) w = .ok (⟨v, w'.transfers, w'.events, w.sequence⟩, w') := by
  simp only [execInput, if_pos hlive]
  rw [hcall]
  rfl

/-! ## One due settlement -/

section

variable {net : Network} {h : History} {w : World} {c : Creation} {env : Env} {call : Call}

/-- A backed contract holds the collateral of every escrow it could be asked to settle. -/
theorem Ready.held (hs : Solvency net h w) (hown : LatestTokenIsOwn h) (hready : Ready h w c) :
    c.args.collateralAmount ≤ w.balance c.args.token net.currentContractAddress := by
  obtain ⟨life, hentry, -⟩ := hready.entry
  have hopen : isLocked w c.deposit.key = true := by
    change isLocked w c.id = true
    rw [isLocked, hentry]
    rfl
  have hnonneg : ∀ d ∈ deposits h, 0 ≤ d.amount := by
    intro d hd
    obtain ⟨e, he, rfl⟩ := List.mem_map.mp hd
    exact (hs.ledgered.positive e he).le
  have hdeposit : c.deposit ∈ deposits h := List.mem_map_of_mem hready.created
  exact (le_owed hnonneg hdeposit hopen).trans (hs.backed hown c.args.token)

theorem due_commits (hs : Solvency net h w) (hown : LatestTokenIsOwn h)
    (hlive : w.sequence < w.inst.archivedAt) (hready : Ready h w c)
    (hdue : Due net w.sequence c env call) (hpaying : Paying net env c) :
    ∃ o w', execInput net (.invoke env call) w = .ok (o, w') := by
  obtain ⟨life, hentry, hloads⟩ := hready.entry
  have hslot : w.inst.token = some c.args.token := hs.slot.trans hready.own
  have hpos : 0 < c.state.collateral := hs.ledgered.positive c hready.created
  have hheld : c.state.collateral ≤ w.balance c.args.token net.currentContractAddress :=
    hready.held hs hown
  let w₀ : World := { w with transfers := [], events := [] }
  have hentry₀ : w₀.persistent c.id = some ⟨c.state, life⟩ := hentry
  cases hdue with
  | release auth =>
      obtain ⟨w', hok⟩ := releaseMilestone_run (w := w₀) hentry₀ hloads rfl hslot hpos hheld
        hpaying auth
      exact ⟨_, _, invoke_run hlive (map_run hok)⟩
  | confiscation bp marketplace auth bound fits =>
      obtain ⟨shares, w', hok⟩ := confiscate_run (w := w₀) hentry₀ hloads rfl hslot hpos hheld
        hpaying marketplace auth bound hready.max fits
      exact ⟨_, _, invoke_run hlive (map_run hok)⟩
  | timeout late =>
      have hlate : LOCK_DURATION_LEDGERS ≤ w₀.sequence - c.state.createdAtLedger :=
        Nat.le_sub_of_add_le' late
      obtain ⟨w', hok⟩ := claimTimeout_run (w := w₀) hentry₀ hloads rfl hslot hpos hheld
        hpaying hlate
      exact ⟨_, _, invoke_run hlive (map_run hok)⟩

/-- What a settlement leaves alone: the instance, the ledger, and the other escrows. -/
theorem settle_frame {o : Output} {w' : World} (hcall : call.settles = some c.id)
    (hi : execInput net (.invoke env call) w = .ok (o, w')) :
    w'.inst = w.inst ∧ w'.sequence = w.sequence ∧
      ∀ id, id ≠ c.id → w'.persistent id = w.persistent id := by
  rcases execInput_cases hi with ⟨n, hin, -, -⟩ | ⟨e, a, id, hin, -, -, -, -⟩ |
    ⟨e, k, id, s, status, token, payouts, hin, hk, -, -, -, hset⟩
  · cases hin
  · cases hin
    cases hcall
  · cases hin
    obtain rfl : c.id = id := Option.some.inj (hcall.symm.trans hk)
    refine ⟨hset.inst, hset.sequence, fun j hj => ?_⟩
    rw [hset.persistent, Function.update_of_ne hj]

/-- A due settlement keeps the solvency invariant, and pays in the escrow's own token. -/
theorem due_solvent {o : Output} {w' : World} (hs : Solvency net h w) (hown : LatestTokenIsOwn h)
    (hready : Ready h w c) (hcall : call.settles = some c.id)
    (hi : execInput net (.invoke env call) w = .ok (o, w')) :
    Solvency net (h ++ [⟨.invoke env call, .ok o⟩]) w' ∧
      LatestTokenIsOwn (h ++ [⟨.invoke env call, .ok o⟩]) := by
  refine ⟨solvency_step hs hi, (latestTokenIsOwn_concat h _).mpr ⟨hown, ?_⟩⟩
  -- the settled escrow is `c`, and `c` only
  intro c' hc' hsettled
  have hid : c'.id = c.id := by
    by_contra hne
    simp [settlementOf, hcall, Ne.symm hne] at hsettled
  rw [List.inj_on_of_nodup_map hs.ledgered.nodup hc' hready.created hid]
  exact hready.own

end

/-! ## Any number of them -/

/-- A settlement somebody asks for. -/
structure Exit where
  creation : Creation
  env : Env
  call : Call

def Exit.input (e : Exit) : Input := .invoke e.env e.call

/-- The exits that are left can be made from here. -/
structure Exiting (net : Network) (exits : List Exit) (inputs : List Input) (h : History)
    (w : World) : Prop where
  left : inputs = exits.map Exit.input
  solvent : Solvency net h w
  own : LatestTokenIsOwn h
  live : w.sequence < w.inst.archivedAt
  ready : ∀ e ∈ exits, Ready h w e.creation
  due : ∀ e ∈ exits, Due net w.sequence e.creation e.env e.call
  paying : ∀ e ∈ exits, Paying net e.env e.creation
  distinct : (exits.map (·.creation.id)).Nodup

theorem exiting_step {net : Network} {e : Exit} {exits : List Exit} {inputs : List Input}
    {h : History} {w : World}
    (hx : Exiting net (e :: exits) (e.input :: inputs) h w) :
    ∃ o w', execInput net e.input w = .ok (o, w') ∧
      Exiting net exits inputs (h ++ [⟨e.input, .ok o⟩]) w' := by
  have hready : Ready h w e.creation := hx.ready e List.mem_cons_self
  have hdue : Due net w.sequence e.creation e.env e.call := hx.due e List.mem_cons_self
  obtain ⟨o, w', hi⟩ :=
    due_commits hx.solvent hx.own hx.live hready hdue (hx.paying e List.mem_cons_self)
  obtain ⟨hinst, hseq, hothers⟩ := settle_frame hdue.settles hi
  obtain ⟨hsolvent, hown⟩ := due_solvent hx.solvent hx.own hready hdue.settles hi
  obtain ⟨hnew, hdistinct⟩ := List.nodup_cons.mp hx.distinct
  have hcr : creations (h ++ [⟨e.input, .ok o⟩]) = creations h :=
    creations_concat_none (creationOf_settles hdue.settles)
  refine ⟨o, w', hi, {
    left := (List.cons.inj hx.left).2
    solvent := hsolvent
    own := hown
    live := by rw [hseq, hinst]; exact hx.live
    ready := fun f hf => ?_
    due := fun f hf => hseq ▸ hx.due f (List.mem_cons_of_mem _ hf)
    paying := fun f hf => hx.paying f (List.mem_cons_of_mem _ hf)
    distinct := hdistinct }⟩
  obtain ⟨hcreated, ⟨life, hentry, hloads⟩, hlatest, hmax⟩ := hx.ready f (List.mem_cons_of_mem _ hf)
  have hne : f.creation.id ≠ e.creation.id := by
    intro heq
    exact hnew (List.mem_map.mpr ⟨f, hf, heq⟩)
  refine ⟨hcr ▸ hcreated, ⟨life, ?_, hseq ▸ hloads⟩, ?_, hmax⟩
  · rw [hothers _ hne]
    exact hentry
  · rw [latestToken, hcr]
    exact hlatest

/-- The only settlement of an escrow that was locked is the one the drain made. -/
theorem settlement_of_exit {net : Network} {h h' : History} {w : World} {e : Exit} {o : Output}
    (hs : Solvency net (h ++ h') w) (hown : LatestTokenIsOwn (h ++ h'))
    (hcreated : e.creation ∈ creations (h ++ h')) (hcall : e.call.settles = some e.creation.id)
    (hr : ⟨e.input, .ok o⟩ ∈ h') :
    settlements (h ++ h') e.creation.id = [⟨e.env, e.call, o⟩] ∧
      (o.transfers.map (·.amount)).sum = e.creation.args.collateralAmount ∧
      ∀ t ∈ o.transfers, t.token = e.creation.args.token := by
  obtain ⟨status, life, -, hstory⟩ := hs.ledgered.story _ hcreated
  have hmem : (⟨e.env, e.call, o⟩ : Settlement) ∈ settlements (h ++ h') e.creation.id := by
    refine List.mem_filterMap.mpr ⟨⟨e.input, .ok o⟩, List.mem_append_right h hr, ?_⟩
    simp [settlementOf, Exit.input, hcall]
  have htoken := hs.own.mpr hown _ hcreated _ hmem
  have hsum := hstory.sum_paid (hs.ledgered.positive _ hcreated)
  generalize settlements (h ++ h') e.creation.id = xs at hmem hstory hsum
  cases hstory with
  | locked => cases hmem
  | settled x _ token payouts rule paid =>
      rw [List.mem_singleton] at hmem
      subst hmem
      rw [if_neg rule.not_locked] at hsum
      rw [List.flatMap_singleton] at hsum
      exact ⟨rfl, hsum, htoken⟩

/-- **No locked escrow is stuck.** In every state that a run of the deployed contract reaches
without slipping in another token, as long as its instance entry is live, take any locked escrows
that can be loaded and were created with the token of the latest creation, and for each of them a
call that its terms allow at this ledger and whose payments the token carries out. Made in any order,
every one of these calls commits; it is then the one settlement of its escrow, pays out all of its
collateral in its own token, and leaves the contract backed. -/
theorem escrows_drain (net : Network) (sequence : Nat) (balance : Address → Address → Nat)
    (inputs : List Input) (exits : List Exit)
    (hown : LatestTokenIsOwn (run net (deploy net sequence balance) inputs).1)
    (hlive : (run net (deploy net sequence balance) inputs).2.sequence <
      (run net (deploy net sequence balance) inputs).2.inst.archivedAt)
    (hready : ∀ e ∈ exits, Ready (run net (deploy net sequence balance) inputs).1
      (run net (deploy net sequence balance) inputs).2 e.creation)
    (hdue : ∀ e ∈ exits, Due net (run net (deploy net sequence balance) inputs).2.sequence
      e.creation e.env e.call)
    (hpaying : ∀ e ∈ exits, Paying net e.env e.creation)
    (hdistinct : (exits.map (·.creation.id)).Nodup) :
    let reached := run net (deploy net sequence balance) inputs
    let drained := run net reached.2 (exits.map Exit.input)
    (∀ r ∈ drained.1, ∃ o, r.result = .ok o) ∧
    (∀ e ∈ exits, ∃ o, settlements (reached.1 ++ drained.1) e.creation.id
        = [⟨e.env, e.call, o⟩] ∧
      (o.transfers.map (·.amount)).sum = e.creation.args.collateralAmount ∧
      ∀ t ∈ o.transfers, t.token = e.creation.args.token) ∧
    Backed net (reached.1 ++ drained.1) drained.2 := by
  intro reached drained
  have hstart : Exiting net exits (exits.map Exit.input) reached.1 reached.2 :=
    ⟨rfl, solvency_run net sequence balance inputs, hown, hlive, hready, hdue, hpaying, hdistinct⟩
  have hstep : ∀ i is h w, (∃ rest, Exiting net rest (i :: is) h w) →
      ∃ o w', execInput net i w = .ok (o, w') ∧ ∃ rest, Exiting net rest is (h ++ [⟨i, .ok o⟩]) w' := by
    rintro i is h w ⟨rest, hx⟩
    cases rest with
    | nil => cases hx.left
    | cons e rest =>
        obtain ⟨rfl, -⟩ := List.cons.inj hx.left
        obtain ⟨o, w', hi, hnext⟩ := exiting_step hx
        exact ⟨o, w', hi, rest, hnext⟩
  obtain ⟨⟨left, hend⟩, hall⟩ :=
    @runCalls_progress _ _ _ _ (execInput net) (fun is h w => ∃ rest, Exiting net rest is h w)
      hstep (exits.map Exit.input) reached.1 reached.2 ⟨exits, hstart⟩
  change Exiting net left [] (reached.1 ++ drained.1) drained.2 at hend
  refine ⟨hall, fun e he => ?_, hend.solvent.backed hend.own⟩
  -- the receipt of the exit is among those of the drain
  have hinput : e.input ∈ drained.1.map (·.input) := by
    rw [show drained.1.map (·.input) = exits.map Exit.input from runCalls_inputs _ _ _]
    exact List.mem_map_of_mem he
  obtain ⟨⟨i, result⟩, hr, rfl⟩ := List.mem_map.mp hinput
  obtain ⟨o, rfl⟩ := hall _ hr
  have hcreated : e.creation ∈ creations (reached.1 ++ drained.1) := by
    rw [creations_append]
    exact List.mem_append_left _ (hready e he).created
  exact ⟨o, settlement_of_exit hend.solvent hend.own hcreated (hdue e he).settles hr⟩

/-! ## Two escrows, settled newest first -/

/-- Two executors lock 100 units of `USDC` each. -/
def lockedTwice : List Input :=
  let env : Env := ⟨["GALICE", "GBOB"], fun _ _ _ _ => true⟩
  [.invoke env (.createEscrow
      ⟨"GALICE", Vector.replicate 32 7, "GSIGNER", "GREQUESTER", "USDC", 100⟩),
    .invoke env (.createEscrow
      ⟨"GBOB", Vector.replicate 32 8, "GSIGNER", "GREQUESTER", "USDC", 100⟩)]

/-- The second escrow is confiscated at 70 per cent, and then the first one is released. -/
def lockedTwiceExits : List Exit :=
  let id (nonce : Nat) (executor : String) : BytesN32 :=
    (copyNetwork 4096).keccak256 (toBeBytes nonce ++ toBeBytes executor.length)
  [⟨⟨id 2 "GBOB", ⟨"GBOB", Vector.replicate 32 8, "GSIGNER", "GREQUESTER", "USDC", 100⟩, 1000⟩,
      ⟨["GREQUESTER"], fun _ _ _ _ => true⟩, .confiscate (id 2 "GBOB") 7000 "GMARKET"⟩,
    ⟨⟨id 1 "GALICE", ⟨"GALICE", Vector.replicate 32 7, "GSIGNER", "GREQUESTER", "USDC", 100⟩, 1000⟩,
      ⟨["GSIGNER"], fun _ _ _ _ => true⟩, .releaseMilestone (id 1 "GALICE")⟩]

theorem lockedTwice_drained :
    let balance : Address → Address → Nat := fun _ holder =>
      if holder = "GALICE" ∨ holder = "GBOB" then 100 else 0
    let reached := run (copyNetwork 4096) (deploy (copyNetwork 4096) 1000 balance) lockedTwice
    let drained := run (copyNetwork 4096) reached.2 (lockedTwiceExits.map Exit.input)
    lockedTwiceExits.length = 2 ∧ ∀ r ∈ drained.1, ∃ o, r.result = .ok o := by
  intro balance reached drained
  have hown : LatestTokenIsOwn reached.1 :=
    (solvency_run _ 1000 balance lockedTwice).own.mp (by decide +kernel)
  refine ⟨rfl, (escrows_drain (copyNetwork 4096) 1000 balance lockedTwice lockedTwiceExits hown
    (by decide +kernel) ?_ ?_ ?_ (by decide +kernel)).1⟩
  · intro e he
    simp only [lockedTwiceExits, List.mem_cons, List.not_mem_nil, or_false] at he
    rcases he with rfl | rfl
    · exact ⟨by decide +kernel, ⟨5096, by decide +kernel, by decide +kernel⟩, by decide +kernel,
        by decide +kernel⟩
    · exact ⟨by decide +kernel, ⟨5096, by decide +kernel, by decide +kernel⟩, by decide +kernel,
        by decide +kernel⟩
  · intro e he
    simp only [lockedTwiceExits, List.mem_cons, List.not_mem_nil, or_false] at he
    rcases he with rfl | rfl
    · exact .confiscation 7000 "GMARKET" (by decide) (by decide) (by decide)
    · exact .release (by decide)
  · intro e he
    simp only [lockedTwiceExits, List.mem_cons, List.not_mem_nil, or_false] at he
    rcases he with rfl | rfl <;> exact fun _ _ => rfl

end TrustGate.Contract
