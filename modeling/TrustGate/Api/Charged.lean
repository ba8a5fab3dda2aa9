import TrustGate.Api.Charge

set_option autoImplicit false

/-! # How often one call charges

`withRetry` stands around all of `chargeListingFee`, around the submission too, and decides by the
message of an error whether to begin anew. Here the network decides for each attempt what is answered,
and of a submission that is answered with an error whether the ledger applies it. -/

namespace TrustGate.Api

open Market Resumption

/-! ## The network -/

/-- What the network does to an attempt. -/
structure Attempt where
  client : Option JsError := none
  build : Option JsError := none
  send : Option JsError := none
  /-- The ledger applies the transfer, though the submission is answered with an error. -/
  appliedAnyway : Bool := false
  hash : String := ""

abbrev Network := Nat → Attempt

structure Transfer where
  sender : String
  receiver : String
  amount : Nat

/-- The number of the attempt, the transfer it has built, and the transfers that took effect. -/
structure Ledger where
  attempt : Nat
  built : Option Transfer
  transfers : List Transfer

def Ledger.fresh : Ledger := ⟨0, none, []⟩

def Ledger.apply (l : Ledger) : Ledger := { l with transfers := l.transfers ++ l.built.toList }

def answerWith (error : Option JsError) : Except JsError Unit :=
  match error with
  | some e => .error e
  | none => .ok ()

def drawnZero : RandomNumber := ⟨0, by norm_num⟩

/-- After a pause comes the next attempt. -/
def Network.handler (net : Network) : Handler ChargeOp ChargeReply Ledger
  | .contractClient, l => (answerWith (net l.attempt).client, l)
  | .transfer sender receiver amount, l =>
      (answerWith (net l.attempt).build, { l with built := some ⟨sender, receiver, amount⟩ })
  | .signAndSend, l =>
      match (net l.attempt).send with
      | some e => (.error e, if (net l.attempt).appliedAnyway then l.apply else l)
      | none => (.ok (net l.attempt).hash, l.apply)
  | .random, l => (drawnZero, l)
  | .setTimeout _, l => ((), { l with attempt := l.attempt + 1 })

/-- The attempt's transfer takes effect. -/
def Attempt.charges (a : Attempt) : Bool :=
  a.client.isNone && a.build.isNone && (a.send.isNone || a.appliedAnyway)

section

variable (service : MppChargeService) (requester : String) (reservePriceStroops : Nat)

/-- The transfer of the listing fee. -/
def feeTransfer : Transfer :=
  ⟨requester, service.marketplaceWallet, calculateListingFeeStroops reservePriceStroops⟩

/-- What the attempt fails with. -/
def Attempt.error (a : Attempt) : Option JsError :=
  let feeAmount := formatUsdcStroopsToDecimal (calculateListingFeeStroops reservePriceStroops)
  match a.client with
  | some e => some (.other ("Failed to reach USDC contract at " ++ service.usdcSacContractId ++
      ": " ++ e.message))
  | none =>
      match a.build with
      | some e => some (chargeError requester feeAmount "Failed to build listing fee transfer: " e)
      | none =>
          a.send.map (chargeError requester feeAmount "Failed to submit listing fee transfer: ")

/-- The attempt fails in a way that looks transient. -/
def Attempt.looksTransient (a : Attempt) : Bool :=
  (a.error service requester reservePriceStroops).any fun e => isTransientMessage e.message

/-- The attempts from `n` on that charge, where `left` may follow it. -/
def charged (net : Network) : (left n : Nat) → List Nat
  | 0, n => if (net n).charges then [n] else []
  | left + 1, n =>
      (if (net n).charges then [n] else []) ++
        if (net n).looksTransient service requester reservePriceStroops then charged net left (n + 1)
        else []

theorem mem_charged {net : Network} {k : Nat} (left : Nat) : ∀ n,
    k ∈ charged service requester reservePriceStroops net left n ↔
      n ≤ k ∧ k ≤ n + left ∧ (net k).charges = true ∧
        ∀ m, n ≤ m → m < k →
          (net m).looksTransient service requester reservePriceStroops = true := by
  induction left with
  | zero =>
      intro n
      unfold charged
      split_ifs with hn
      · rw [List.mem_singleton]
        constructor
        · rintro rfl
          exact ⟨le_refl _, le_refl _, hn, fun m hle hlt => absurd hle (not_le.mpr hlt)⟩
        · rintro ⟨hle, hge, -⟩
          omega
      · refine iff_of_false List.not_mem_nil ?_
        rintro ⟨hle, hge, hk, -⟩
        have : k = n := by omega
        subst this
        exact hn hk
  | succ left ih =>
      intro n
      unfold charged
      rw [List.mem_append]
      constructor
      · rintro (hhead | hrest)
        · split_ifs at hhead with hn
          · rw [List.mem_singleton.mp hhead]
            exact ⟨le_refl _, by omega, hn, fun m hle hlt => absurd hle (not_le.mpr hlt)⟩
          · cases hhead
        · split_ifs at hrest with hgo
          · obtain ⟨hle, hge, hk, hbefore⟩ := (ih (n + 1)).mp hrest
            refine ⟨by omega, by omega, hk, fun m hm hlt => ?_⟩
            rcases Nat.eq_or_lt_of_le hm with rfl | hm
            · exact hgo
            · exact hbefore m hm hlt
          · cases hrest
      · rintro ⟨hle, hge, hk, hbefore⟩
        rcases Nat.eq_or_lt_of_le hle with rfl | hlt
        · left
          rw [if_pos hk]
          exact List.mem_singleton_self _
        · right
          rw [if_pos (hbefore n (le_refl n) hlt)]
          exact (ih (n + 1)).mpr ⟨hlt, by omega, hk, fun m hm => hbefore m (by omega)⟩

theorem nodup_charged (net : Network) (left : Nat) : ∀ n,
    (charged service requester reservePriceStroops net left n).Nodup := by
  induction left with
  | zero =>
      intro n
      unfold charged
      split_ifs
      · exact List.nodup_singleton n
      · exact List.nodup_nil
  | succ left ih =>
      intro n
      unfold charged
      refine List.nodup_append.mpr ⟨?_, ?_, ?_⟩
      · split_ifs
        · exact List.nodup_singleton n
        · exact List.nodup_nil
      · split_ifs
        · exact ih (n + 1)
        · exact List.nodup_nil
      · intro a ha b hb
        split_ifs at ha with hn
        · split_ifs at hb with hgo
          · have := ((mem_charged _ _ _ left (n + 1)).mp hb).1
            rw [List.mem_singleton.mp ha]
            omega
          · cases hb
        · cases ha

/-- **One attempt** charges or not, and fails or not, as the network has it. -/
theorem handle_chargeAttempt (net : Network) (l : Ledger) :
    ∃ r l', handle net.handler (chargeAttempt service requester reservePriceStroops) l = (r, l') ∧
      l'.attempt = l.attempt ∧
      l'.transfers = l.transfers ++ (if (net l.attempt).charges then
        [feeTransfer service requester reservePriceStroops] else []) ∧
      (∀ e, (net l.attempt).error service requester reservePriceStroops = some e → r = .error e) ∧
      ((net l.attempt).error service requester reservePriceStroops = none →
        ∃ result, r = .ok result) := by
  unfold chargeAttempt
  dsimp only
  rw [handle_ask_bind]
  cases hclient : (net l.attempt).client with
  | some e =>
      simp only [Network.handler, answerWith, hclient, Attempt.charges, Attempt.error]
      exact ⟨_, _, rfl, rfl, by simp, by simp, by simp⟩
  | none =>
      simp only [Network.handler, answerWith, hclient]
      rw [handle_ask_bind]
      cases hbuild : (net l.attempt).build with
      | some e =>
          simp only [Network.handler, answerWith, hbuild, Attempt.charges, Attempt.error, hclient]
          exact ⟨_, _, rfl, rfl, by simp, by simp, by simp⟩
      | none =>
          simp only [Network.handler, answerWith, hbuild]
          rw [handle_ask_bind]
          cases hsend : (net l.attempt).send with
          | some e =>
              simp only [Network.handler, hsend, Attempt.charges, Attempt.error, hclient, hbuild]
              refine ⟨_, _, rfl, ?_, ?_, by simp, by simp⟩
              · split_ifs <;> rfl
              · cases (net l.attempt).appliedAnyway <;> simp [Ledger.apply, feeTransfer]
          | none =>
              simp only [Network.handler, hsend, Attempt.charges, Attempt.error, hclient, hbuild]
              exact ⟨_, _, rfl, rfl, by simp [Ledger.apply, feeTransfer], by simp, fun _ => ⟨_, rfl⟩⟩

/-- The options of `chargeListingFee`. -/
def chargeRetry : RetryOptions ChargeOp ChargeReply JsError where
  shouldRetry := fun e => isTransientMessage e.message
  random := awaitCharge .random
  setTimeout := fun ms => awaitCharge (.setTimeout ms)

/-- There is no jitter and no hook: a pause waits for the timer. -/
theorem handle_pause (net : Network) (n : Nat) (e : JsError) (l : Ledger) :
    handle net.handler (chargeRetry.pause n e) l = ((), { l with attempt := l.attempt + 1 }) := by
  unfold RetryOptions.pause RetryOptions.jitterMs
  rw [if_neg (show ¬ (0 : Rat) < chargeRetry.jitterPct from lt_irrefl 0)]
  rfl

/-- **The loop** charges once for each attempt that charges. -/
theorem handle_retryLoop (net : Network) (left : Nat) : ∀ n l,
    (handle net.handler (chargeRetry.retryLoop
        (fun _ => chargeAttempt service requester reservePriceStroops) left n) l).2.transfers =
      l.transfers ++ (charged service requester reservePriceStroops net left l.attempt).map
        fun _ => feeTransfer service requester reservePriceStroops := by
  induction left with
  | zero =>
      intro n l
      obtain ⟨r, l', hrun, -, htransfers, -⟩ :=
        handle_chargeAttempt service requester reservePriceStroops net l
      unfold RetryOptions.retryLoop charged
      rw [hrun]
      dsimp only
      rw [htransfers]
      split_ifs <;> rfl
  | succ left ih =>
      intro n l
      obtain ⟨r, l', hrun, hattempt, htransfers, herror, hok⟩ :=
        handle_chargeAttempt service requester reservePriceStroops net l
      unfold RetryOptions.retryLoop charged
      rw [handle_bind, hrun]
      dsimp only
      have hhead : l'.transfers = l.transfers ++ (if (net l.attempt).charges then [l.attempt]
          else []).map fun _ => feeTransfer service requester reservePriceStroops := by
        rw [htransfers]
        split_ifs <;> rfl
      rw [List.map_append, ← List.append_assoc, ← hhead]
      unfold Attempt.looksTransient
      cases hfails : (net l.attempt).error service requester reservePriceStroops with
      | none =>
          obtain ⟨result, rfl⟩ := hok hfails
          rw [Option.any_none, if_neg Bool.false_ne_true]
          exact (List.append_nil _).symm
      | some e =>
          obtain rfl := herror e hfails
          rw [Option.any_some]
          by_cases hretry : chargeRetry.shouldRetry e = true
          · rw [if_pos (show isTransientMessage e.message = true from hretry)]
            dsimp only
            rw [if_neg (not_not.mpr hretry), handle_bind, handle_pause]
            dsimp only
            rw [ih, ← hattempt]
          · rw [if_neg (show ¬ isTransientMessage e.message = true from hretry)]
            dsimp only
            rw [if_pos hretry]
            exact (List.append_nil _).symm

/-- The transfers that one call makes. -/
def transfersOf (net : Network) : List Transfer :=
  (handle net.handler (chargeListingFee service requester reservePriceStroops) .fresh).2.transfers

theorem transfersOf_eq (net : Network) : transfersOf service requester reservePriceStroops net =
    (charged service requester reservePriceStroops net 3 0).map
      fun _ => feeTransfer service requester reservePriceStroops :=
  handle_retryLoop service requester reservePriceStroops net 3 0 .fresh

end

/-- **When one call charges at most once**: exactly where of two of the four attempts that would charge,
some attempt before the second succeeds or fails in a way that does not look transient. -/
theorem charged_once_iff (service : MppChargeService) (requester : String)
    (reservePriceStroops : Nat) (net : Network) :
    (transfersOf service requester reservePriceStroops net).length ≤ 1 ↔
      ∀ i j, i < j → j ≤ 3 → (net i).charges = true → (net j).charges = true →
        ∃ m < j, (net m).looksTransient service requester reservePriceStroops = false := by
  have hmem (k : Nat) : k ∈ charged service requester reservePriceStroops net 3 0 ↔
      k ≤ 3 ∧ (net k).charges = true ∧
        ∀ m < k, (net m).looksTransient service requester reservePriceStroops = true := by
    rw [mem_charged]
    simp
  have hnodup := nodup_charged service requester reservePriceStroops net 3 0
  rw [transfersOf_eq, List.length_map]
  generalize charged service requester reservePriceStroops net 3 0 = attempts at hmem hnodup
  constructor
  · intro hle i j hij hj hi' hj'
    by_contra hnone
    have hbefore (m : Nat) (hm : m < j) :
        (net m).looksTransient service requester reservePriceStroops = true := by
      by_contra hfalse
      exact hnone ⟨m, hm, by simpa using hfalse⟩
    have hmi : i ∈ attempts := (hmem i).mpr ⟨by omega, hi', fun m hm => hbefore m (by omega)⟩
    have hmj : j ∈ attempts := (hmem j).mpr ⟨hj, hj', hbefore⟩
    obtain ⟨k, hk⟩ : ∃ k, attempts = [k] := by
      refine List.length_eq_one_iff.mp (Nat.le_antisymm hle ?_)
      exact List.length_pos_of_mem hmi
    rw [hk, List.mem_singleton] at hmi hmj
    omega
  · intro hone
    -- two attempts that charge cannot both be reached
    have hsame (a b : Nat) (ha : a ∈ attempts) (hb : b ∈ attempts) : ¬ a < b := by
      intro hlt
      obtain ⟨-, ha', -⟩ := (hmem a).mp ha
      obtain ⟨hle, hb', hbefore⟩ := (hmem b).mp hb
      obtain ⟨m, hm, hstop⟩ := hone a b hlt hle ha' hb'
      rw [hbefore m hm] at hstop
      cases hstop
    rcases attempts with _ | ⟨a, _ | ⟨b, rest⟩⟩
    · exact Nat.zero_le 1
    · exact le_refl 1
    · have ha : a ∈ a :: b :: rest := List.mem_cons_self
      have hb : b ∈ a :: b :: rest := List.mem_cons_of_mem _ List.mem_cons_self
      have heq : a = b := by
        have := hsame a b ha hb
        have := hsame b a hb ha
        omega
      subst heq
      exact absurd hnodup (by simp)

/-- The ledger applies the first submission, but its answer times out. -/
def answerLost : Network := fun
  | 0 => { send := some (.other "timeout"), appliedAnyway := true }
  | _ => {}

/-- The second attempt charges again. -/
theorem lost_answer_charged_twice :
    ¬ ∀ (service : MppChargeService) (requester : String) (reservePriceStroops : Nat)
      (net : Network),
      (transfersOf service requester reservePriceStroops net).length ≤ 1 := by
  intro h
  have hle := h ⟨"C", "W"⟩ "R" 15000000 answerLost
  have hlength : (transfersOf ⟨"C", "W"⟩ "R" 15000000 answerLost).length = 2 := by decide +kernel
  omega

end TrustGate.Api
