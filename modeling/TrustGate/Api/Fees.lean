import TrustGate.Api.Actors
import TrustGate.Api.Charge
import TrustGate.Market.Listed

set_option autoImplicit false

/-! # The listing fee on both paths

Off the local network `POST /tasks` hands the fee to the payment gate as a decimal string, on it to a
transfer as a number of stroops, and both save the price that they read from the body a second
time. All of it comes from the same digits. -/

namespace TrustGate.Api

open Market Resumption

/-- What the middlewares do themselves. -/
def Op.guards : Op → Bool
  | .listingFeeGate _ _ _ => false
  | .registerExecutor _ _ => false
  | .saveExecutor _ => false
  | .market .dateNow => true
  | .market _ => false
  | _ => true

section

variable {T : Op → Prop} {cfg : Settings} {req : Request}

theorem only_signatureAuth {options : SignatureAuthOptions} {next : Js Unit}
    (hguards : ∀ o, o.guards = true → T o) (hnext : Only T next) :
    Only T (signatureAuth cfg options req next) := by
  refine Upkeep.only (upkeep_signatureAuth ?_ (fun error => ?_) hnext.unconditional)
  · intro o ho
    refine (Only.call (hguards o ?_)).unconditional
    cases ho <;> rfl
  · exact (only_fail (hguards _ rfl) (fun _ _ => hguards _ rfl) (fun _ _ _ => hguards _ rfl)
      (fun _ => hguards _ rfl) _ _ _).unconditional

theorem only_authorized {route : Route} (hguards : ∀ o, o.guards = true → T o)
    (hhandler : Only T (route.handler cfg req)) : Only T (route.authorized cfg req) := by
  have hserve : Only T (route.serve cfg req) :=
    only_serve hhandler (fun _ => hguards _ rfl) (hguards _ rfl) (fun _ => hguards _ rfl)
      fun _ => hguards _ rfl
  unfold Route.authorized
  split
  · exact only_signatureAuth hguards hserve
  · exact hserve

end

/-! ## What is charged -/

/-- The amounts of the transfers. -/
def transfers (log : List (Done ChargeOp ChargeReply)) : List Nat :=
  log.filterMap fun d => match d.op with
    | .transfer _ _ amount => some amount
    | _ => none

/-- The charge can go through, every transfer that it makes is of `f` stroops, and where it succeeds it
ends with one that was built, sent and answered. -/
structure Collects (service : MppChargeService) (requester : String) (p f : Nat) : Prop where
  succeeds : ∃ log result, Ends (chargeListingFee service requester p) log (.ok result)
  amounts : ∀ log r, Ends (chargeListingFee service requester p) log r →
    ∀ amount ∈ transfers log, amount = f
  sent : ∀ log result, Ends (chargeListingFee service requester p) log (.ok result) →
    result = chargeResult f result.txHash ∧
      ∃ before, log = before ++ sentLog service requester f result.txHash

/-- Where `requester` asks for a task at a price of `p` stroops, the operation charges it `f` or saves
its task at `p`, if it charges or saves. -/
def Op.Charges (requester : String) (p f : Nat) : Op → Prop
  | .listingFeeGate payer amount _ =>
      payer = requester ∧ parseUsdcDecimalToStroops amount = .ok f
  | .market (.chargeListingFee payer q) =>
      payer = requester ∧ q = p ∧ ∀ service, Collects service payer q f
  | .market (.saveTask task) => task.requesterPublicKey = requester ∧ task.reservePriceStroops = p
  | _ => True

/-- The fee was charged to `requester`: on the local network by the charge, off it by the gate. -/
def FeeCharged (cfg : Settings) (requester : String) (p f : Nat) (h : Hist) : Prop :=
  if cfg.configLocal then ⟨.market (.chargeListingFee requester p), .ok ()⟩ ∈ h
  else ∃ amount description, parseUsdcDecimalToStroops amount = .ok f ∧
    ⟨.listingFeeGate requester amount description, .ok none⟩ ∈ h

/-- A task is saved once its fee was charged. -/
def ChargedFirst (cfg : Settings) (requester : String) (p f : Nat) (h : Hist) (o : Op) : Prop :=
  ∀ task, o = .market (.saveTask task) → FeeCharged cfg requester p f h

/-- The nearest number of stroops to half a percent, of two equally near ones the larger. -/
def NearestFee (p f : Nat) : Prop :=
  |1000 * (f : Int) - 5 * p| ≤ 500 ∧ 1000 * (f : Int) - 5 * p ≠ -500

theorem nearestFee (p : Nat) : NearestFee p (calculateListingFeeStroops p) := by
  unfold NearestFee calculateListingFeeStroops
  rw [abs_le]
  omega

theorem fee_mono {p q : Nat} (h : q ≤ p) :
    calculateListingFeeStroops q ≤ calculateListingFeeStroops p :=
  Nat.div_le_div_right (by omega)

theorem mem_transfers {service : MppChargeService} {requester : String} {p : Nat}
    {log : List (Done ChargeOp ChargeReply)} {r : Except JsError ChargeResult}
    (h : Ends (chargeListingFee service requester p) log r) :
    ∀ amount ∈ transfers log, amount = calculateListingFeeStroops p := by
  intro amount hmem
  obtain ⟨d, hd, hop⟩ := List.mem_filterMap.mp hmem
  obtain ⟨past, htransfers⟩ := (chargeListingFee_transfers service requester p []).of_ends h d hd
  split at hop
  · rename_i sender receiver paid heq
    cases hop
    rw [heq] at htransfers
    exact htransfers
  · cases hop

theorem collects (service : MppChargeService) (requester : String) (p : Nat) :
    Collects service requester p (calculateListingFeeStroops p) where
  succeeds := ⟨_, _, chargeListingFee_ok ""⟩
  amounts _ _ := mem_transfers
  sent _ _ := chargeListingFee_sent

section

variable {cfg : Settings} {req : Request} {requester : String} {p : Nat}

theorem charges_saveAndPublish {reservePrice description : String} {deadline : Nat}
    (hprice : parseUsdcDecimalToStroops reservePrice = .ok p) :
    Only (fun o => Op.Charges requester p (calculateListingFeeStroops p) (.market o))
      (saveAndPublish cfg.toSettings requester reservePrice description deadline) := by
  unfold saveAndPublish
  rw [hprice]
  refine .bind (.call trivial) fun id => .bind (.call ⟨rfl, rfl⟩) fun _ => ?_
  refine .bind (Only.attempt (.call trivial)) fun _ => .bind ?_ fun _ => .pure _
  unfold outboxEmit
  split_ifs
  · exact .bind (.call trivial) fun _ => .call trivial
  · exact .pure _

/-- Whenever the body is read, it asks for a task of `requester` at a price of `p` stroops. -/
def Asks (cfg : Settings) (req : Request) (requester : String) (p : Nat) : Prop :=
  ∀ now schema b, schema = createTaskSchema cfg now ∨
    schema = createTaskLocalRequestSchema cfg now → parseCreateTask cfg schema req.body = .ok b →
    b.requester = requester ∧ parseUsdcDecimalToStroops b.reservePrice = .ok p

theorem charges_handler (hasks : Asks cfg req requester p) :
    Only (Op.Charges requester p (calculateListingFeeStroops p)) (Route.tasks.handler cfg req) := by
  refine .bind (.call trivial) fun now => ?_
  split_ifs
  · refine only_lift ?_
    unfold Market.createTask
    split_ifs
    · exact .pure _
    cases hbody : parseCreateTask cfg (createTaskLocalRequestSchema cfg now) req.body with
    | error detail => exact .pure _
    | ok b =>
        obtain ⟨hrequester, hp⟩ := hasks now _ b (.inr rfl) hbody
        dsimp only
        rw [hp]
        dsimp only
        split
        · exact .pure _
        split_ifs with hother
        · exact .pure _
        rw [ne_eq, not_not] at hother
        refine .bind (Only.attempt (.call ⟨hother.trans hrequester, rfl, fun _ => collects _ _ _⟩))
          fun charged => ?_
        split
        · exact .pure _
        · exact .pure _
        · exact hrequester ▸ .bind (charges_saveAndPublish hp) fun _ => .pure _
  · refine only_lift ?_
    unfold Market.createPaid
    split_ifs
    · exact .pure _
    cases hbody : parseCreateTask cfg (createTaskSchema cfg now) req.body with
    | error detail => exact .pure _
    | ok b =>
        obtain ⟨hrequester, hp⟩ := hasks now _ b (.inl rfl) hbody
        exact hrequester ▸ .bind (charges_saveAndPublish hp) fun _ => .pure _

theorem charges_guards {f : Nat} {o : Op} (ho : o.guards = true) : o.Charges requester p f := by
  cases o with
  | listingFeeGate payer amount description => cases ho
  | market o =>
      cases o with
      | saveTask task => cases ho
      | chargeListingFee payer reservePriceStroops => cases ho
      | _ => trivial
  | _ => trivial

theorem charges_authorized (hasks : Asks cfg req requester p) :
    Only (Op.Charges requester p (calculateListingFeeStroops p)) (Route.tasks.authorized cfg req) :=
  only_authorized (fun _ => charges_guards) (charges_handler hasks)

theorem chargedFirst_of_ne {f : Nat} {h : Hist} {o : Op} (ho : ∀ task, o ≠ .market (.saveTask task)) :
    ChargedFirst cfg requester p f h o :=
  fun task heq => absurd heq (ho task)

/-- On the local network the handler charges. -/
theorem chargedFirst_local (hlocal : cfg.configLocal = true) {f : Nat} :
    Throughout (fun h o => o.Charges requester p f → ChargedFirst cfg requester p f h o)
      (Route.tasks.authorized cfg req) := by
  have hguard {o : Op} (ho : ∀ task, o ≠ .market (.saveTask task)) (h : Hist) :
      o.Charges requester p f → ChargedFirst cfg requester p f h o := fun _ => chargedFirst_of_ne ho
  have hserve : Throughout (fun h o => o.Charges requester p f → ChargedFirst cfg requester p f h o)
      (Route.tasks.serve cfg req) := by
    refine throughout_serve (.bind (.call (hguard (by simp))) fun now => ?_)
      (fun h _ => hguard (by simp) h) (hguard (by simp)) (fun h _ => hguard (by simp) h)
      fun h _ => hguard (by simp) h
    rw [if_pos hlocal]
    refine throughout_lift (createTask_charged _ _) fun past h o hcharged hcharges task htask => ?_
    cases htask
    obtain ⟨rfl, rfl⟩ := hcharges
    unfold FeeCharged
    rw [if_pos hlocal]
    exact List.mem_append_left _ (List.mem_map.mpr ⟨_, hcharged task rfl, rfl⟩)
  unfold Route.authorized Route.auth
  rw [if_pos hlocal]
  exact hserve

/-- What a request to create a task does, and what it has paid before. -/
theorem charges_run (hasks : Asks cfg req requester p) :
    Throughout (fun h o => o.Charges requester p (calculateListingFeeStroops p) ∧
        ChargedFirst cfg requester p (calculateListingFeeStroops p) h o)
      (Route.tasks.run cfg req) := by
  have hjson response : Throughout (fun h o => o.Charges requester p (calculateListingFeeStroops p) ∧
      ChargedFirst cfg requester p (calculateListingFeeStroops p) h o) (respond response) :=
    .call fun _ => ⟨trivial, chargedFirst_of_ne (by simp)⟩
  unfold Route.run
  refine .bind (Throughout.attempt ?_) fun answered => ?_
  · rw [if_neg (by simp [Route.admin])]
    split_ifs with hgate
    · unfold listingFee
      refine .bind (.call fun _ => ⟨trivial, chargedFirst_of_ne (by simp)⟩) fun now => ?_
      cases hbody : parseCreateTask cfg (createTaskSchema cfg now) req.body with
      | error detail => exact hjson _
      | ok b =>
          obtain ⟨hrequester, hp⟩ := hasks now _ b (.inl rfl) hbody
          dsimp only
          rw [hp]
          intro h
          rw [ensures_call_bind]
          refine ⟨⟨⟨hrequester, parse_format _⟩, chargedFirst_of_ne (by simp)⟩, ?_, fun _ => trivial⟩
          rintro (- | response)
          · -- the gate has let the request pass, and that stays so
            refine (charges_authorized hasks _).grows.mono ?_ fun _ _ _ => trivial
            rintro h' o ⟨hcharges, hsuffix⟩
            refine ⟨hcharges, fun task htask => ?_⟩
            unfold FeeCharged
            rw [if_neg hgate.2]
            exact ⟨_, _, parse_format _, hrequester ▸ hsuffix.subset List.mem_cons_self⟩
          · exact hjson response _
    · have hlocal : cfg.configLocal = true := by simpa using hgate
      intro h
      exact Follows.mono (fun h o hc => ⟨hc.1, hc.2 hc.1⟩) (fun _ _ _ => trivial)
        (Follows.and (charges_authorized hasks h) (chargedFirst_local hlocal h))
  · cases answered with
    | error e => exact hjson _
    | ok _ => exact .pure _

end

/-- **Both paths charge the same fee**, before they save the task, and save the price that the body
states: in every run, for every body that the schema accepts. -/
theorem fee_same_on_both_paths (cfg : Settings) (now : Nat) (req : Request)
    (value : String → String)
    (haccepted : safeParse (createTaskSchema cfg now) req.body = .ok value) :
    ∃ p f, parseUsdcDecimalToStroops (value "reservePrice") = .ok p ∧
      f = calculateListingFeeStroops p ∧ NearestFee p f ∧
      (∀ q ≤ p, calculateListingFeeStroops q ≤ f) ∧
      ∀ s sched pid o r earlier,
        (runSched api (.initial s) sched).jobOf pid = some (.request cfg .tasks req) →
        ⟨pid, o, r⟩ :: earlier <:+ (runSched api (.initial s) sched).trace →
        o.Charges (value "requester") p f ∧
          ChargedFirst cfg (value "requester") p f (own pid earlier) o := by
  obtain ⟨p, hp, -⟩ := amount_pos (.reservePrice now) haccepted
  refine ⟨p, calculateListingFeeStroops p, hp, rfl, nearestFee p, fun q hq => fee_mono hq, ?_⟩
  have hasks : Asks cfg req (value "requester") p := by
    intro now' schema b hschema hb
    obtain ⟨value', rfl, hstring⟩ := parsed_string hb
    have same {f : StringField} (hf : ∀ now, f ∈ createTaskSchema cfg now) :
        value' f.name = value f.name := by
      have hmem : f ∈ schema := by
        rcases hschema with rfl | rfl
        · exact hf now'
        · exact List.mem_append_left _ (hf now')
      have hread := safeParse_string haccepted (hf now)
      rw [hstring _ hmem] at hread
      exact Option.some.inj hread
    have hrequester : value' "requester" = value "requester" :=
      same (f := keyField "requester" "public key" 'G') fun _ => by simp [createTaskSchema]
    have hprice : value' "reservePrice" = value "reservePrice" :=
      same (f := amountField "reservePrice") fun _ => by simp [createTaskSchema]
    exact ⟨hrequester, (congrArg parseUsdcDecimalToStroops hprice).trans hp⟩
  intro s sched pid o r earlier hjob hcall
  have hbodies : ∀ j : Job, Follows (fun h o => j = .request cfg .tasks req →
      o.Charges (value "requester") p (calculateListingFeeStroops p) ∧
        ChargedFirst cfg (value "requester") p (calculateListingFeeStroops p) h o)
      (fun _ _ => True) (api.body j) [] := by
    intro j
    by_cases hj : j = .request cfg .tasks req
    · subst hj
      exact (toEnd_follows (charges_run hasks [])).mono (fun _ _ hc _ => hc) fun _ _ hq => hq
    · exact (body_follows j).mono (fun _ _ _ heq => absurd heq hj) fun _ _ hq => hq
  have hcalls := runSched_explained s sched (meets_any _ _ _) fun j _ => hbodies j
  obtain ⟨j, hj, -, hcharges⟩ := hcalls.at hcall
  rw [hjob] at hj
  cases hj
  exact hcharges rfl

/-! ## One task on both paths -/

def feeSettings (networkLocal : Bool) : Settings :=
  { clientNonceSettings with networkLocal, hasOutbox := false, publicKeyOf := fun _ => some smokeKey }

/-- A listing at 1.5 USDC, signed at the time 5 with the nonce `n`. -/
def listedRequest : Request where
  method := "POST"
  method_known := post_known
  originalUrl := "/tasks"
  ip := ""
  headers := [("x-tg-public-key", smokeKey), ("x-tg-timestamp", "5"), ("x-tg-nonce", "n"),
    ("x-tg-signature", "POST\n/tasks\n5\nn\n7b7d")]
  rawBody := some (bufferOf "{}")
  body := some (.obj [("requester", .str smokeKey), ("reservePrice", .str "1.5"),
    ("description", .str "d"), ("deadline", .str "10"),
    ("secret", .str "SAAAAAAAAAAAAAAAAAAAAAAAAAAAAAAAAAAAAAAAAAAAAAAAAAAAAAAA")])
  rawBody_of_body := fun _ => rfl

theorem listedRequest_accepted (networkLocal : Bool) :
    ∃ value, safeParse (createTaskSchema (feeSettings networkLocal) 5) listedRequest.body = .ok value ∧
      value "requester" = smokeKey ∧ value "reservePrice" = "1.5" := by
  have hok : (safeParse (createTaskSchema (feeSettings networkLocal) 5) listedRequest.body).isOk =
      true := by
    cases networkLocal <;> decide +kernel
  cases h : safeParse (createTaskSchema (feeSettings networkLocal) 5) listedRequest.body with
  | error detail =>
      rw [h] at hok
      cases hok
  | ok value =>
      obtain ⟨values, hbody, haccepted⟩ := safeParse_ok h
      cases hbody
      have hrequester : some (Json.str smokeKey) = some (.str (value "requester")) :=
        (haccepted (keyField "requester" "public key" 'G') (by simp [createTaskSchema])).1
      have hprice : some (Json.str "1.5") = some (.str (value "reservePrice")) :=
        (haccepted (amountField "reservePrice") (by simp [createTaskSchema])).1
      exact ⟨value, rfl, (Json.str.inj (Option.some.inj hrequester)).symm,
        (Json.str.inj (Option.some.inj hprice)).symm⟩

def listsTask (networkLocal : Bool) : List (Act Job Outcome) :=
  .spawn (.request (feeSettings networkLocal) .tasks listedRequest) :: goOn 0 12

/-- The fee of 75000 stroops is taken. -/
def takesFee : Call Op Reply → Bool
  | ⟨_, .listingFeeGate payer amount _, .ok none⟩ => payer = smokeKey && amount = "0.0075"
  | ⟨_, .market (.chargeListingFee payer reservePriceStroops), .ok ()⟩ =>
      payer = smokeKey && reservePriceStroops = 15000000
  | _ => false

theorem one_and_a_half_charged :
    Ends (chargeListingFee ⟨"C", "W"⟩ smokeKey 15000000) (sentLog ⟨"C", "W"⟩ smokeKey 75000 "hash")
      (.ok (chargeResult 75000 "hash")) ∧
    transfers (sentLog ⟨"C", "W"⟩ smokeKey 75000 "hash") = [75000] ∧
    ∀ networkLocal,
      let cfg := runSched api (.initial emptyStore) (listsTask networkLocal)
      cfg.trace.any takesFee = true ∧
      cfg.state.market.tasks.map Task.reservePriceStroops = [15000000] ∧
      NearestFee 15000000 75000 ∧
      ∀ pid o r earlier,
        cfg.jobOf pid = some (.request (feeSettings networkLocal) .tasks listedRequest) →
        ⟨pid, o, r⟩ :: earlier <:+ cfg.trace →
        o.Charges smokeKey 15000000 75000 ∧
          ChargedFirst (feeSettings networkLocal) smokeKey 15000000 75000 (own pid earlier) o := by
  refine ⟨chargeListingFee_ok "hash", rfl, fun networkLocal => ?_⟩
  obtain ⟨value, haccepted, hrequester, hvalue⟩ := listedRequest_accepted networkLocal
  obtain ⟨p, f, hp, hf, hnearest, -, hcharges⟩ :=
    fee_same_on_both_paths (feeSettings networkLocal) 5 listedRequest value haccepted
  have hparse : parseUsdcDecimalToStroops "1.5" = .ok 15000000 := by decide +kernel
  rw [hvalue, hparse] at hp
  cases hp
  have : f = 75000 := by
    rw [hf]
    decide
  subst this
  rw [hrequester] at hcharges
  refine ⟨?_, ?_, hnearest, hcharges emptyStore (listsTask networkLocal)⟩
  · cases networkLocal <;> decide +kernel
  · cases networkLocal <;> decide +kernel

end TrustGate.Api
