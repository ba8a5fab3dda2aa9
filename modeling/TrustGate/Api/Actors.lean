import TrustGate.Api.Amounts
import TrustGate.Api.Replays

set_option autoImplicit false

/-! # For whom a request acts

The controllers take from the body for whom they act, and `signatureAuth` compares that field with
the key in the headers only where it is a string. Off the local network each controller insists on
a string itself, so whatever a request changes, it changes for the key that signed it. -/

namespace TrustGate.Api

open Market Resumption

/-- An operation that changes or announces something, rather than looking it up. -/
def Op.acts : Op → Bool
  | .saveExecutor _ => true
  | .registerExecutor _ _ => true
  | .market (.findTask _) => false
  | .market .listTasks => false
  | .market (.findBids _) => false
  | .market (.findResult _) => false
  | .market (.listUnprocessed _) => false
  | .market (.findEvent _) => false
  | .market (.listDueRetries _ _) => false
  | .market (.isRegistered _) => false
  | .market .dateNow => false
  | .market .randomUUID => false
  | .market _ => true
  | _ => false

/-- The field of the body that says for whom the route's controller acts. -/
def Route.actorField : Route → Option String
  | .register => some "publicKey"
  | .tasks => some "requester"
  | .complete _ => some "requester"
  | .bids => some "executor"
  | .publishResult _ => some "executorPublicKey"
  | .signedSmoke => none
  | .select _ => none
  | .timeoutCheck => none

/-- The key that an operation of the route's controller names as the one it acts for. The selection
after a bid saves the bids of others too, none of them as pending. -/
def Route.names : Route → Op → Option String
  | .register, .saveExecutor record => some record.publicKey
  | .tasks, .market (.saveTask task) => some task.requesterPublicKey
  | .tasks, .market (.publishTask task) => some task.requesterPublicKey
  | .tasks, .market (.insertEvent event) => some (event.payload.text "requesterPublicKey")
  | .complete _, .market (.saveTask task) => some task.requesterPublicKey
  | .bids, .market (.createEscrow executor _ _) => some executor
  | .bids, .market (.saveBid bid) =>
      if bid.status = .pending then some bid.executorPublicKey else none
  | .bids, .market (.insertEvent event) => some (event.payload.text "executorPublicKey")
  | .publishResult _, .market (.insertEvent event) =>
      some (event.payload.text "executorPublicKey")
  | _, _ => none

/-- The body says for whom the operation is, and that is whom the operation names. -/
def Spoken (route : Route) (req : Request) (o : Op) : Prop :=
  ∃ field key, route.actorField = some field ∧ req.bodyString field = some key ∧
    ∀ named ∈ route.names o, named = key

/-- An operation that a controller may carry out for the one the body names. -/
def Speaks (route : Route) (req : Request) (o : Op) : Prop := o.acts = true → Spoken route req o

theorem speaks {route : Route} {req : Request} {o : Op} {field key : String}
    (hfield : route.actorField = some field) (hkey : req.bodyString field = some key)
    (hnames : ∀ named ∈ route.names o, named = key) : Speaks route req o :=
  fun _ => ⟨field, key, hfield, hkey, hnames⟩

theorem speaks_of_quiet {route : Route} {req : Request} {o : Op} (ho : o.acts = false) :
    Speaks route req o := by
  intro hacts
  rw [ho] at hacts
  cases hacts

/-- What the schema accepts is a string. -/
theorem safeParse_string {fields : List StringField} {req : Request} {value : String → String}
    (h : safeParse fields req.body = .ok value) {f : StringField} (hf : f ∈ fields) :
    req.bodyString f.name = some (value f.name) := by
  obtain ⟨values, hbody, haccepted⟩ := safeParse_ok h
  unfold Request.bodyString Request.bodyField
  rw [hbody, Option.bind_some, Json.field, (haccepted f hf).1]

/-! ## Controllers -/

/-- The program changes things for the one the body names, whatever it is replied. -/
abbrev SpeaksIn {α : Type} (route : Route) (req : Request) (x : Market.Js α) : Prop :=
  Only (fun o => Speaks route req (.market o)) x

section

variable {req : Request} {cfg : Market.Settings}

theorem speaks_outboxEmit {route : Route} {field key type aggregateType aggregateId : String}
    {payload : Json} (hfield : route.actorField = some field)
    (hkey : req.bodyString field = some key)
    (hevent : ∀ event : OutboxEvent, event.payload = payload →
      ∀ named ∈ route.names (.market (.insertEvent event)), named = key) :
    SpeaksIn route req (outboxEmit cfg type aggregateType aggregateId payload) := by
  unfold outboxEmit
  split_ifs
  · exact .bind (.call (speaks_of_quiet rfl)) fun _ => .call (speaks hfield hkey (hevent _ rfl))
  · exact .pure _

theorem speaks_saveAndPublish {requester reservePrice description : String} {deadline : Nat}
    (hkey : req.bodyString "requester" = some requester) :
    SpeaksIn .tasks req (saveAndPublish cfg requester reservePrice description deadline) := by
  unfold saveAndPublish
  split
  · exact .throw _
  refine .bind (.call (speaks_of_quiet rfl)) fun id => ?_
  refine .bind (.call (speaks rfl hkey ?_)) fun _ => ?_
  · rintro named ⟨⟩
    rfl
  refine .bind (.attempt (.call (speaks rfl hkey ?_))) fun _ => ?_
  · rintro named ⟨⟩
    rfl
  refine .bind (speaks_outboxEmit rfl hkey ?_) fun _ => .pure _
  rintro event hpayload named ⟨⟩
  rw [hpayload]
  rfl

theorem speaks_createPaid {body : Parsed CreateTaskBody}
    (hkey : ∀ b, body = .ok b → req.bodyString "requester" = some b.requester) :
    SpeaksIn .tasks req (createPaid cfg body) := by
  unfold createPaid
  split_ifs
  · exact .pure _
  cases body with
  | error detail => exact .pure _
  | ok b => exact .bind (speaks_saveAndPublish (hkey b rfl)) fun _ => .pure _

/-- The task is the requester's, so saving it names the requester. -/
theorem speaks_settleCompletion {taskId : String} {task : Task} {winner : Bid}
    (hkey : req.bodyString "requester" = some task.requesterPublicKey) :
    SpeaksIn (.complete taskId) req (settleCompletion cfg task winner) := by
  unfold settleCompletion
  split_ifs
  · refine .bind (.call (speaks rfl hkey ?_)) fun _ => ?_
    · rintro named ⟨⟩
      rfl
    refine .bind (speaks_outboxEmit rfl hkey ?_) fun _ => .pure _
    rintro event - named ⟨⟩
  · refine .bind (.attempt (.bind (.call (speaks rfl hkey ?_)) fun release => ?_)) fun result => ?_
    · rintro named ⟨⟩
    · refine .bind (.call (speaks rfl hkey ?_)) fun _ => .pure _
      rintro named ⟨⟩
      rfl
    · cases result with
      | error e => exact .pure _
      | ok release => exact .pure _

theorem speaks_complete {taskId : String} {body : Parsed CompleteBody}
    (hkey : ∀ b, body = .ok b → req.bodyString "requester" = some b.requester) :
    SpeaksIn (.complete taskId) req (Market.complete cfg taskId body) := by
  unfold Market.complete
  cases body with
  | error detail => exact .pure _
  | ok b =>
      split
      · exact .pure _
      rename_i requester hrequester
      have hsame : requester = b.requester := by
        unfold completeRequester at hrequester
        dsimp only at hrequester
        split_ifs at hrequester
        · split at hrequester
          · cases hrequester
          split_ifs at hrequester
          cases hrequester
          rfl
        · cases hrequester
          rfl
      refine .bind (.call (speaks_of_quiet rfl)) fun found => ?_
      cases found with
      | none => exact .pure _
      | some task =>
          dsimp only
          split_ifs with howner
          · exact .pure _
          · exact .pure _
          · exact .pure _
          · exact .pure _
          refine .bind (.call (speaks_of_quiet rfl)) fun bids => ?_
          split
          · exact .pure _
          split_ifs
          · exact .pure _
          refine speaks_settleCompletion ?_
          rw [hkey b rfl, ← hsame, not_not.mp howner]

/-- The selection saves no bid as pending, so it names nobody. -/
theorem speaks_selectWinner {taskId key : String} (hkey : req.bodyString "executor" = some key) :
    SpeaksIn .bids req (selectWinner taskId) := by
  unfold selectWinner
  refine .bind (.call (speaks_of_quiet rfl)) fun found => ?_
  cases found with
  | none => exact .throw _
  | some task =>
      dsimp only
      split_ifs
      · exact .throw _
      refine .bind (.call (speaks_of_quiet rfl)) fun bids => ?_
      split
      · exact .throw _
      refine .bind (.call (speaks rfl hkey ?_)) fun _ => ?_
      · rintro named ⟨⟩
      refine .bind (.call (speaks rfl hkey ?_)) fun _ => ?_
      · simp [Route.names]
      refine .bind (Only.forEach (fun bid => ?_) _) fun _ => .pure _
      split_ifs
      · refine .call (speaks rfl hkey ?_)
        simp [Route.names]
      · exact .pure _

theorem speaks_placeBid {b : CreateBidBody} {escrowId : String}
    (hkey : req.bodyString "executor" = some b.executor) :
    SpeaksIn .bids req (placeBid cfg b escrowId) := by
  unfold placeBid
  split
  · exact .pure _
  · exact .pure _
  refine .bind (.call (speaks_of_quiet rfl)) fun id => ?_
  refine .bind (.call (speaks_of_quiet rfl)) fun createdAt => ?_
  refine .bind (.call (speaks rfl hkey ?_)) fun _ => ?_
  · simp [Route.names]
  refine .bind (speaks_outboxEmit rfl hkey ?_) fun _ => ?_
  · rintro event hpayload named ⟨⟩
    rw [hpayload]
    rfl
  exact .bind (speaks_selectWinner hkey).attempt fun _ => .pure _

theorem speaks_createBid {body : Parsed CreateBidBody}
    (hkey : ∀ b, body = .ok b → req.bodyString "executor" = some b.executor) :
    SpeaksIn .bids req (Market.createBid cfg body) := by
  unfold Market.createBid
  split_ifs
  · exact .pure _
  cases body with
  | error detail => exact .pure _
  | ok b =>
      have hkey := hkey b rfl
      dsimp only
      split
      · exact .pure _
      split_ifs
      · exact .pure _
      refine .bind (.call (speaks_of_quiet rfl)) fun found => ?_
      cases found with
      | none => exact .pure _
      | some task =>
          dsimp only
          split_ifs
          · exact .pure _
          have hauthorize : SpeaksIn .bids req (authorizeExecutorPayment b.executor) := by
            refine .bind (.call (speaks_of_quiet rfl)) fun registered => ?_
            split_ifs
            · exact .pure _
            · exact .throw _
          refine .bind hauthorize.attempt fun authorized => ?_
          split
          · exact .pure _
          · exact .pure _
          refine .bind (.attempt (.call (speaks rfl hkey ?_))) fun escrow => ?_
          · rintro named ⟨⟩
            rfl
          cases escrow with
          | error e => exact .pure _
          | ok escrowId => exact speaks_placeBid hkey

/-- Whoever publishes says so in a string. -/
theorem speaks_publishResult {taskId : String} {payload : Option Json} :
    SpeaksIn (.publishResult taskId) req
      (Market.publishResult cfg taskId (req.bodyString "executorPublicKey") payload) := by
  unfold Market.publishResult
  refine .bind (.call (speaks_of_quiet rfl)) fun found => ?_
  cases found with
  | none => exact .pure _
  | some task =>
      dsimp only
      split_ifs
      · exact .pure _
      refine .bind (.call (speaks_of_quiet rfl)) fun bids => ?_
      split
      · exact .pure _
      cases hkey : req.bodyString "executorPublicKey" with
      | none => exact .pure _
      | some executor =>
          dsimp only
          split_ifs
          · exact .pure _
          cases payload with
          | none => exact .pure _
          | some payload =>
              refine .bind (.bind (.call (speaks rfl hkey ?_)) fun _ => ?_) fun stored => ?_
              · rintro named ⟨⟩
              · refine .bind (.call (speaks_of_quiet rfl)) fun found => ?_
                cases found with
                | none => exact .throw _
                | some stored => exact .pure _
              refine .bind (speaks_outboxEmit rfl hkey ?_) fun _ => .pure _
              rintro event hpayload named ⟨⟩
              rw [hpayload]
              rfl

end

section

variable {req : Request} {cfg : Settings} {route : Route}

/-- The strings that a schema has let through. -/
theorem parsed_string {α : Type} {fields : List StringField} {f : (String → String) → α} {b : α}
    (h : (safeParse fields req.body).map f = .ok b) :
    ∃ value, f value = b ∧ ∀ g ∈ fields, req.bodyString g.name = some (value g.name) := by
  cases hparsed : safeParse fields req.body with
  | error detail =>
      rw [hparsed] at h
      cases h
  | ok value =>
      rw [hparsed] at h
      cases h
      exact ⟨value, rfl, fun g hg => safeParse_string hparsed hg⟩

theorem speaks_register (hlocal : cfg.networkLocal = false) :
    Only (Speaks .register req) (register cfg req) := by
  unfold register
  rw [if_neg (by simp [hlocal])]
  split
  · rename_i publicKey metadataUri hkey _
    split_ifs
    case neg => exact .pure _
    refine .bind (.call (speaks_of_quiet rfl)) fun registered => ?_
    split_ifs
    · refine .bind (.call (speaks_of_quiet rfl)) fun registeredAt => ?_
      refine .bind (.call (speaks rfl hkey ?_)) fun _ => .pure _
      rintro named ⟨⟩
      rfl
    · exact .pure _
  · exact .pure _

/-- **Every controller** changes things only for the one its body names. -/
theorem speaks_handler (hnetwork : cfg.configLocal = false) {field : String}
    (hfield : route.actorField = some field) :
    Only (Speaks route req) (route.handler cfg req) := by
  cases route with
  | signedSmoke => cases hfield
  | select taskId => cases hfield
  | timeoutCheck => cases hfield
  | register => exact speaks_register (Bool.or_eq_false_iff.mp hnetwork).1
  | tasks =>
      refine .bind (.call (speaks_of_quiet rfl)) fun now => ?_
      rw [if_neg (by simp [hnetwork])]
      refine only_lift (speaks_createPaid fun b hb => ?_)
      obtain ⟨value, rfl, hstring⟩ := parsed_string hb
      exact hstring (keyField "requester" "public key" 'G') List.mem_cons_self
  | complete taskId =>
      refine only_lift (speaks_complete fun b hb => ?_)
      obtain ⟨value, rfl, hstring⟩ := parsed_string hb
      refine hstring (keyField "requester" "public key" 'G') ?_
      split_ifs <;> exact List.mem_cons_self
  | bids =>
      refine only_lift (speaks_createBid fun b hb => ?_)
      obtain ⟨value, rfl, hstring⟩ := parsed_string hb
      refine hstring (keyField "executor" "public key" 'G') ?_
      split_ifs <;> simp [createBidLocalSchema, createBidSignedSchema]
  | publishResult taskId => exact only_lift speaks_publishResult

end

/-! ## In front of the controllers -/

/-- What acts comes after `signatureAuth` and is for the one the body names. -/
def ActCall (route : Route) (req : Request) (h : Hist) (o : Op) : Prop :=
  o.acts = true → Spoken route req o ∧ ⟨.next .signatureAuth, .ok ()⟩ ∈ h

section

variable {req : Request} {cfg : Settings} {route : Route}

theorem quiet_call {h : Hist} {o : Op} (ho : o.acts = false) : ActCall route req h o := by
  intro hacts
  rw [ho] at hacts
  cases hacts

theorem quiet_calls {α : Type} {x : Js α} (hx : Only (fun o => o.acts = false) x) (h : Hist) :
    Ensures (ActCall route req) (fun _ _ => True) x h :=
  hx.ensures (fun _ _ _ ho => quiet_call ho) fun _ _ _ => trivial

theorem quiet_fail (ip publicKey error : String) :
    Only (fun o => o.acts = false) (fail ip publicKey error) :=
  only_fail (T := fun o => o.acts = false) rfl (fun _ _ => rfl) (fun _ _ _ => rfl) (fun _ => rfl)
    ip publicKey error

/-- What follows `next()`. -/
theorem next_acts {next : Js Unit} (hnext : Only (Speaks route req) next) (h : Hist) :
    Ensures (ActCall route req) (fun _ _ => True)
      (do await (.next .signatureAuth); next) h := by
  rw [ensures_call_bind]
  refine ⟨quiet_call rfl, fun _ => ?_, fun _ => trivial⟩
  exact hnext.ensures
    (fun l o _ ho hacts => ⟨ho hacts, List.mem_append_right l List.mem_cons_self⟩)
    fun _ _ _ => trivial

theorem consumeNonce_acts {options : SignatureAuthOptions} {next : Js Unit}
    (hnext : Only (Speaks route req) next) (h : Hist) :
    Ensures (ActCall route req) (fun _ _ => True) (consumeNonce cfg options req next) h := by
  unfold consumeNonce
  rw [ensures_attempt_call_bind]
  refine ⟨quiet_call rfl, ?_⟩
  rintro (e | ⟨⟩)
  · exact quiet_calls (.call rfl) _
  dsimp only
  rw [ensures_call_bind]
  refine ⟨quiet_call rfl, ?_, fun _ => trivial⟩
  rintro (_ | stored)
  · dsimp only
    split_ifs
    · rw [ensures_call_bind]
      refine ⟨quiet_call rfl, fun nonceSet => ?_, fun _ => trivial⟩
      split_ifs
      · exact next_acts hnext _
      · exact quiet_calls (quiet_fail _ _ _) _
    · exact quiet_calls (quiet_fail _ _ _) _
  · dsimp only
    split_ifs
    · exact quiet_calls (quiet_fail _ _ _) _
    · exact next_acts hnext _

theorem signatureAuth_acts {options : SignatureAuthOptions} {next : Js Unit}
    (hnext : Only (Speaks route req) next) (h : Hist) :
    Ensures (ActCall route req) (fun _ _ => True) (signatureAuth cfg options req next) h := by
  unfold signatureAuth
  split_ifs
  · exact next_acts hnext h
  · exact quiet_calls (quiet_fail _ _ _) h
  · exact next_acts hnext h
  split
  · exact quiet_calls (quiet_fail _ _ _) h
  rw [ensures_call_bind]
  refine ⟨quiet_call rfl, fun now => ?_, fun _ => trivial⟩
  split_ifs
  · exact quiet_calls (quiet_fail _ _ _) _
  unfold checkSignature
  split
  · exact quiet_calls (quiet_fail _ _ _) _
  split_ifs
  · split
    · trivial
    · exact quiet_calls (quiet_fail _ _ _) _
    · exact consumeNonce_acts hnext _
  · exact quiet_calls (quiet_fail _ _ _) _

/-- The route of an actor is signed with the actor's field. -/
theorem auth_of_actorField (hnetwork : cfg.configLocal = false) {field : String}
    (hfield : route.actorField = some field) :
    route.auth cfg = some { matchBodyField := some field } := by
  cases route with
  | signedSmoke => cases hfield
  | select taskId => cases hfield
  | timeoutCheck => cases hfield
  | tasks => cases hfield; rw [Route.auth, if_neg (by simp [hnetwork])]
  | register => cases hfield; rfl
  | complete taskId => cases hfield; rfl
  | bids => cases hfield; rfl
  | publishResult taskId => cases hfield; rfl

theorem authorized_acts (hnetwork : cfg.configLocal = false) {field : String}
    (hfield : route.actorField = some field) (h : Hist) :
    Ensures (ActCall route req) (fun _ _ => True) (route.authorized cfg req) h := by
  unfold Route.authorized
  rw [auth_of_actorField hnetwork hfield]
  refine signatureAuth_acts ?_ h
  exact only_serve (speaks_handler hnetwork hfield) (fun _ => speaks_of_quiet rfl)
    (speaks_of_quiet rfl) (fun _ => speaks_of_quiet rfl) fun _ => speaks_of_quiet rfl

theorem listingFee_acts {next : Js Unit}
    (hnext : ∀ h, Ensures (ActCall route req) (fun _ _ => True) next h) (h : Hist) :
    Ensures (ActCall route req) (fun _ _ => True) (listingFee cfg req next) h := by
  unfold listingFee
  rw [ensures_call_bind]
  refine ⟨quiet_call rfl, fun now => ?_, fun _ => trivial⟩
  split
  · exact quiet_calls (.call rfl) _
  split
  · trivial
  dsimp only
  rw [ensures_call_bind]
  refine ⟨quiet_call rfl, ?_, fun _ => trivial⟩
  rintro (_ | response)
  · exact hnext _
  · exact quiet_calls (.call rfl) _

theorem run_acts (hnetwork : cfg.configLocal = false) {field : String}
    (hfield : route.actorField = some field) :
    Ensures (ActCall route req) (fun _ _ => True) (route.run cfg req) [] := by
  have hadmin : route.admin = false := by
    cases route <;> first | rfl | cases hfield
  unfold Route.run
  rw [ensures_attempt_bind, if_neg (by simp [hadmin])]
  refine Ensures.mono (Q := fun _ _ => True) ?_ (fun _ _ hc => hc) ?_
  · split_ifs
    · exact listingFee_acts (authorized_acts hnetwork hfield) []
    · exact authorized_acts hnetwork hfield []
  · rintro h (e | ⟨⟩) -
    · exact quiet_calls (.call rfl) h
    · trivial

end

/-- What a request off the local network may call. -/
def Job.Acts (j : Job) (h : Hist) (o : Op) : Prop :=
  ∀ cfg route req field, j = .request cfg route req → cfg.configLocal = false →
    route.actorField = some field → ActCall route req h o

theorem body_acts (j : Job) : Follows j.Acts (fun _ _ => True) (api.body j) [] := by
  by_cases hj : ∃ cfg route req field, j = .request cfg route req ∧ cfg.configLocal = false ∧
      route.actorField = some field
  · obtain ⟨cfg, route, req, field, rfl, hnetwork, hfield⟩ := hj
    refine (toEnd_follows (run_acts hnetwork hfield)).mono ?_ fun _ _ hq => hq
    rintro h o hc cfg' route' req' field' ⟨⟩ - -
    exact hc
  · refine (body_follows j).mono ?_ fun _ _ hq => hq
    intro h o _ cfg route req field heq hnetwork hfield
    exact absurd ⟨cfg, route, req, field, heq, hnetwork, hfield⟩ hj

/-- The request's body speaks for `key`, which the operation names, and `key` signed the request,
which `signatureAuth` let through before. -/
structure ActsAs (cfg : Settings) (route : Route) (req : Request) (past : Hist) (o : Op)
    (field key : String) : Prop where
  body : req.bodyString field = some key
  names : ∀ named ∈ route.names o, named = key
  header : req.publicKey = key
  signed : cfg.verify key (cfg.signedPayload req) (cfg.parseSignature req.signature) = .ok true
  through : ⟨.next .signatureAuth, .ok ()⟩ ∈ past

/-- **Nobody acts under another key**, in every run: whatever a controller off the local network
changes, escrows or announces is for the key that signed the request. -/
theorem nobody_acts_for_another (s : Store) (sched : List (Act Job Outcome)) (pid : Nat)
    (cfg : Settings) (route : Route) (req : Request) (field : String) (o : Op) (r : Reply o)
    (earlier : Trace Op Reply)
    (hjob : (runSched api (.initial s) sched).jobOf pid = some (.request cfg route req))
    (hnetwork : cfg.configLocal = false) (hnodeEnv : cfg.nodeEnvTest = false)
    (hfield : route.actorField = some field)
    (hcall : ⟨pid, o, r⟩ :: earlier <:+ (runSched api (.initial s) sched).trace)
    (hacts : o.acts = true) :
    ∃ key, ActsAs cfg route req (own pid earlier) o field key := by
  have hcalls := runSched_explained (Q := fun _ _ => True ∧ True) s sched (meets_any _ _ _)
    fun j _ => (body_follows j).and (body_acts j)
  generalize runSched api (.initial s) sched = c at hjob hcall hcalls
  obtain ⟨j, hj, -, -, hact⟩ := hcalls.at hcall
  rw [hjob] at hj
  cases hj
  obtain ⟨⟨field', key, hfield', hbody, hnames⟩, hnext⟩ :=
    hact cfg route req field rfl hnetwork hfield hacts
  rw [hfield] at hfield'
  cases hfield'
  -- the request was let through, so it had been checked
  have hchecked : ∃ now, Checked cfg { matchBodyField := some field } req now := by
    obtain ⟨newer, earlier', ht⟩ := List.append_of_mem (mem_own.mp hnext)
    have hsuffix : ⟨pid, .next .signatureAuth, .ok ()⟩ :: earlier' <:+ c.trace :=
      List.IsSuffix.trans ⟨newer, ht.symm⟩ ((List.suffix_cons _ _).trans hcall)
    obtain ⟨j, hj, -, hc, -⟩ := hcalls.at hsuffix
    rw [hjob] at hj
    cases hj
    obtain ⟨options, hauth, hpass⟩ := hc.passes
    rw [auth_of_actorField hnetwork hfield] at hauth
    cases hauth
    rcases hpass with hb | ⟨now, h', checked, -⟩
    · have hlocal : cfg.networkLocal = false := (Bool.or_eq_false_iff.mp hnetwork).1
      simp [SignatureAuthOptions.bypassed, hlocal, hnodeEnv] at hb
    · exact ⟨now, checked⟩
  obtain ⟨now, checked⟩ := hchecked
  have hkey : req.publicKey = key := by
    have hmatch := checked.match_
    rw [SignatureAuthOptions.mismatch, Option.filter_some, hbody] at hmatch
    by_contra hne
    simp [Ne.symm hne] at hmatch
  exact ⟨key, hbody, hnames, hkey, hkey ▸ checked.signed, hnext⟩

/-- A registration, signed at the time 5 with the nonce `n`. -/
def signedRegistration : Request where
  method := "POST"
  method_known := post_known
  originalUrl := "/executors/register"
  ip := ""
  headers := [("x-tg-public-key", smokeKey), ("x-tg-timestamp", "5"), ("x-tg-nonce", "n"),
    ("x-tg-signature", "POST\n/executors/register\n5\nn\n7b7d"), ("idempotency-key", "k")]
  rawBody := some (bufferOf "{}")
  body := some (.obj [("publicKey", .str smokeKey), ("metadataUri", .str "u")])
  rawBody_of_body := fun _ => rfl

def registerSigned : List (Act Job Outcome) :=
  [.spawn (.request clientNonceSettings .register signedRegistration)] ++ goOn 0 12

theorem registerSigned_job : (runSched api (.initial emptyStore) registerSigned).jobOf 0 =
    some (.request clientNonceSettings .register signedRegistration) := by
  unfold registerSigned
  rw [runSched_append]
  exact jobOf_runSched _ _ rfl

/-- The first process saves an executor in this call. -/
def savesExecutor : Call Op Reply → Bool
  | ⟨p, .saveExecutor record, .ok ()⟩ => p = 0 && record.publicKey = smokeKey
  | _ => false

theorem registerSigned_acts : ∃ o past, Route.names .register o = some smokeKey ∧
    ActsAs clientNonceSettings .register signedRegistration past o "publicKey" smokeKey := by
  have hsaves : (runSched api (.initial emptyStore) registerSigned).trace.any savesExecutor =
      true := by decide +kernel
  obtain ⟨call, hmem, hcall⟩ := List.any_eq_true.mp hsaves
  unfold savesExecutor at hcall
  split at hcall
  case h_2 => cases hcall
  rename_i p record
  simp only [Bool.and_eq_true, decide_eq_true_eq] at hcall
  obtain ⟨rfl, hrecord⟩ := hcall
  obtain ⟨newer, earlier, ht⟩ := List.append_of_mem hmem
  obtain ⟨key, hacts⟩ := nobody_acts_for_another emptyStore registerSigned 0 clientNonceSettings
    .register signedRegistration "publicKey" (.saveExecutor record) (.ok ()) earlier
    registerSigned_job rfl rfl rfl ⟨newer, ht.symm⟩ rfl
  have hkey : record.publicKey = key := hacts.names record.publicKey rfl
  have hsame : key = smokeKey := hkey.symm.trans hrecord
  exact ⟨.saveExecutor record, own 0 earlier, congrArg some hrecord, hsame ▸ hacts⟩

end TrustGate.Api
