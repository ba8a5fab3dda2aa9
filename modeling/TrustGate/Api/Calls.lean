import TrustGate.Api.Routes
import TrustGate.Lib.Upkeep

set_option autoImplicit false

/-! # What a request asks of the nonce store

`AuthCall` and `IssueCall` list what a signed request and a nonce request do with nonces, each call
with what the process was replied before it. Everything else that the API does is `plain`.
`body_follows` says that the lists are complete. -/

namespace TrustGate.Api

open Market Resumption

/-- What a process has called so far and been replied, newest first. -/
abbrev Hist := Past Op Reply

/-- The failure counters and the counter of issued nonces. -/
def isCounterKey (key : String) : Bool := "tg:auth".toList.isPrefixOf key.toList

/-- An operation that has nothing to do with nonces. -/
def Op.plain : Op → Bool
  | .getDel _ => false
  | .setNx _ _ _ => false
  | .next .signatureAuth => false
  | .incr key => isCounterKey key
  | .expire key _ => isCounterKey key
  | _ => true

/-- Only counters are counted. -/
def Op.countsOnly : Op → Bool
  | .incr key => isCounterKey key
  | .expire key _ => isCounterKey key
  | _ => true

theorem Op.countsOnly_of_plain {o : Op} (ho : o.plain = true) : o.countsOnly = true := by
  cases o with
  | incr key => exact ho
  | expire key seconds => exact ho
  | _ => rfl

/-- A past without nonces. -/
def Clean (h : Hist) : Prop := ∀ d ∈ h, d.op.plain = true

theorem Clean.cons {h : Hist} (hc : Clean h) {d : Done Op Reply} (hd : d.op.plain = true) :
    Clean (d :: h) := by
  rintro d' (_ | ⟨_, hd'⟩)
  · exact hd
  · exact hc d' hd'

/-- The request, checked at the time `now`, passes every check of `signatureAuth` before the nonce
step. -/
structure Checked (cfg : Settings) (options : SignatureAuthOptions) (req : Request) (now : Nat) :
    Prop where
  headers : req.publicKey ≠ "" ∧ req.timestamp ≠ "" ∧ req.nonce ≠ "" ∧ req.signature ≠ ""
  inWindow : ∃ timestamp, cfg.number req.timestamp = some timestamp ∧
    |(now : Rat) - timestamp| ≤ allowedWindow
  match_ : options.mismatch req = none
  key : cfg.fromPublicKey req.publicKey = true
  signed : cfg.verify req.publicKey (cfg.signedPayload req) (cfg.parseSignature req.signature) =
    .ok true

/-- The request was checked at the time `now`, and Redis is there. -/
def arrived (now : Nat) (h : Hist) : Hist :=
  ⟨.getRedisClient, .ok ()⟩ :: ⟨.market .dateNow, .ok now⟩ :: h

/-- The server's nonce was taken out of the store, with this reply. -/
def tookNonce (req : Request) (stored : Option String) (h : Hist) : Hist :=
  ⟨.getDel (serverNonceKey req.publicKey req.nonce), .ok stored⟩ :: h

/-- The client's nonce was not in use. -/
def setNonce (options : SignatureAuthOptions) (req : Request) (h : Hist) : Hist :=
  ⟨.setNx (legacyNonceKey req.publicKey req.nonce) "1" options.nonceTtlSeconds, .ok true⟩ :: h

inductive AuthCall (cfg : Settings) (options : SignatureAuthOptions) (req : Request) :
    Hist → Op → Prop
  | plain (h : Hist) (o : Op) (ho : o.plain = true) : AuthCall cfg options req h o
  | bypass (h : Hist) (hb : options.bypassed cfg = true) :
      AuthCall cfg options req h (.next .signatureAuth)
  | take (h : Hist) (clean : Clean h) (now : Nat) (checked : Checked cfg options req now) :
      AuthCall cfg options req (arrived now h) (.getDel (serverNonceKey req.publicKey req.nonce))
  | taken (h : Hist) (clean : Clean h) (now : Nat) (checked : Checked cfg options req now) :
      AuthCall cfg options req (tookNonce req (some req.timestamp) (arrived now h))
        (.next .signatureAuth)
  | legacy (h : Hist) (clean : Clean h) (now : Nat) (checked : Checked cfg options req now)
      (allow : cfg.allowClientNonce = true) :
      AuthCall cfg options req (tookNonce req none (arrived now h))
        (.setNx (legacyNonceKey req.publicKey req.nonce) "1" options.nonceTtlSeconds)
  | set (h : Hist) (clean : Clean h) (now : Nat) (checked : Checked cfg options req now)
      (allow : cfg.allowClientNonce = true) :
      AuthCall cfg options req (setNonce options req (tookNonce req none (arrived now h)))
        (.next .signatureAuth)

inductive IssueCall (cfg : Settings) (req : Request) : Hist → Op → Prop
  | plain (h : Hist) (o : Op) (ho : o.plain = true) : IssueCall cfg req h o
  | issue (h : Hist) (clean : Clean h) (timestamp : Nat) (nonce : String)
      (key : cfg.fromPublicKey (noncePublicKey req) = true) :
      IssueCall cfg req
        (⟨.market .randomUUID, .ok nonce⟩ :: ⟨.market .dateNow, .ok timestamp⟩ :: h)
        (.setNx (serverNonceKey (noncePublicKey req) nonce) (toString timestamp) 600)

/-! ## Handlers -/

/-- What handlers do: the work of the services, and keeping the executors. -/
def Op.serves : Op → Bool
  | .registerExecutor _ _ => true
  | .saveExecutor _ => true
  | .market _ => true
  | _ => false

abbrev Serves {α : Type} (x : Js α) : Prop := Only (fun o => o.serves = true) x

theorem liftProg_only {α : Type} {T : Op → Prop} {p : Prog Market.Op Market.Reply α}
    {past : Past Market.Op Market.Reply}
    (hp : Follows (fun _ o => T (.market o)) (fun _ _ => True) p past) (h : Hist) :
    Follows (fun _ o => T o) (fun _ _ => True) (liftProg p) h := by
  induction p generalizing past h with
  | ret a => trivial
  | await o k ih => exact ⟨hp.1, fun r => ih r (hp.2 r) _⟩

/-- A program of the services, seen from the API. -/
theorem only_lift {α : Type} {T : Op → Prop} {x : Market.Js α}
    (hx : Only (fun o => T (.market o)) x) : Only T (lift x) :=
  fun h => liftProg_only (hx []) h

/-- What the services have called, as the API sees it. -/
def lifted (past : Past Market.Op Market.Reply) : Hist := past.map fun d => ⟨.market d.op, d.reply⟩

theorem liftProg_follows {α : Type} {P' : Past Market.Op Market.Reply → Market.Op → Prop}
    {P : Hist → Op → Prop} {p : Prog Market.Op Market.Reply α} {past : Past Market.Op Market.Reply}
    {h : Hist} (hp : Follows P' (fun _ _ => True) p past)
    (hP : ∀ past o, P' past o → P (lifted past ++ h) (.market o)) :
    Follows P (fun _ _ => True) (liftProg p) (lifted past ++ h) := by
  induction p generalizing past with
  | ret a => trivial
  | await o k ih => exact ⟨hP past o hp.1, fun r => ih r (hp.2 r)⟩

/-- What explains a program of the services explains it wherever the API runs it. -/
theorem throughout_lift {α : Type} {P' : Past Market.Op Market.Reply → Market.Op → Prop}
    {P : Hist → Op → Prop} {x : Market.Js α} (hx : Ensures P' (fun _ _ => True) x [])
    (hP : ∀ past h o, P' past o → P (lifted past ++ h) (.market o)) : Throughout P (lift x) :=
  fun h => liftProg_follows hx fun past o => hP past h o

theorem liftProg_serves {α : Type} (p : Prog Market.Op Market.Reply α) (h : Hist) :
    Follows (fun _ o => o.serves = true) (fun _ _ => True) (liftProg p) h := by
  induction p generalizing h with
  | ret a => trivial
  | await o k ih => exact ⟨rfl, fun r => ih r _⟩

theorem serves_lift {α : Type} (x : Market.Js α) : Serves (lift x) :=
  fun h => liftProg_serves x.run h

theorem serves_await {o : Op} (ho : o.serves = true) : Serves (await o) := .call ho

theorem serves_saveRegistered (publicKey metadataUri : String) :
    Serves (saveRegistered publicKey metadataUri) :=
  .bind (.call rfl) fun _ => .bind (.call rfl) fun _ => .pure _

theorem serves_register (cfg : Settings) (req : Request) : Serves (register cfg req) := by
  unfold register
  split_ifs
  · split
    · split_ifs
      · split
        · exact .pure _
        · refine .bind (serves_await rfl).attempt fun registered => ?_
          split
          · exact .pure _
          · exact serves_saveRegistered _ _
      · exact .pure _
    · exact .pure _
  · split
    · split_ifs
      · refine .bind (.call rfl) fun registered => ?_
        split_ifs
        · exact serves_saveRegistered _ _
        · exact .pure _
      · exact .pure _
    · exact .pure _

theorem serves_handler (cfg : Settings) (req : Request) (route : Route) :
    Serves (route.handler cfg req) := by
  cases route with
  | signedSmoke => exact .pure _
  | register => exact serves_register cfg req
  | tasks =>
      refine .bind (.call rfl) fun now => ?_
      split_ifs
      · exact serves_lift _
      · exact serves_lift _
  | select taskId => exact serves_lift _
  | complete taskId => exact serves_lift _
  | bids => exact serves_lift _
  | timeoutCheck =>
      refine .bind (serves_lift _).attempt fun expired => ?_
      split
      · exact .pure _
      · exact .pure _
  | publishResult taskId => exact serves_lift _

/-! ## Middlewares of one class -/

theorem isCounterKey_append {kind rest : String} (h : isCounterKey kind = true) :
    isCounterKey (kind ++ rest) = true := by
  unfold isCounterKey at *
  rw [List.isPrefixOf_iff_prefix] at *
  rw [String.toList_append]
  exact h.trans (List.prefix_append _ _)

section

variable {T : Op → Prop}

theorem only_incrWithTtl {key : String} {ttlSeconds : Nat} (hincr : T (.incr key))
    (hexpire : T (.expire key ttlSeconds)) : Only T (incrWithTtl key ttlSeconds) := by
  refine .bind (.call hincr) fun count => ?_
  split_ifs
  · exact .bind (.call hexpire) fun _ => .pure _
  · exact .pure _

theorem only_countFailure {keyPrefix name : String} (hcounter : isCounterKey keyPrefix = true)
    (hincr : ∀ key, isCounterKey key = true → T (.incr key))
    (hexpire : ∀ key seconds, isCounterKey key = true → T (.expire key seconds)) :
    Only T (countFailure keyPrefix name) := by
  unfold countFailure
  split_ifs
  · exact .pure _
  · exact only_incrWithTtl (hincr _ (isCounterKey_append hcounter))
      (hexpire _ _ (isCounterKey_append hcounter))

theorem only_authFailLimited (hredis : T .getRedisClient)
    (hincr : ∀ key, isCounterKey key = true → T (.incr key))
    (hexpire : ∀ key seconds, isCounterKey key = true → T (.expire key seconds))
    (ip publicKey : String) : Only T (authFailLimited ip publicKey) :=
  .bind (.call hredis) fun _ => .bind (only_countFailure (by decide) hincr hexpire) fun _ =>
    .bind (only_countFailure (by decide) hincr hexpire) fun _ => .pure _

theorem only_fail (hredis : T .getRedisClient)
    (hincr : ∀ key, isCounterKey key = true → T (.incr key))
    (hexpire : ∀ key seconds, isCounterKey key = true → T (.expire key seconds))
    (hjson : ∀ response, T (.json response)) (ip publicKey error : String) :
    Only T (fail ip publicKey error) := by
  refine .bind (only_authFailLimited hredis hincr hexpire ip publicKey).attempt fun limited => ?_
  split
  · exact .call (hjson _)
  · exact .call (hjson _)

variable {P : Hist → Op → Prop}

theorem throughout_runHandler {handler : Js Response} (hh : Throughout P handler) :
    Throughout P (runHandler handler) := by
  refine .bind hh.attempt fun answer => ?_
  split
  · exact .pure _
  · exact .pure _

theorem throughout_idempotency {handler : Js Response} (hh : Throughout P handler)
    (hfind : ∀ h key, P h (.findRecord key)) (hnext : ∀ h, P h (.next .idempotency))
    (hjson : ∀ h response, P h (.json response)) (hinsert : ∀ h record, P h (.insertRecord record))
    (cfg : Settings) (options : IdempotencyOptions) (req : Request) :
    Throughout P (idempotency cfg options req handler) := by
  have hjson response : Throughout P (respond response) := .call fun h => hjson h response
  have hhandler := throughout_runHandler hh
  unfold idempotency
  split_ifs
  · exact hjson _
  · exact .bind (.call hnext) fun _ => .bind hhandler fun _ => hjson _
  · refine .bind (.call fun h => hfind h _) fun existing => ?_
    split
    · exact hjson _
    · refine .bind (.call hnext) fun _ => .bind hhandler fun response => ?_
      refine .bind (hjson _) fun _ => ?_
      split_ifs
      · exact .pure _
      · exact .bind (Throughout.call fun h => hinsert h _).attempt fun _ => .pure _

theorem throughout_serve {cfg : Settings} {req : Request} {route : Route}
    (hh : Throughout P (route.handler cfg req)) (hfind : ∀ h key, P h (.findRecord key))
    (hnext : ∀ h, P h (.next .idempotency)) (hjson : ∀ h response, P h (.json response))
    (hinsert : ∀ h record, P h (.insertRecord record)) : Throughout P (route.serve cfg req) := by
  unfold Route.serve
  split
  · exact throughout_idempotency hh hfind hnext hjson hinsert _ _ _
  · exact .bind (throughout_runHandler hh) fun _ => .call fun h => hjson h _

theorem only_runHandler {handler : Js Response} (hh : Only T handler) :
    Only T (runHandler handler) := throughout_runHandler (P := fun _ o => T o) hh

theorem only_serve {cfg : Settings} {req : Request} {route : Route}
    (hh : Only T (route.handler cfg req)) (hfind : ∀ key, T (.findRecord key))
    (hnext : T (.next .idempotency)) (hjson : ∀ response, T (.json response))
    (hinsert : ∀ record, T (.insertRecord record)) : Only T (route.serve cfg req) :=
  throughout_serve (P := fun _ o => T o) hh (fun _ => hfind) (fun _ => hnext) (fun _ => hjson)
    fun _ => hinsert

end

/-! ## Middlewares that keep a condition -/

/-- What `signatureAuth` calls itself, apart from `fail`. -/
inductive AuthStep (options : SignatureAuthOptions) (req : Request) : Op → Prop
  | now : AuthStep options req (.market .dateNow)
  | redis : AuthStep options req .getRedisClient
  | server : AuthStep options req (.getDel (serverNonceKey req.publicKey req.nonce))
  | legacy : AuthStep options req
      (.setNx (legacyNonceKey req.publicKey req.nonce) "1" options.nonceTtlSeconds)
  | next : AuthStep options req (.next .signatureAuth)
  | json (response : Response) : AuthStep options req (.json response)

theorem upkeep_signatureAuth {P : Hist → Op → Prop} {S : Hist → Prop} {cfg : Settings}
    {options : SignatureAuthOptions} {req : Request} {next : Js Unit}
    (hstep : ∀ o, AuthStep options req o → Upkeep P S (await o))
    (hfail : ∀ error, Upkeep P S (fail req.ip req.publicKey error)) (hnext : Upkeep P S next) :
    Upkeep P S (signatureAuth cfg options req next) := by
  have hgo : Upkeep P S (do await (.next .signatureAuth); next) :=
    .bind (hstep _ .next) fun _ => hnext
  have hconsume : Upkeep P S (consumeNonce cfg options req next) := by
    unfold consumeNonce
    refine .bind (hstep _ .redis).attempt fun client => ?_
    cases client with
    | error e => exact hstep _ (.json _)
    | ok _ =>
        refine .bind (hstep _ .server) fun stored => ?_
        cases stored with
        | some serverNonceTimestamp =>
            dsimp only
            split_ifs
            · exact hfail _
            · exact hgo
        | none =>
            dsimp only
            split_ifs
            · refine .bind (hstep _ .legacy) fun nonceSet => ?_
              split_ifs
              · exact hgo
              · exact hfail _
            · exact hfail _
  unfold signatureAuth
  split_ifs
  · exact hgo
  · exact hfail _
  · exact hgo
  split
  · exact hfail _
  refine .bind (hstep _ .now) fun now => ?_
  split_ifs
  · exact hfail _
  unfold checkSignature
  split
  · exact hfail _
  split_ifs
  · split
    · exact .throw _
    · exact hfail _
    · exact hconsume
  · exact hfail _

/-! ## Plain programs -/

/-- The program has nothing to do with nonces. -/
abbrev Plain {α : Type} (x : Js α) : Prop := Only (fun o => o.plain = true) x

theorem Op.plain_of_serves {o : Op} (ho : o.serves = true) : o.plain = true := by
  cases o with
  | market o => rfl
  | registerExecutor secret metadataUri => rfl
  | saveExecutor record => rfl
  | _ => cases ho

theorem plain_respond (response : Response) : Plain (respond response) := .call rfl

theorem plain_fail (ip publicKey error : String) : Plain (fail ip publicKey error) :=
  only_fail (T := fun o => o.plain = true) rfl (fun _ h => h) (fun _ _ h => h) (fun _ => rfl)
    ip publicKey error

theorem plain_handler (cfg : Settings) (req : Request) (route : Route) :
    Plain (route.handler cfg req) :=
  (serves_handler cfg req route).mono fun _ => Op.plain_of_serves

theorem plain_errorHandler (r : Except JsError Unit) : Plain (errorHandler r) := by
  cases r with
  | error e => exact plain_respond _
  | ok _ => exact .pure _

theorem plain_serve (cfg : Settings) (req : Request) (route : Route) :
    Plain (route.serve cfg req) :=
  only_serve (plain_handler cfg req route) (fun _ => rfl) rfl (fun _ => rfl) fun _ => rfl

/-! ## signatureAuth -/

section

variable {cfg : Settings} {options : SignatureAuthOptions} {req : Request} {next : Js Unit}

/-- A plain program explains itself, whatever came before. -/
theorem Only.auth {α : Type} {x : Js α} (hx : Plain x) (h : Hist) :
    Ensures (AuthCall cfg options req) (fun _ _ => True) x h :=
  hx.ensures (fun l o _ ho => .plain (l ++ h) o ho) fun _ _ _ => trivial

theorem fail_calls (error : String) (h : Hist) :
    Ensures (AuthCall cfg options req) (fun _ _ => True) (fail req.ip req.publicKey error) h :=
  Only.auth (plain_fail _ _ _) h

theorem consumeNonce_calls (hnext : Plain next) {h : Hist} (clean : Clean h) (now : Nat)
    (checked : Checked cfg options req now) :
    Ensures (AuthCall cfg options req) (fun _ _ => True) (consumeNonce cfg options req next)
      (⟨.market .dateNow, .ok now⟩ :: h) := by
  unfold consumeNonce
  rw [ensures_attempt_call_bind]
  refine ⟨.plain _ _ rfl, ?_⟩
  rintro (e | ⟨⟩)
  · exact Only.auth (plain_respond _) _
  dsimp only
  rw [ensures_call_bind]
  refine ⟨.take h clean now checked, ?_, fun _ => trivial⟩
  rintro (_ | stored)
  · dsimp only
    by_cases allow : cfg.allowClientNonce = true
    · rw [if_pos allow, ensures_call_bind]
      refine ⟨.legacy h clean now checked allow, ?_, fun _ => trivial⟩
      rintro (_ | _)
      · exact fail_calls _ _
      · rw [if_neg (by simp), ensures_call_bind]
        exact ⟨.set h clean now checked allow, fun _ => Only.auth hnext _, fun _ => trivial⟩
    · rw [if_neg allow]
      exact fail_calls _ _
  · dsimp only
    by_cases heq : stored = req.timestamp
    · subst heq
      rw [if_neg (by simp), ensures_call_bind]
      exact ⟨.taken h clean now checked, fun _ => Only.auth hnext _, fun _ => trivial⟩
    · rw [if_pos heq]
      exact fail_calls _ _

theorem signatureAuth_calls (hrequired : options.required = true) (hnext : Plain next) {h : Hist}
    (clean : Clean h) :
    Ensures (AuthCall cfg options req) (fun _ _ => True)
      (signatureAuth cfg options req next) h := by
  unfold signatureAuth
  by_cases hb : options.bypassed cfg = true
  · rw [if_pos hb, ensures_call_bind]
    exact ⟨.bypass h hb, fun _ => Only.auth hnext _, fun _ => trivial⟩
  rw [if_neg hb]
  by_cases hheaders : req.publicKey = "" ∨ req.timestamp = "" ∨ req.nonce = "" ∨ req.signature = ""
  · rw [if_pos hheaders, if_pos hrequired]
    exact fail_calls _ _
  rw [if_neg hheaders]
  cases hts : cfg.number req.timestamp with
  | none => exact fail_calls _ _
  | some timestamp =>
      dsimp only
      rw [ensures_call_bind]
      refine ⟨.plain _ _ rfl, fun now => ?_, fun _ => trivial⟩
      by_cases hwindow : allowedWindow < |((now : Nat) : Rat) - timestamp|
      · rw [if_pos hwindow]
        exact fail_calls _ _
      rw [if_neg hwindow]
      unfold checkSignature
      cases hmatch : options.mismatch req with
      | some field => exact fail_calls _ _
      | none =>
          dsimp only
          by_cases hkey : cfg.fromPublicKey req.publicKey = true
          · rw [if_neg (not_not.mpr hkey)]
            match hsigned : cfg.verify req.publicKey (cfg.signedPayload req)
                (cfg.parseSignature req.signature) with
            | .error e => trivial
            | .ok false => exact fail_calls _ _
            | .ok true =>
                refine consumeNonce_calls hnext clean now ?_
                have hpresent := not_or.mp hheaders
                exact {
                  headers := by tauto
                  inWindow := ⟨timestamp, hts, not_lt.mp hwindow⟩
                  match_ := hmatch
                  key := hkey
                  signed := hsigned }
          · rw [if_pos hkey]
            exact fail_calls _ _

end

/-! ## issueNonce -/

theorem issueNonce_calls (cfg : Settings) (req : Request) :
    Ensures (IssueCall cfg req) (fun _ _ => True) (issueNonce cfg req) [] := by
  have hplain {α : Type} {x : Js α} (hx : Plain x) (h : Hist) :
      Ensures (IssueCall cfg req) (fun _ _ => True) x h :=
    hx.ensures (fun l o _ ho => .plain (l ++ h) o ho) fun _ _ _ => trivial
  unfold issueNonce
  dsimp only
  by_cases hempty : noncePublicKey req = ""
  · rw [if_pos hempty]
    exact hplain (plain_respond _) _
  rw [if_neg hempty]
  by_cases hkey : cfg.fromPublicKey (noncePublicKey req) = true
  swap
  · rw [if_pos hkey]
    exact hplain (plain_respond _) _
  rw [if_neg (not_not.mpr hkey), ensures_call_bind]
  refine ⟨.plain _ _ rfl, fun _ => ?_, fun _ => trivial⟩
  have hcount : Plain (incrWithTtl ("tg:authnonce:ip:" ++ req.ip) 60) :=
    only_incrWithTtl (isCounterKey_append (by decide)) (isCounterKey_append (by decide))
  rw [ensures_bind]
  refine hcount.ensures (fun l o _ ho => .plain _ o ho) ?_
  rintro l (e | ipCount) hl
  · trivial
  have clean : Clean (l ++ [⟨.getRedisClient, .ok ()⟩]) := by
    intro d hd
    rcases List.mem_append.mp hd with hd | hd
    · exact hl d hd
    · rw [List.mem_singleton.mp hd]
      rfl
  generalize l ++ [(⟨.getRedisClient, .ok ()⟩ : Done Op Reply)] = h at clean ⊢
  dsimp only
  by_cases hlimit : 60 < ipCount
  · rw [if_pos hlimit]
    exact hplain (plain_respond _) _
  rw [if_neg hlimit, ensures_call_bind]
  refine ⟨.plain _ _ rfl, fun timestamp => ?_, fun _ => trivial⟩
  rw [ensures_call_bind]
  refine ⟨.plain _ _ rfl, fun nonce => ?_, fun _ => trivial⟩
  rw [ensures_call_bind]
  refine ⟨.issue h clean timestamp nonce hkey, fun ok => ?_, fun _ => trivial⟩
  split_ifs
  · exact hplain (plain_respond _) _
  · exact hplain (plain_respond _) _

/-! ## All processes -/

/-- What a process may call after a past. -/
def Job.Calls : Job → Hist → Op → Prop
  | .issueNonce cfg req, h, o => IssueCall cfg req h o
  | .request cfg route req, h, o =>
      o.plain = true ∨ ∃ options ∈ route.auth cfg, AuthCall cfg options req h o
  | .service _, _, o => o.plain = true

theorem AuthCall.countsOnly {cfg : Settings} {options : SignatureAuthOptions} {req : Request}
    {h : Hist} {o : Op} (hc : AuthCall cfg options req h o) : o.countsOnly = true := by
  cases hc with
  | plain _ _ ho => exact Op.countsOnly_of_plain ho
  | _ => rfl

theorem Job.Calls.countsOnly {j : Job} {h : Hist} {o : Op} (hc : j.Calls h o) :
    o.countsOnly = true := by
  cases j with
  | issueNonce cfg req =>
      cases hc with
      | plain _ _ ho => exact Op.countsOnly_of_plain ho
      | issue => rfl
  | request cfg route req =>
      rcases hc with ho | ⟨options, -, hc⟩
      · exact Op.countsOnly_of_plain ho
      · exact hc.countsOnly
  | service job => exact Op.countsOnly_of_plain hc

/-- Every signed route asks for the headers and keeps client nonces for ten minutes. -/
theorem auth_defaults {cfg : Settings} {route : Route} {options : SignatureAuthOptions}
    (h : options ∈ route.auth cfg) : options.required = true ∧ options.nonceTtlSeconds = 600 := by
  cases route with
  | tasks =>
      unfold Route.auth at h
      split_ifs at h
      · cases h
      · cases h
        exact ⟨rfl, rfl⟩
  | select taskId => cases h
  | timeoutCheck => cases h
  | signedSmoke => cases h; exact ⟨rfl, rfl⟩
  | register => cases h; exact ⟨rfl, rfl⟩
  | complete taskId => cases h; exact ⟨rfl, rfl⟩
  | bids => cases h; exact ⟨rfl, rfl⟩
  | publishResult taskId => cases h; exact ⟨rfl, rfl⟩

section

variable {cfg : Settings} {route : Route} {req : Request}

theorem Only.request {α : Type} {x : Js α} (hx : Plain x) (h : Hist) :
    Ensures (Job.Calls (.request cfg route req)) (fun _ _ => True) x h :=
  hx.ensures (fun _ _ _ ho => .inl ho) fun _ _ _ => trivial

theorem authorized_calls {h : Hist} (clean : Clean h) :
    Ensures (Job.Calls (.request cfg route req)) (fun _ _ => True)
      (route.authorized cfg req) h := by
  unfold Route.authorized
  cases hauth : route.auth cfg with
  | none => exact Only.request (plain_serve _ _ _) _
  | some options =>
      have hauth' : options ∈ route.auth cfg := hauth
      refine (signatureAuth_calls (auth_defaults hauth').1 (plain_serve _ _ _) clean).mono ?_
        fun _ _ _ => trivial
      exact fun _ _ hc => .inr ⟨options, hauth', hc⟩

theorem run_calls :
    Ensures (Job.Calls (.request cfg route req)) (fun _ _ => True) (route.run cfg req) [] := by
  have clean : Clean [] := fun _ hd => nomatch hd
  unfold Route.run
  rw [ensures_attempt_bind]
  refine Ensures.mono (Q := fun _ _ => True) ?_ (fun _ _ hc => hc)
    fun h r _ => Only.request (plain_errorHandler r) h
  by_cases hadmin : route.admin = true
  · rw [if_pos hadmin]
    unfold adminAuth
    dsimp only
    split_ifs
    · exact Only.request (plain_respond _) _
    · exact authorized_calls clean
  rw [if_neg hadmin]
  by_cases hfee : route = .tasks ∧ ¬ cfg.configLocal = true
  swap
  · rw [if_neg hfee]
    exact authorized_calls clean
  rw [if_pos hfee]
  unfold listingFee
  rw [ensures_call_bind]
  refine ⟨.inl rfl, fun now => ?_, fun _ => trivial⟩
  cases parseCreateTask cfg (createTaskSchema cfg now) req.body with
  | error detail => exact Only.request (plain_respond _) _
  | ok b =>
      dsimp only
      cases parseUsdcDecimalToStroops b.reservePrice with
      | error e => trivial
      | ok reservePriceStroops =>
          dsimp only
          rw [ensures_call_bind]
          refine ⟨.inl rfl, ?_, fun _ => trivial⟩
          rintro (_ | response)
          · exact authorized_calls ((clean.cons rfl).cons rfl)
          · exact Only.request (plain_respond _) _

end

theorem toEnd_follows {P : Hist → Op → Prop} {Q : Hist → Prop} {x : Js Unit} {h : Hist}
    (hx : Ensures P (fun h _ => Q h) x h) : Follows P (fun h _ => Q h) (toEnd x) h :=
  (follows_bind _ _ _).mpr (Follows.mono (fun _ _ hp => hp) (fun _ _ hq => hq) hx)

/-- **Every program of the API is accounted for.** -/
theorem body_follows (j : Job) : Follows j.Calls (fun _ _ => True) (api.body j) [] := by
  cases j with
  | issueNonce cfg req =>
      refine toEnd_follows ?_
      unfold runIssueNonce
      rw [ensures_attempt_bind]
      refine (issueNonce_calls cfg req).mono (fun _ _ hc => hc) fun h r _ => ?_
      exact (plain_errorHandler r).ensures (fun _ _ _ ho => .plain _ _ ho) fun _ _ _ => trivial
  | request cfg route req => exact toEnd_follows run_calls
  | service job =>
      exact Follows.mono (fun _ _ => Op.plain_of_serves) (fun _ _ hq => hq) (liftProg_serves job.body [])

end TrustGate.Api
