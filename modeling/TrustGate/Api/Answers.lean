import TrustGate.Api.Calls

set_option autoImplicit false

/-! # How requests are answered

`AnswerCall` lists how a request looks its idempotency key up, comes to its handler, is answered
and leaves its record, each call with what the process was replied before it. Everything else that
a request does is `aside`. `body_answers` says that the list is complete. -/

namespace TrustGate.Api

open Market Resumption

/-- An operation that neither answers a request nor has to do with idempotency. -/
def Op.aside : Op → Bool
  | .findRecord _ => false
  | .insertRecord _ => false
  | .next .idempotency => false
  | .json _ => false
  | _ => true

/-- A past in which the request has neither been answered nor come to `idempotency`. -/
def Aside (h : Hist) : Prop := ∀ d ∈ h, d.op.aside = true

/-- No answer has gone out. -/
def Unanswered (h : Hist) : Prop := ∀ response, ⟨.json response, .ok ()⟩ ∉ h

/-- The last thing replied is not a record. -/
def Open (h : Hist) : Prop := ∀ key record, h.head? ≠ some ⟨.findRecord key, .ok (some record)⟩

/-- `idempotencyMw`, where the route has it. -/
def Route.idempotent (cfg : Settings) (route : Route) : Option IdempotencyOptions :=
  if cfg.hasOutbox then route.idempotency else none

/-- The request has come as far as its idempotency middleware. -/
structure Reached (cfg : Settings) (route : Route) (h : Hist) : Prop where
  aside : Aside h
  signed : ∀ auth ∈ route.auth cfg, ⟨.next .signatureAuth, .ok ()⟩ ∈ h

/-- The key was looked up, with this reply. -/
def lookedUp (req : Request) (existing : Option IdempotencyRecord) (h : Hist) : Hist :=
  ⟨.findRecord req.idempotencyKey, .ok existing⟩ :: h

/-- The key is new, and the handler was entered. -/
def entered (req : Request) (h : Hist) : Hist :=
  ⟨.next .idempotency, .ok ()⟩ :: lookedUp req none h

/-- What the middleware records of a request that was answered with `response`. -/
def recordOf (cfg : Settings) (options : IdempotencyOptions) (req : Request) (response : Response) :
    IdempotencyRecord where
  key := req.idempotencyKey
  scope := options.scope
  publicKey := options.publicKeyFrom.bind req.bodyString
  requestHash := cfg.requestHash req
  responseCode := response.status
  responseBody := response.body

/-- The answer to a request whose key is recorded in `existing`. -/
def replayOf (cfg : Settings) (options : IdempotencyOptions) (req : Request)
    (existing : IdempotencyRecord) : Response :=
  replay existing options.scope (options.publicKeyFrom.bind req.bodyString) (cfg.requestHash req)

/-- Why a request is answered without its key being looked up: its signature, its nonce or the
operator's secret is refused, it has no key, the route has no middleware, or the schema or the
payment gate in front of `POST /tasks` answers. -/
inductive Turned (cfg : Settings) (route : Route) (req : Request) (response : Response) : Prop
  | refused (h : response.status = 401 ∨ response.status = 429 ∨ response.status = 503)
  | keyless (h : req.idempotencyKey = "")
  | bare (h : route.idempotent cfg = none)
  | unpaid (tasks : route = .tasks) (network : cfg.configLocal = false)

inductive AnswerCall (cfg : Settings) (route : Route) (req : Request) : Hist → Op → Prop
  | aside (h : Hist) (opened : Open h) (o : Op) (ho : o.aside = true) : AnswerCall cfg route req h o
  | direct (h : Hist) (aside : Aside h) (response : Response) (why : Turned cfg route req response) :
      AnswerCall cfg route req h (.json response)
  | find (h : Hist) (reached : Reached cfg route h) (options : IdempotencyOptions)
      (mw : options ∈ route.idempotent cfg) :
      AnswerCall cfg route req h (.findRecord req.idempotencyKey)
  | replay (h : Hist) (reached : Reached cfg route h) (options : IdempotencyOptions)
      (mw : options ∈ route.idempotent cfg) (existing : IdempotencyRecord) :
      AnswerCall cfg route req (lookedUp req (some existing) h)
        (.json (replayOf cfg options req existing))
  | enter (h : Hist) (reached : Reached cfg route h) :
      AnswerCall cfg route req (lookedUp req none h) (.next .idempotency)
  | answer (h : Hist) (reached : Reached cfg route h) (l : Hist) (aside : Aside l)
      (response : Response) :
      AnswerCall cfg route req (l ++ entered req h) (.json response)
  | insert (h : Hist) (reached : Reached cfg route h) (keyed : req.idempotencyKey ≠ "") (l : Hist)
      (aside : Aside l) (options : IdempotencyOptions) (mw : options ∈ route.idempotent cfg) (response : Response)
      (recorded : response.status < 500) :
      AnswerCall cfg route req (⟨.json response, .ok ()⟩ :: (l ++ entered req h))
        (.insertRecord (recordOf cfg options req response))
  /-- What the error handler answers. -/
  | thrown (h : Hist) (unanswered : Unanswered h) (opened : Open h) (e : JsError) :
      AnswerCall cfg route req h (.json (internalServerError e))

/-! ## Pasts -/

theorem Aside.nil : Aside [] := fun _ hd => nomatch hd

theorem Aside.cons {h : Hist} (ha : Aside h) {d : Done Op Reply} (hd : d.op.aside = true) :
    Aside (d :: h) := by
  rintro d' (_ | ⟨_, hd'⟩)
  · exact hd
  · exact ha d' hd'

theorem Aside.append {l h : Hist} (hl : Aside l) (ha : Aside h) : Aside (l ++ h) := by
  intro d hd
  rcases List.mem_append.mp hd with hd | hd
  · exact hl d hd
  · exact ha d hd

theorem Aside.unanswered {h : Hist} (ha : Aside h) : Unanswered h := by
  intro response hmem
  cases ha _ hmem

theorem Aside.opened {h : Hist} (ha : Aside h) : Open h := by
  intro key record heq
  cases ha _ (List.mem_of_head? heq)

theorem Aside.append_opened {l h : Hist} (hl : Aside l) (ho : Open h) : Open (l ++ h) := by
  cases l with
  | nil => exact ho
  | cons d l =>
      intro key record heq
      cases Option.some.inj heq
      cases hl _ List.mem_cons_self

theorem Unanswered.cons {h : Hist} (hu : Unanswered h) {d : Done Op Reply}
    (hd : ∀ response, d ≠ ⟨.json response, .ok ()⟩) : Unanswered (d :: h) := by
  rintro response (_ | ⟨_, hmem⟩)
  · exact hd response rfl
  · exact hu response hmem

theorem Unanswered.append {l h : Hist} (hl : Unanswered l) (hu : Unanswered h) :
    Unanswered (l ++ h) := by
  intro response hmem
  rcases List.mem_append.mp hmem with hmem | hmem
  · exact hl response hmem
  · exact hu response hmem

section

variable {cfg : Settings} {route : Route} {req : Request} {h : Hist}

theorem Reached.lookedUp_unanswered (hr : Reached cfg route h) (existing : Option IdempotencyRecord) :
    Unanswered (lookedUp req existing h) :=
  hr.aside.unanswered.cons (by simp)

theorem Reached.entered_unanswered (hr : Reached cfg route h) : Unanswered (entered req h) :=
  (hr.lookedUp_unanswered none).cons (by simp)

theorem opened_entered : Open (entered req h) := by
  intro key record heq
  cases heq

theorem lookedUp_suffix (l : Hist) : lookedUp req none h <:+ l ++ entered req h :=
  (List.suffix_cons _ _).trans (List.suffix_append _ _)

theorem mem_entered (l : Hist) :
    ⟨.findRecord req.idempotencyKey, .ok none⟩ ∈ l ++ entered req h :=
  (lookedUp_suffix l).subset List.mem_cons_self

/-- **Who is answered was not answered before.** -/
theorem AnswerCall.unanswered {response : Response}
    (hc : AnswerCall cfg route req h (.json response)) : Unanswered h := by
  cases hc with
  | aside _ _ _ ho => cases ho
  | direct _ aside => exact aside.unanswered
  | replay h' reached => exact reached.lookedUp_unanswered _
  | answer h' reached l aside => exact aside.unanswered.append reached.entered_unanswered
  | thrown _ unanswered => exact unanswered

/-- A request that finds a record is answered from it next. -/
theorem AnswerCall.after_found {key : String} {record : IdempotencyRecord} {o : Op}
    (hc : AnswerCall cfg route req (⟨.findRecord key, .ok (some record)⟩ :: h) o) :
    ∃ options ∈ route.idempotent cfg, o = .json (replayOf cfg options req record) := by
  generalize hpast : (⟨.findRecord key, .ok (some record)⟩ :: h : Hist) = past at hc
  have hnotAside : ¬ Aside past := by
    intro ha
    cases ha _ (hpast ▸ List.mem_cons_self)
  have hclosed : ¬ Open past := by
    intro ho
    exact ho key record (hpast ▸ rfl)
  cases hc with
  | aside _ opened => exact absurd opened hclosed
  | direct _ aside => exact absurd aside hnotAside
  | find _ reached => exact absurd reached.aside hnotAside
  | replay _ _ options mw existing =>
      cases hpast
      exact ⟨options, mw, rfl⟩
  | enter => cases hpast
  | answer _ _ l aside => exact absurd (Aside.append_opened aside opened_entered) hclosed
  | insert => cases hpast
  | thrown _ _ opened => exact absurd opened hclosed

end

/-! ## Programs that stay aside -/

/-- The program has answered the request, or it throws and has not. -/
def Settled (h : Hist) : Except JsError Unit → Prop
  | .ok _ => ∃ response, ⟨.json response, .ok ()⟩ ∈ h
  | .error _ => Unanswered h ∧ Open h

/-- A failed call settles nothing. -/
theorem Settled.failed {h : Hist} (hu : Unanswered h) (o : Op) (e : JsError) :
    Settled (⟨o, .error e⟩ :: h) (.error e) := by
  refine ⟨hu.cons fun response heq => ?_, fun key record heq => ?_⟩
  · cases heq
  · cases heq

abbrev StaysAside {α : Type} (x : Js α) : Prop := Only (fun o => o.aside = true) x

theorem Op.aside_of_serves {o : Op} (ho : o.serves = true) : o.aside = true := by
  cases o with
  | market o => rfl
  | registerExecutor secret metadataUri => rfl
  | saveExecutor record => rfl
  | _ => cases ho

theorem stays_handler (cfg : Settings) (req : Request) (route : Route) :
    StaysAside (runHandler (route.handler cfg req)) :=
  only_runHandler ((serves_handler cfg req route).mono fun _ => Op.aside_of_serves)

theorem stays_authFailLimited (ip publicKey : String) : StaysAside (authFailLimited ip publicKey) :=
  only_authFailLimited (T := fun o => o.aside = true) rfl (fun _ _ => rfl) (fun _ _ _ => rfl)
    ip publicKey

/-! ## A request -/

section

variable {cfg : Settings} {route : Route} {req : Request} {h : Hist}

/-- `json`, where the request may be answered. -/
theorem respond_answers {response : Response} (hc : AnswerCall cfg route req h (.json response)) :
    Ensures (AnswerCall cfg route req) Settled (respond response) h := by
  refine ⟨hc, ?_⟩
  rintro (e | ⟨⟩)
  · exact .failed hc.unanswered _ e
  · exact ⟨response, List.mem_cons_self⟩

theorem throw_answers (ha : Aside h) (e : JsError) :
    Ensures (AnswerCall cfg route req) Settled (throw e) h :=
  ⟨ha.unanswered, ha.opened⟩

theorem bind_answers {α : Type} {x : Js α} {f : α → Js Unit} (hx : StaysAside x)
    (ha : Aside h) (hf : ∀ a l, Aside l → Ensures (AnswerCall cfg route req) Settled (f a) (l ++ h)) :
    Ensures (AnswerCall cfg route req) Settled (x >>= f) h := by
  rw [ensures_bind]
  refine hx.ensures (fun l o hl ho => .aside _ (Aside.append hl ha).opened o ho) ?_
  rintro l (e | a) hl
  · exact ⟨(Aside.append hl ha).unanswered, (Aside.append hl ha).opened⟩
  · exact hf a l hl

theorem fail_answers (ip publicKey error : String) (ha : Aside h) :
    Ensures (AnswerCall cfg route req) Settled (fail ip publicKey error) h := by
  refine bind_answers (stays_authFailLimited ip publicKey).attempt ha fun limited l hl => ?_
  split
  · exact respond_answers (.direct _ (hl.append ha) _ (.refused (.inr (.inl rfl))))
  · exact respond_answers (.direct _ (hl.append ha) _ (.refused (.inl rfl)))

theorem idempotency_answers {options : IdempotencyOptions} (hreached : Reached cfg route h)
    (hmw : options ∈ route.idempotent cfg) (hrequired : options.requireHeader = true) :
    Ensures (AnswerCall cfg route req) Settled
      (idempotency cfg options req (route.handler cfg req)) h := by
  unfold idempotency
  by_cases hkey : req.idempotencyKey = ""
  · rw [if_pos hkey, if_pos hrequired]
    exact respond_answers (.direct _ hreached.aside _ (.keyless hkey))
  rw [if_neg hkey]
  dsimp only
  rw [ensures_call_bind]
  refine ⟨.find h hreached options hmw, ?_, fun e => .failed hreached.aside.unanswered _ e⟩
  rintro (_ | existing)
  swap
  · exact respond_answers (.replay h hreached options hmw existing)
  dsimp only
  rw [ensures_call_bind]
  refine ⟨.enter h hreached, fun _ => ?_,
    fun e => .failed (hreached.lookedUp_unanswered none) _ e⟩
  rw [ensures_bind]
  refine (stays_handler cfg req route).ensures
    (fun l o hl ho => .aside _ (Aside.append_opened hl opened_entered) o ho) ?_
  rintro l (e | response) hl
  · exact ⟨(Aside.unanswered hl).append hreached.entered_unanswered,
      Aside.append_opened hl opened_entered⟩
  have hanswer : AnswerCall cfg route req (l ++ entered req h) (.json response) :=
    .answer h hreached l hl response
  refine ensures_call_bind.mpr ⟨hanswer, fun _ => ?_,
    fun e => .failed hanswer.unanswered _ e⟩
  by_cases hstatus : 500 ≤ response.status
  · rw [if_pos hstatus]
    exact ⟨response, List.mem_cons_self⟩
  · rw [if_neg hstatus, ensures_attempt_call_bind]
    exact ⟨.insert h hreached hkey l hl options hmw response (not_le.mp hstatus),
      fun _ => ⟨response, List.mem_cons_of_mem _ List.mem_cons_self⟩⟩

theorem idempotency_defaults {options : IdempotencyOptions} (hmw : options ∈ route.idempotency) :
    options.requireHeader = true := by
  cases route with
  | signedSmoke => cases hmw
  | timeoutCheck => cases hmw
  | _ => cases hmw; rfl

theorem serve_answers (hreached : Reached cfg route h) :
    Ensures (AnswerCall cfg route req) Settled (route.serve cfg req) h := by
  unfold Route.serve
  split
  · rename_i options hoptions houtbox
    refine idempotency_answers hreached ?_ (idempotency_defaults hoptions)
    rw [Route.idempotent, if_pos houtbox]
    exact hoptions
  · rename_i hnone
    have hbare : route.idempotent cfg = none := by
      unfold Route.idempotent
      split_ifs with houtbox
      · exact Option.eq_none_iff_forall_ne_some.mpr fun options heq => hnone options heq houtbox
      · rfl
    exact bind_answers (stays_handler cfg req route) hreached.aside fun response l hl =>
      respond_answers (.direct _ (hl.append hreached.aside) _ (.bare hbare))

theorem next_answers (ha : Aside h) :
    Ensures (AnswerCall cfg route req) Settled
      (do await (.next .signatureAuth); route.serve cfg req) h := by
  rw [ensures_call_bind]
  refine ⟨.aside _ ha.opened _ rfl, fun _ => serve_answers ⟨ha.cons rfl, fun _ _ => List.mem_cons_self⟩, ?_⟩
  exact fun e => .failed ha.unanswered _ e

theorem consumeNonce_answers (auth : SignatureAuthOptions) (ha : Aside h) :
    Ensures (AnswerCall cfg route req) Settled
      (consumeNonce cfg auth req (route.serve cfg req)) h := by
  unfold consumeNonce
  refine bind_answers (Only.attempt (.call rfl)) ha fun client l hl => ?_
  have ha' := hl.append ha
  cases client with
  | error e => exact respond_answers (.direct _ ha' _ (.refused (.inr (.inr rfl))))
  | ok _ =>
      refine bind_answers (.call rfl) ha' fun stored l' hl' => ?_
      have ha'' := hl'.append ha'
      cases stored with
      | some serverNonceTimestamp =>
          dsimp only
          split_ifs
          · exact fail_answers _ _ _ ha''
          · exact next_answers ha''
      | none =>
          dsimp only
          by_cases hallow : cfg.allowClientNonce = true
          · rw [if_pos hallow]
            refine bind_answers (.call rfl) ha'' fun nonceSet l₃ hl₃ => ?_
            split_ifs
            · exact next_answers (hl₃.append ha'')
            · exact fail_answers _ _ _ (hl₃.append ha'')
          · rw [if_neg hallow]
            exact fail_answers _ _ _ ha''

theorem signatureAuth_answers (auth : SignatureAuthOptions) (ha : Aside h) :
    Ensures (AnswerCall cfg route req) Settled
      (signatureAuth cfg auth req (route.serve cfg req)) h := by
  unfold signatureAuth
  by_cases hb : auth.bypassed cfg = true
  · rw [if_pos hb]
    exact next_answers ha
  rw [if_neg hb]
  by_cases hheaders : req.publicKey = "" ∨ req.timestamp = "" ∨ req.nonce = "" ∨ req.signature = ""
  · rw [if_pos hheaders]
    split_ifs
    · exact fail_answers _ _ _ ha
    · exact next_answers ha
  rw [if_neg hheaders]
  cases hts : cfg.number req.timestamp with
  | none => exact fail_answers _ _ _ ha
  | some timestamp =>
      refine bind_answers (.call rfl) ha fun now l hl => ?_
      have ha' := hl.append ha
      split_ifs
      · exact fail_answers _ _ _ ha'
      unfold checkSignature
      split
      · exact fail_answers _ _ _ ha'
      · split_ifs
        · split
          · exact throw_answers ha' _
          · exact fail_answers _ _ _ ha'
          · exact consumeNonce_answers auth ha'
        · exact fail_answers _ _ _ ha'

theorem authorized_answers (ha : Aside h) :
    Ensures (AnswerCall cfg route req) Settled (route.authorized cfg req) h := by
  unfold Route.authorized
  split
  · exact signatureAuth_answers _ ha
  · rename_i hauth
    refine serve_answers ⟨ha, fun auth hmem => ?_⟩
    rw [hauth] at hmem
    cases hmem

theorem listingFee_answers (htasks : route = .tasks) (hnetwork : cfg.configLocal = false)
    (ha : Aside h) :
    Ensures (AnswerCall cfg route req) Settled
      (listingFee cfg req (route.authorized cfg req)) h := by
  unfold listingFee
  refine bind_answers (.call rfl) ha fun now l hl => ?_
  have ha' := hl.append ha
  split
  · exact respond_answers (.direct _ ha' _ (.unpaid htasks hnetwork))
  · split
    · exact throw_answers ha' _
    · refine bind_answers (.call rfl) ha' fun answer l' hl' => ?_
      cases answer with
      | some response =>
          exact respond_answers (.direct _ (hl'.append ha') _ (.unpaid htasks hnetwork))
      | none => exact authorized_answers (hl'.append ha')

/-- The request has been answered, or the answer failed. -/
def Tried (h : Hist) : Prop := ∃ response r, ⟨.json response, r⟩ ∈ h

theorem run_answers :
    Ensures (AnswerCall cfg route req) (fun h _ => Tried h) (route.run cfg req) [] := by
  unfold Route.run
  rw [ensures_attempt_bind]
  refine Ensures.mono (Q := Settled) ?_ (fun _ _ hc => hc) ?_
  · split_ifs with hadmin hfee
    · unfold adminAuth
      dsimp only
      split_ifs
      · exact respond_answers (.direct _ .nil _ (.refused (.inl rfl)))
      · exact authorized_answers .nil
    · exact listingFee_answers hfee.1 (Bool.not_eq_true _ ▸ hfee.2) .nil
    · exact authorized_answers .nil
  · rintro h (e | ⟨⟩) hsettled
    · exact ⟨.thrown h hsettled.1 hsettled.2 e, fun r => ⟨_, r, List.mem_cons_self⟩⟩
    · obtain ⟨response, hmem⟩ := hsettled
      exact ⟨response, _, hmem⟩

end

/-! ## All processes -/

/-- What a process may call after a past. -/
def Job.Answers : Job → Hist → Op → Prop
  | .issueNonce _ _, _, o => o.aside = true ∨ ∃ response, o = .json response
  | .request cfg route req, h, o => AnswerCall cfg route req h o
  | .service _, _, o => o.aside = true

/-- What a process has done when it ends. -/
def Job.Ends : Job → Hist → Prop
  | .request _ _ _, h => Tried h
  | _, _ => True

theorem issueNonce_answers (cfg : Settings) (req : Request) :
    Only (fun o => o.aside = true ∨ ∃ response, o = .json response) (runIssueNonce cfg req) := by
  have hrespond (response : Response) :
      Only (fun o => o.aside = true ∨ ∃ response, o = .json response) (respond response) :=
    .call (.inr ⟨response, rfl⟩)
  have hissue : Only (fun o => o.aside = true ∨ ∃ response, o = .json response)
      (issueNonce cfg req) := by
    unfold issueNonce
    dsimp only
    split_ifs
    · exact hrespond _
    · refine .bind (.call (.inl rfl)) fun _ => ?_
      refine .bind (only_incrWithTtl (.inl rfl) (.inl rfl)) fun ipCount => ?_
      split_ifs
      · exact hrespond _
      · refine .bind (.call (.inl rfl)) fun timestamp => .bind (.call (.inl rfl)) fun nonce => ?_
        refine .bind (.call (.inl rfl)) fun ok => ?_
        split_ifs
        · exact hrespond _
        · exact hrespond _
    · exact hrespond _
  refine .bind hissue.attempt fun answered => ?_
  cases answered with
  | error e => exact hrespond _
  | ok _ => exact .pure _

/-- **Every answer of the API is accounted for.** -/
theorem body_answers (j : Job) : Follows j.Answers (fun h _ => j.Ends h) (api.body j) [] := by
  cases j with
  | issueNonce cfg req => exact toEnd_follows (issueNonce_answers cfg req [])
  | request cfg route req => exact toEnd_follows (Q := Tried) run_answers
  | service job =>
      exact Follows.mono (fun _ _ => Op.aside_of_serves) (fun _ _ hq => hq)
        (liftProg_serves job.body [])

end TrustGate.Api
