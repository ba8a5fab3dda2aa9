import TrustGate.Api.Idempotency
import TrustGate.Lib.Lines

set_option autoImplicit false

/-! # Whose response is replayed

A record tells the owner by a field of the body, `signatureAuth` by a header. On the network both
are the same key, and the request hash stands for method, path and body, so that a stored response
goes only to whoever made the request it answers. A retry does not run the handler again. -/

namespace TrustGate.Api

open Market Resumption Lines

/-! ## What the request hash stands for -/

theorem requestHash_inj {p : Platform} (hash : Function.Injective p.sha256Hex) {req req' : Request}
    (h : p.requestHash req = p.requestHash req') :
    req.method = req'.method ∧ req.path = req'.path ∧ p.bodyHash req = p.bodyHash req' := by
  unfold Platform.requestHash at h
  have htext := congrArg String.toList (bufferOf_inj (hash h))
  have hline (l : List Char) : "\n".toList ++ l = '\n' :: l := by simp
  simp only [Request.upperMethod_eq, String.toList_append, List.append_assoc] at htext
  simp only [hline] at htext
  have hmethod (req : Request) : '\n' ∉ req.method.toList := fun hm => (req.method_known _ hm).2 rfl
  obtain ⟨hm, hrest⟩ := append_cons_inj (hmethod req) (hmethod req') htext
  -- the digest is what follows the last line feed
  obtain ⟨hp, hb⟩ := append_cons_inj_right (p.sha256Hex_line _) (p.sha256Hex_line _) hrest
  exact ⟨String.toList_inj.mp hm, String.toList_inj.mp hp, String.toList_inj.mp hb⟩

/-- The digests of two bodies agree only where their bytes do. -/
theorem bodyHash_inj {p : Platform} (hash : Function.Injective p.sha256Hex) {req req' : Request}
    (hbody : req.body.isSome = true) (hbody' : req'.body.isSome = true)
    (h : p.bodyHash req = p.bodyHash req') : req.rawBody = req'.rawBody := by
  obtain ⟨buf, hbuf⟩ := Option.isSome_iff_exists.mp (req.rawBody_of_body hbody)
  obtain ⟨buf', hbuf'⟩ := Option.isSome_iff_exists.mp (req'.rawBody_of_body hbody')
  unfold Platform.bodyHash at h
  have heq := hash h
  rw [hbuf, hbuf'] at heq ⊢
  exact congrArg some heq

/-! ## Owners -/

/-- The process runs on testnet or pubnet, with the functions of `p`. -/
structure OnNetwork (p : Platform) (cfg : Settings) : Prop where
  platform : cfg.toPlatform = p
  network : cfg.configLocal = false
  nodeEnv : cfg.nodeEnvTest = false

/-- The request was let through as signed with the key. -/
structure PassedAs (c : Config Op Reply Job Store) (pid : Nat) (cfg : Settings) (route : Route)
    (req : Request) (publicKey : String) : Prop where
  through : LetThrough c pid cfg route req
  key : req.publicKey = publicKey
  signed : cfg.verify publicKey (cfg.signedPayload req) (cfg.parseSignature req.signature) =
    .ok true

/-- The process went to insert the record before the calls since `earlier`, having served a request
to the same scope with the same method, path and body. -/
structure Creator (c : Config Op Reply Job Store) (earlier : Trace Op Reply)
    (record : IdempotencyRecord) (route : Route) (req : Request) (publicKey : String)
    (pid : Nat) (cfg : Settings) (route' : Route) (req' : Request) : Prop where
  inserted : ∃ r, ⟨pid, .insertRecord record, r⟩ ∈ earlier
  scope : route'.idempotency.map IdempotencyOptions.scope =
    route.idempotency.map IdempotencyOptions.scope
  method : req'.method = req.method
  path : req'.path = req.path
  rawBody : req'.rawBody = req.rawBody
  passed : PassedAs c pid cfg route' req' publicKey

/-- The three complaints about a record. -/
def Mismatch (response : Response) : Prop :=
  response = errorResponse 409 "idempotency key scope mismatch" ∨
  response = errorResponse 409 "idempotency key owner mismatch" ∨
  response = errorResponse 409 "idempotency key reused with different request"

/-- Stored responses are only replayed to their owner. -/
def Owned (c : Config Op Reply Job Store) : Prop :=
  ∀ pid cfg route req record earlier response publicKey,
    c.jobOf pid = some (.request cfg route req) →
    ⟨pid, .findRecord req.idempotencyKey, .ok (some record)⟩ :: earlier <:+ c.trace →
    response ∈ answers c.trace pid → ¬ Mismatch response → record.publicKey = some publicKey →
    response = ⟨record.responseCode, record.responseBody⟩ ∧
      PassedAs c pid cfg route req publicKey ∧
      ∃ pid' cfg' route' req', Creator c earlier record route req publicKey pid' cfg' route' req'

theorem replay_cases {record : IdempotencyRecord} {scope : String} {publicKey : Option String}
    {requestHash : String} (h : ¬ Mismatch (replay record scope publicKey requestHash)) :
    record.scope = scope ∧ record.publicKey = publicKey ∧ record.requestHash = requestHash ∧
      replay record scope publicKey requestHash = ⟨record.responseCode, record.responseBody⟩ := by
  unfold replay at h ⊢
  split_ifs at h ⊢ with hscope howner hhash
  · exact absurd (.inl rfl) h
  · exact absurd (.inr (.inl rfl)) h
  · exact absurd (.inr (.inr rfl)) h
  · exact ⟨not_not.mp hscope, not_not.mp howner, not_not.mp hhash, rfl⟩

theorem mem_idempotency {cfg : Settings} {route : Route} {options : IdempotencyOptions}
    (hmw : options ∈ route.idempotent cfg) : options ∈ route.idempotency := by
  unfold Route.idempotent at hmw
  split_ifs at hmw
  · exact hmw
  · cases hmw

/-- A record with a public key stems from a route that is signed with the same body field. -/
theorem auth_of_publicKeyFrom {cfg : Settings} {route : Route} {options : IdempotencyOptions}
    {field : String} (hnetwork : cfg.configLocal = false) (hmw : options ∈ route.idempotency)
    (hfrom : options.publicKeyFrom = some field) :
    ∃ auth ∈ route.auth cfg, auth.matchBodyField = some field := by
  cases route with
  | signedSmoke => cases hmw
  | timeoutCheck => cases hmw
  | select taskId => cases hmw; cases hfrom
  | tasks =>
      cases hmw; cases hfrom
      refine ⟨{ matchBodyField := some "requester" }, ?_, rfl⟩
      rw [Route.auth, hnetwork]
      rfl
  | register => cases hmw; cases hfrom; exact ⟨_, rfl, rfl⟩
  | complete taskId => cases hmw; cases hfrom; exact ⟨_, rfl, rfl⟩
  | bids => cases hmw; cases hfrom; exact ⟨_, rfl, rfl⟩
  | publishResult taskId => cases hmw; cases hfrom; exact ⟨_, rfl, rfl⟩

/-! ## Retries -/

/-- The same request, but for the signature headers. -/
structure SameRequest (req req' : Request) : Prop where
  key : req'.idempotencyKey = req.idempotencyKey
  method : req'.method = req.method
  originalUrl : req'.originalUrl = req.originalUrl
  rawBody : req'.rawBody = req.rawBody
  body : req'.body = req.body

/-- What becomes of a retry: its handler is not entered, it is answered with `response` once its
look-up is answered, and it does not end unanswered. Without a look-up it was refused, its look-up
failed, or something in front of the middleware answered a request that is `exempt`. -/
structure Replayed (c : Config Op Reply Job Store) (exempt : Prop) (pid : Nat) (key : String)
    (response : Response) : Prop where
  unhandled : ∀ r, ⟨pid, .next .idempotency, r⟩ ∉ c.trace
  answered : ∀ a ∈ answers c.trace pid, a = response ∨
    (∀ existing, ⟨pid, .findRecord key, .ok existing⟩ ∉ c.trace) ∧
      (a.status = 401 ∨ a.status = 429 ∨ 500 ≤ a.status ∨ exempt)
  ended : c.Returned pid → answers c.trace pid ≠ []

/-- A retry with a fresh nonce that begins after the record was inserted is answered from it, but
for `exempt` routes. -/
def Retries (c : Config Op Reply Job Store) (exempt : Route → Prop) : Prop :=
  ∀ pid pid' cfg cfg' route req req' response earlier, ∀ options ∈ route.idempotent cfg,
    ∀ options' ∈ route.idempotent cfg',
    c.jobOf pid = some (.request cfg route req) → c.jobOf pid' = some (.request cfg' route req') →
    ⟨pid, .insertRecord (recordOf cfg options req response), .ok ()⟩ :: earlier <:+ c.trace →
    own pid' earlier = [] → SameRequest req req' → req'.nonce ≠ req.nonce →
      Replayed c (exempt route) pid' req.idempotencyKey response

/-- The regime of the network: every request is served there, with the functions of `p`. -/
def networked (p : Platform) : Regime Op Reply Job Outcome Store where
  job j := ∀ cfg route req, j = .request cfg route req → OnNetwork p cfg
  call _ _ _ _ _ := True
  crash := True

/-- What is known of a run on the network. -/
structure Networked (p : Platform) (c : Config Op Reply Job Store) : Prop where
  filed : Filed c.jobOf c.state c.trace
  ends : Explained (.any : Regime Op Reply Job Outcome Store) Job.Answers Job.Ends c
  calls : EachCall (fun earlier call => ∃ j, c.jobOf call.pid = some j ∧
    (networked p).job j ∧ j.Calls (own call.pid earlier) call.op) c.trace

theorem networked_run (p : Platform) (s : Store) (sched : List (Act Job Outcome))
    (network : ∀ cfg route req, .spawn (.request cfg route req) ∈ sched → OnNetwork p cfg) :
    Networked p (runSched api (.initial { s with records := [] }) sched) := by
  have hmeets : Meets api (networked p) (.initial { s with records := [] }) sched := by
    refine meets_of_jobs api (fun _ _ _ _ _ => trivial) trivial ?_ _
    rintro j hj cfg route req rfl
    exact network cfg route req hj
  refine ⟨filed_run s sched, ?_, ?_⟩
  · exact (runSched_rule (I := fun _ _ => True) (fun j _ => body_answers j)
      (fun _ _ _ _ _ _ _ _ _ _ _ _ _ => trivial) sched _ trivial (.initial _)
      (meets_any _ _ _)).2
  · exact runSched_explained _ sched hmeets (Q := fun _ _ => True) fun j _ => body_follows j

section

variable {p : Platform} {c : Config Op Reply Job Store}

theorem Networked.onNetwork (h : Networked p c) {pid : Nat} {cfg : Settings} {route : Route}
    {req : Request} (hjob : c.jobOf pid = some (.request cfg route req)) {o : Op} {r : Reply o}
    (hmem : ⟨pid, o, r⟩ ∈ c.trace) : OnNetwork p cfg := by
  obtain ⟨newer, earlier, ht⟩ := List.append_of_mem hmem
  obtain ⟨j, hj, hnet, -⟩ := h.calls.at (c := ⟨pid, o, r⟩) ⟨newer, ht.symm⟩
  rw [hjob] at hj
  cases hj
  exact hnet cfg route req rfl

/-- Whoever comes to the middleware of a route with owners was let through as the owner. -/
theorem Networked.passedAs (h : Networked p c) {pid : Nat} {cfg : Settings} {route : Route}
    {req : Request} (hjob : c.jobOf pid = some (.request cfg route req)) {past : Hist}
    (reached : Reached cfg route past) {d : Done Op Reply} (hpast : d :: past <:+ own pid c.trace)
    {options : IdempotencyOptions} (hmw : options ∈ route.idempotent cfg) {publicKey : String}
    (howner : options.publicKeyFrom.bind req.bodyString = some publicKey) :
    PassedAs c pid cfg route req publicKey ∧ req.body.isSome = true := by
  have hnet := h.onNetwork hjob (mem_own.mp (hpast.subset List.mem_cons_self))
  obtain ⟨field, hfrom, hbody⟩ := Option.bind_eq_some_iff.mp howner
  obtain ⟨auth, hauth, hfield⟩ := auth_of_publicKeyFrom hnet.network (mem_idempotency hmw) hfrom
  have hnext := mem_of_past hpast (reached.signed auth hauth)
  have hchecked : ∃ now, Checked cfg auth req now := by
    obtain ⟨newer, earlier, ht⟩ := List.append_of_mem hnext
    obtain ⟨j, hj, -, hc⟩ := h.calls.at (c := ⟨pid, .next .signatureAuth, .ok ()⟩) ⟨newer, ht.symm⟩
    rw [hjob] at hj
    cases hj
    obtain ⟨auth', hauth', hpass⟩ := hc.passes
    obtain rfl : auth = auth' := Option.some.inj (hauth.symm.trans hauth')
    have hlocal : cfg.networkLocal = false := (Bool.or_eq_false_iff.mp hnet.network).1
    rcases hpass with hb | ⟨now, h', checked, -⟩
    · simp [SignatureAuthOptions.bypassed, hlocal, hnet.nodeEnv] at hb
    · exact ⟨now, checked⟩
  obtain ⟨now, checked⟩ := hchecked
  have hkey : req.publicKey = publicKey := by
    have hmatch := checked.match_
    rw [SignatureAuthOptions.mismatch, hfield, Option.filter_some, hbody] at hmatch
    by_contra hne
    simp [Ne.symm hne] at hmatch
  refine ⟨⟨⟨hjob, _, hnext⟩, hkey, hkey ▸ checked.signed⟩, ?_⟩
  cases hb : req.body with
  | some body => rfl
  | none => simp [Request.bodyString, Request.bodyField, hb] at hbody

/-- **Stored responses are only replayed to their owner.** -/
theorem Networked.owned (h : Networked p c) (hash : Function.Injective p.sha256Hex) : Owned c := by
  intro pid cfg route req record earlier response publicKey hjob hfound hmem hmatch howner
  obtain ⟨r, hcall⟩ := mem_answers.mp hmem
  have hpast := own_suffix hfound
  obtain ⟨options, hmw, rfl⟩ := h.filed.answered_from hjob hpast hcall
  obtain ⟨hscope, hkey, hhash, heq⟩ := replay_cases hmatch
  obtain ⟨hpassed, hbody⟩ := h.passedAs hjob (h.filed.lookup_reached hjob hpast) hpast hmw
    (hkey.symm.trans howner)
  refine ⟨heq, hpassed, ?_⟩
  -- whoever inserted the record
  obtain ⟨-, pid', r', hinsert⟩ := h.filed.found _ _ _ _ hfound
  have hinsert' : ⟨pid', .insertRecord record, r'⟩ ∈ c.trace :=
    ((List.suffix_cons _ _).trans hfound).subset hinsert
  obtain ⟨cfg', route', req', response', options', hmw', past, l, hjob', rfl, -, -, hreached,
    hsuffix⟩ := h.filed.inserter hinsert'
  have hpast' := ((lookedUp_suffix l).trans (List.suffix_cons _ _)).trans hsuffix
  obtain ⟨hpassed', hbody'⟩ := h.passedAs hjob' hreached hpast' hmw' howner
  have hplatform := (h.onNetwork hjob hcall).platform
  have hplatform' := (h.onNetwork hjob' hinsert').platform
  have hhash' : cfg'.toPlatform.requestHash req' = cfg.toPlatform.requestHash req := hhash
  rw [hplatform, hplatform'] at hhash'
  obtain ⟨hmethod, hpath, hbodies⟩ := requestHash_inj hash hhash'
  refine ⟨pid', cfg', route', req', ⟨r', hinsert⟩, ?_, hmethod, hpath,
    bodyHash_inj hash hbody' hbody hbodies, hpassed'⟩
  rw [Option.mem_def.mp (mem_idempotency hmw'), Option.mem_def.mp (mem_idempotency hmw)]
  exact congrArg some hscope

/-- The hash that a retry is compared by is the recorded one. -/
theorem SameRequest.replayOf {req req' : Request} (hsame : SameRequest req req') {cfg cfg' : Settings}
    (hplatform : cfg'.toPlatform = cfg.toPlatform) {options : IdempotencyOptions}
    (response : Response) :
    TrustGate.Api.replayOf cfg' options req' (recordOf cfg options req response) = response := by
  have hfield : req'.bodyString = req.bodyString := by
    funext field
    simp only [Request.bodyString, Request.bodyField, hsame.body]
  have hhash : cfg'.requestHash req' = cfg.requestHash req := by
    simp only [hplatform, Platform.requestHash, Platform.bodyHash, Request.upperMethod, Request.path,
      hsame.method, hsame.originalUrl, hsame.rawBody, hsame.body]
  simp [TrustGate.Api.replayOf, replay, recordOf, hfield, hhash]

/-- **A retry is answered from the record**, unless it is refused, its look-up fails, or the schema
or the payment gate in front of `POST /tasks` answers it. -/
theorem Networked.retries (h : Networked p c) : Retries c (· = .tasks) := by
  intro pid pid' cfg cfg' route req req' response earlier options hmw options' hmw' hjob hjob'
    hinsert hstart hsame _
  have hrecorded := hinsert.subset List.mem_cons_self
  -- the look-up of the retry comes after the insertion
  have hlookup {existing : Option IdempotencyRecord}
      (hmem : ⟨pid', .findRecord req'.idempotencyKey, .ok existing⟩ ∈ c.trace) :
      existing = some (recordOf cfg options req response) := by
    obtain ⟨newer, earlier', ht⟩ := List.append_of_mem hmem
    have hfind : ⟨pid', .findRecord req'.idempotencyKey, .ok existing⟩ :: earlier' <:+ c.trace :=
      ⟨newer, ht.symm⟩
    rw [hsame.key] at hfind
    refine h.filed.seen pid pid' (recordOf cfg options req response) existing earlier' hfind ?_
    rcases suffix_cons_cases hinsert hfind with ⟨heq, -⟩ | hle | hle
    · cases heq
    · exact hle.subset List.mem_cons_self
    · have hdone : (⟨.findRecord req.idempotencyKey, .ok existing⟩ : Done Op Reply) ∈
          own pid' earlier := mem_own.mpr (hle.subset List.mem_cons_self)
      rw [hstart] at hdone
      cases hdone
  refine ⟨?_, ?_, ?_⟩
  · intro r hmem
    cases hlookup (h.filed.entered hjob' hmem)
  · intro a ha
    obtain ⟨r, hcall⟩ := mem_answers.mp ha
    by_cases hfound : ∃ existing, ⟨pid', .findRecord req.idempotencyKey, .ok existing⟩ ∈ c.trace
    · obtain ⟨existing, hmem⟩ := hfound
      rw [← hsame.key] at hmem
      obtain rfl := hlookup hmem
      obtain ⟨-, past, -, -, hpast⟩ := h.filed.explained.of_mem hmem
      obtain ⟨options'', hmw'', rfl⟩ := h.filed.answered_from hjob' hpast hcall
      obtain rfl : options'' = options := by
        have hscope := (mem_idempotency hmw'').symm.trans (mem_idempotency hmw)
        exact Option.some.inj hscope
      refine .inl (hsame.replayOf ?_ response)
      rw [(h.onNetwork hjob hrecorded).platform, (h.onNetwork hjob' hcall).platform]
    · refine .inr ⟨fun existing hmem => hfound ⟨existing, hmem⟩, ?_⟩
      rw [← hsame.key] at hfound
      obtain ⟨past, hc, hsuffix⟩ := h.filed.request hjob' hcall
      cases hc with
      | aside _ _ _ ho => cases ho
      | direct _ _ _ why =>
          cases why with
          | refused hstatus => omega
          | keyless hkey =>
              obtain ⟨_, _, _, _, _, _, _, _, hjob₀, -, -, hne, -⟩ := h.filed.inserter hrecorded
              rw [hjob] at hjob₀
              cases hjob₀
              exact absurd (hsame.key.symm.trans hkey) hne
          | bare hnone =>
              rw [hnone] at hmw'
              cases hmw'
          | unpaid htasks => exact .inr (.inr (.inr htasks))
      | replay _ _ _ _ existing =>
          exact absurd ⟨_, mem_of_past hsuffix List.mem_cons_self⟩ hfound
      | answer past' _ l => exact absurd ⟨_, mem_of_past hsuffix (mem_entered l)⟩ hfound
      | thrown => exact .inr (.inr (.inl (Nat.le_refl 500)))
  · intro hreturned hnone
    obtain ⟨response', r, hmem⟩ := h.ends.ends hreturned hjob'
    have hanswer := mem_answers.mpr ⟨r, mem_own.mp hmem⟩
    rw [hnone] at hanswer
    cases hanswer

end

/-- **Stored responses are only replayed to their owner, and retries are answered from them**, in
every run on the network. -/
theorem stored_responses_owned (p : Platform) (hash : Function.Injective p.sha256Hex) (s : Store)
    (sched : List (Act Job Outcome))
    (network : ∀ cfg route req, .spawn (.request cfg route req) ∈ sched → OnNetwork p cfg) :
    let c := runSched api (.initial { s with records := [] }) sched
    Owned c ∧ Retries c (· = .tasks) := by
  have h := networked_run p s sched network
  exact ⟨h.owned hash, h.retries⟩

/-! ## A task listed twice -/

theorem hexByte_inj {b b' : UInt8} (h : hexByte b = hexByte b') : b = b' := by
  have hdigit : ∀ n < 16, ∀ n' < 16, Nat.digitChar n = Nat.digitChar n' → n = n' := by decide
  have hlt := b.toNat_lt
  have hlt' := b'.toNat_lt
  simp only [hexByte, List.cons.injEq, and_true] at h
  have hhigh := hdigit _ (by omega) _ (by omega) h.1
  have hlow := hdigit _ (by omega) _ (by omega) h.2
  exact UInt8.toNat_inj.mp (by omega)

theorem echoPlatform_inj : Function.Injective echoPlatform.sha256Hex := by
  intro buf buf' h
  have hlist : buf.flatMap hexByte = buf'.flatMap hexByte := String.ofList_injective h
  clear h
  induction buf generalizing buf' with
  | nil =>
      cases buf' with
      | nil => rfl
      | cons b' buf' => simp [hexByte] at hlist
  | cons b buf ih =>
      cases buf' with
      | nil => simp [hexByte] at hlist
      | cons b' buf' =>
          rw [List.flatMap_cons, List.flatMap_cons] at hlist
          obtain ⟨hhead, htail⟩ := List.append_inj hlist rfl
          rw [hexByte_inj hhead, ih htail]

/-- A request to `POST /tasks` with the idempotency key `k`, signed at the given time. -/
def taskRequest (timestamp nonce : String) : Request where
  method := "POST"
  method_known := post_known
  originalUrl := "/tasks"
  ip := ""
  headers := [("x-tg-public-key", smokeKey), ("x-tg-timestamp", timestamp), ("x-tg-nonce", nonce),
    ("x-tg-signature", "POST\n/tasks\n" ++ timestamp ++ "\n" ++ nonce ++ "\n7b7d"),
    ("idempotency-key", "k")]
  rawBody := some (bufferOf "{}")
  body := some (.obj [("requester", .str smokeKey), ("reservePrice", .str "1"),
    ("description", .str "d"), ("deadline", .str "9")])
  rawBody_of_body := fun _ => rfl

/-- A request and its retry. -/
def taskJobs : List (Act Job Outcome) := [
  .spawn (.request clientNonceSettings .tasks (taskRequest "5" "n")),
  .spawn (.request clientNonceSettings .tasks (taskRequest "6" "m"))]

/-- The task is listed; then the retry comes to the gate, which asks for payment. -/
def listAndRetry : List (Act Job Outcome) :=
  taskJobs ++ (goOn 0 10 ++ .run 0 { text := "t" } :: goOn 0 2 ++ .run 0 { text := "e" } ::
    goOn 0 3 ++ [.run 1 { now := 6 },
      .run 1 { gate := some (errorResponse 402 "payment required") }, .run 1 {}])

theorem listAndRetry_network (cfg : Settings) (route : Route) (req : Request)
    (hmem : .spawn (.request cfg route req) ∈ listAndRetry) : OnNetwork echoPlatform cfg := by
  have hcfg : cfg = clientNonceSettings := by
    simp [listAndRetry, taskJobs, goOn] at hmem
    rcases hmem with ⟨rfl, -⟩ | ⟨rfl, -⟩ <;> rfl
  subst hcfg
  exact ⟨rfl, rfl, rfl⟩

theorem listAndRetry_job (pid : Nat) (j : Job)
    (hjob : (runSched api (.initial { emptyDatabase with records := [] }) taskJobs).jobOf pid =
      some j) :
    (runSched api (.initial { emptyDatabase with records := [] }) listAndRetry).jobOf pid =
      some j := by
  unfold listAndRetry
  rw [runSched_append]
  exact jobOf_runSched _ _ hjob

theorem listAndRetry_owned :
    Owned (runSched api (.initial { emptyDatabase with records := [] }) listAndRetry) ∧
      Retries (runSched api (.initial { emptyDatabase with records := [] }) listAndRetry)
        (· = .tasks) :=
  stored_responses_owned echoPlatform echoPlatform_inj emptyDatabase listAndRetry
    listAndRetry_network

/-- The first process inserts a record before the second has done anything. -/
def insertsFirst : Trace Op Reply → Bool
  | [] => false
  | ⟨p, .insertRecord _, .ok ()⟩ :: earlier =>
      (p = 0 && (own 1 earlier).isEmpty) || insertsFirst earlier
  | _ :: earlier => insertsFirst earlier

theorem exists_insert {t : Trace Op Reply} (h : insertsFirst t = true) : ∃ record earlier,
    ⟨0, .insertRecord record, .ok ()⟩ :: earlier <:+ t ∧ own 1 earlier = [] := by
  fun_induction insertsFirst t with
  | case1 => cases h
  | case2 p record earlier ih =>
      simp only [Bool.or_eq_true, Bool.and_eq_true, decide_eq_true_eq, List.isEmpty_iff] at h
      rcases h with ⟨rfl, hnone⟩ | h
      · exact ⟨record, earlier, List.suffix_rfl, hnone⟩
      · obtain ⟨record', earlier', hs, hnone⟩ := ih h
        exact ⟨record', earlier', hs.trans (List.suffix_cons _ _), hnone⟩
  | case3 call earlier _ ih =>
      obtain ⟨record', earlier', hs, hnone⟩ := ih h
      exact ⟨record', earlier', hs.trans (List.suffix_cons _ _), hnone⟩

/-- The retry is asked to pay once more, and never sees the recorded response. -/
theorem retry_of_task_charged :
    ¬ ∀ (p : Platform), Function.Injective p.sha256Hex → ∀ (s : Store)
      (sched : List (Act Job Outcome)),
      (∀ cfg route req, .spawn (.request cfg route req) ∈ sched → OnNetwork p cfg) →
        Owned (runSched api (.initial { s with records := [] }) sched) ∧
          Retries (runSched api (.initial { s with records := [] }) sched) (fun _ => False) := by
  intro h
  have hretries := (h echoPlatform echoPlatform_inj emptyDatabase listAndRetry
    listAndRetry_network).2
  have hfiled := filed_run emptyDatabase listAndRetry
  have hfirst := listAndRetry_job 0 _ rfl
  have hretry := listAndRetry_job 1 _ rfl
  have hcreated : (answers (runSched api (.initial { emptyDatabase with records := [] })
    listAndRetry).trace 0).all (fun a => a.status = 201) = true := by decide +kernel
  have hrefused : (answers (runSched api (.initial { emptyDatabase with records := [] })
    listAndRetry).trace 1).any (fun a => a.status = 402) = true := by decide +kernel
  have hinserts : insertsFirst (runSched api (.initial { emptyDatabase with records := [] })
    listAndRetry).trace = true := by decide +kernel
  generalize runSched api (.initial { emptyDatabase with records := [] }) listAndRetry = c at *
  obtain ⟨record, earlier, hinsert, hstart⟩ := exists_insert hinserts
  obtain ⟨cfg, route, req, response, options, hmw, past, l, hjob, rfl, -, -, -, hsuffix⟩ :=
    hfiled.inserter (hinsert.subset List.mem_cons_self)
  rw [hfirst] at hjob
  cases hjob
  have hreplayed := hretries 0 1 _ _ _ _ _ response earlier options hmw options hmw hfirst hretry
    hinsert hstart ⟨rfl, rfl, rfl, rfl, rfl⟩ (by decide)
  -- the first request was answered 201, the retry 402
  have hanswer : response ∈ answers c.trace 0 :=
    mem_answers.mpr ⟨_, mem_own.mp (hsuffix.subset List.mem_cons_self)⟩
  have hstatus : response.status = 201 := by simpa using List.all_eq_true.mp hcreated _ hanswer
  obtain ⟨a, ha, hcode⟩ := List.any_eq_true.mp hrefused
  rw [decide_eq_true_eq] at hcode
  rcases hreplayed.answered a ha with rfl | ⟨-, h401 | h429 | h500 | hno⟩
  · omega
  · omega
  · omega
  · omega
  · exact hno

end TrustGate.Api
