import TrustGate.Api.Nonces

set_option autoImplicit false

/-! # Replays where clients choose nonces

With client nonces allowed, a nonce that is not in the store of the server goes to `SET NX`, which
remembers it for ten minutes. That store knows nothing of nonces that `GETDEL` has consumed, so the
copy of a request with a server nonce goes through. It forgets after 600 seconds, which is the
width of the timestamp window, so that a copy let in at the window's end can come to `SET NX` too
late. Where neither happens no request goes through twice. -/

namespace TrustGate.Api

open Market Resumption

/-! ## Signed requests -/

/-- Two requests carry the same signature headers. -/
structure SameSigned (req req' : Request) : Prop where
  publicKey : req.publicKey = req'.publicKey
  timestamp : req.timestamp = req'.timestamp
  nonce : req.nonce = req'.nonce
  signature : req.signature = req'.signature

instance (req req' : Request) : Decidable (SameSigned req req') :=
  decidable_of_iff (req.publicKey = req'.publicKey ∧ req.timestamp = req'.timestamp ∧
      req.nonce = req'.nonce ∧ req.signature = req'.signature)
    ⟨fun ⟨hk, ht, hn, hs⟩ => ⟨hk, ht, hn, hs⟩, fun ⟨hk, ht, hn, hs⟩ => ⟨hk, ht, hn, hs⟩⟩

def Job.signed : Job → Option Request
  | .request _ _ req => some req
  | _ => none

theorem Job.of_signed {j : Job} {req : Request} (h : req ∈ (some j).bind Job.signed) :
    ∃ cfg route, j = .request cfg route req := by
  cases j with
  | request cfg route req' => cases h; exact ⟨cfg, route, rfl⟩
  | issueNonce cfg req' => cases h
  | service job => cases h

/-- One of the nonce stores accepts the nonce of `req`. -/
def accepts (req : Request) : Call Op Reply → Bool
  | ⟨_, .getDel key, .ok (some text)⟩ =>
      key = serverNonceKey req.publicKey req.nonce && text = req.timestamp
  | ⟨_, .setNx key _ _, .ok true⟩ => key = legacyNonceKey req.publicKey req.nonce
  | _ => false

/-- The nonce of a copy of the request was accepted before. -/
def Repeated (cfg : Config Op Reply Job Store) (req : Request) : Prop :=
  ∃ call ∈ cfg.trace, accepts req call = true ∧
    ∃ req' ∈ (cfg.jobOf call.pid).bind Job.signed, SameSigned req req'

/-- The key that `SET NX` is about to set. -/
def Op.setKey : Op → Option String
  | .setNx key _ _ => some key
  | _ => none

/-- When a process may come to `SET NX key`: a copy of a request only while the nonce that the
request has set there is remembered, a nonce request only while nobody carries its nonce. -/
def MaySet (cfg : Config Op Reply Job Store) (c : Outcome) (key : String) : Job → Prop
  | .request _ _ req => Repeated cfg req → (cfg.state.redis.find c.now key).isSome = true
  | .issueNonce _ _ =>
      ∀ p ∈ cfg.procs, ∀ req ∈ p.job.signed, serverNonceKey req.publicKey req.nonce ≠ key
  | .service _ => True

/-- What a run must heed. -/
def Guarded (cfg : Config Op Reply Job Store) : Act Job Outcome → Prop
  | .run pid c =>
      ∀ j ∈ cfg.jobOf pid, ∀ key ∈ (cfg.pending pid).bind Op.setKey, MaySet cfg c key j
  | _ => True

instance (cfg : Config Op Reply Job Store) (req : Request) : Decidable (Repeated cfg req) :=
  decidable_of_iff (cfg.trace.any fun call => accepts req call &&
      ((cfg.jobOf call.pid).bind Job.signed).any fun req' => decide (SameSigned req req')) (by
    unfold Repeated
    simp only [List.any_eq_true, Bool.and_eq_true, Option.any_eq_true, decide_eq_true_eq]
    rfl)

instance (cfg : Config Op Reply Job Store) (c : Outcome) (key : String) :
    DecidablePred (MaySet cfg c key)
  | .request _ _ req =>
      inferInstanceAs (Decidable (Repeated cfg req → (cfg.state.redis.find c.now key).isSome = true))
  | .issueNonce _ _ => inferInstanceAs (Decidable (∀ p ∈ cfg.procs, ∀ req ∈ p.job.signed,
      serverNonceKey req.publicKey req.nonce ≠ key))
  | .service _ => .isTrue trivial

instance (cfg : Config Op Reply Job Store) : DecidablePred (Guarded cfg)
  | .spawn _ => .isTrue trivial
  | .crash _ => .isTrue trivial
  | .run pid c => inferInstanceAs (Decidable (∀ j ∈ cfg.jobOf pid,
      ∀ key ∈ (cfg.pending pid).bind Op.setKey, MaySet cfg c key j))

/-- Signature checking is in force for the route, and clients may choose nonces. -/
def ClientNonces (cfg : Settings) (route : Route) : Prop :=
  cfg.allowClientNonce = true ∧ ∀ options ∈ route.auth cfg, options.bypassed cfg = false

/-- No signed request passes twice. -/
def NoReplay (c : Config Op Reply Job Store) : Prop :=
  ∀ pid pid' cfg cfg' route route' req req',
    ClientNonces cfg route → LetThrough c pid cfg route req →
    ClientNonces cfg' route' → LetThrough c pid' cfg' route' req' →
    SameSigned req req' → pid = pid'

/-! ## One acceptance for each signed request -/

theorem SameSigned.symm {req req' : Request} (h : SameSigned req req') : SameSigned req' req :=
  ⟨h.publicKey.symm, h.timestamp.symm, h.nonce.symm, h.signature.symm⟩

theorem accepts_congr {req req' : Request} (h : SameSigned req req') (call : Call Op Reply) :
    accepts req call = accepts req' call := by
  unfold accepts
  rw [h.publicKey, h.timestamp, h.nonce]

/-- The two ways to be accepted. -/
theorem accepts_cases {req : Request} {pid : Nat} {o : Op} {r : Reply o}
    (h : accepts req ⟨pid, o, r⟩ = true) :
    (⟨o, r⟩ : Done Op Reply) =
        ⟨.getDel (serverNonceKey req.publicKey req.nonce), .ok (some req.timestamp)⟩ ∨
      ∃ value seconds, (⟨o, r⟩ : Done Op Reply) =
        ⟨.setNx (legacyNonceKey req.publicKey req.nonce) value seconds, .ok true⟩ := by
  unfold accepts at h
  split at h
  · rename_i heq
    cases heq
    simp only [Bool.and_eq_true, decide_eq_true_eq] at h
    rw [h.1, h.2]
    exact .inl rfl
  · rename_i heq
    cases heq
    rw [decide_eq_true_eq] at h
    subst h
    exact .inr ⟨_, _, rfl⟩
  · cases h

/-- What holds in a run that heeds the guard. -/
structure Single (c : Config Op Reply Job Store) : Prop where
  kept : Kept c.jobOf c.state c.trace
  /-- A nonce that is there has never been asked for. -/
  untouched : ∀ key nonce v, c.state.redis (serverNonceKey key nonce) = some v →
    ∀ pid stored, ⟨pid, .getDel (serverNonceKey key nonce), .ok stored⟩ ∉ c.trace
  single : ∀ call ∈ c.trace, ∀ call' ∈ c.trace,
    ∀ req ∈ (c.jobOf call.pid).bind Job.signed, ∀ req' ∈ (c.jobOf call'.pid).bind Job.signed,
    SameSigned req req' → accepts req call = true → accepts req' call' = true →
      call.pid = call'.pid

section

variable {c : Config Op Reply Job Store} {pid : Nat} {cfg : Settings} {route : Route}
  {req : Request}

/-- A request asks for its own server nonce. -/
theorem Job.Calls.takes {h : Hist} {key : String}
    (hc : (Job.request cfg route req).Calls h (.getDel key)) :
    key = serverNonceKey req.publicKey req.nonce := by
  rcases hc with ho | ⟨options, -, hc⟩
  · cases ho
  · cases hc with
    | plain _ _ ho => cases ho
    | take => rfl

/-- Before a request comes to `SET NX`, the server did not know its nonce. -/
theorem Job.Calls.sets {h : Hist} {key value : String} {seconds : Nat}
    (hc : (Job.request cfg route req).Calls h (.setNx key value seconds)) :
    ⟨.getDel (serverNonceKey req.publicKey req.nonce), .ok none⟩ ∈ h := by
  rcases hc with ho | ⟨options, -, hc⟩
  · cases ho
  · cases hc with
    | plain _ _ ho => cases ho
    | legacy => exact List.mem_cons_self

/-- Whoever asks for a server nonce is a request that carries it. -/
theorem Kept.asked (h : Kept c.jobOf c.state c.trace) {key : String} {r : Reply (.getDel key)}
    (hmem : ⟨pid, .getDel key, r⟩ ∈ c.trace) :
    ∃ req ∈ (c.jobOf pid).bind Job.signed, key = serverNonceKey req.publicKey req.nonce := by
  obtain ⟨j, past, hj, hc, -⟩ := h.explained.of_mem hmem
  cases j with
  | issueNonce cfg req => cases hc with | plain _ _ ho => cases ho
  | service job => cases hc
  | request cfg route req => exact ⟨req, by rw [hj]; rfl, hc.takes⟩

/-- A request that was accepted by `SET NX` has asked for a server nonce in vain. -/
theorem Kept.asked_in_vain (h : Kept c.jobOf c.state c.trace) {key value : String} {seconds : Nat}
    {r : Reply (.setNx key value seconds)} (hreq : req ∈ (c.jobOf pid).bind Job.signed)
    (hmem : ⟨pid, .setNx key value seconds, r⟩ ∈ c.trace) :
    ⟨pid, .getDel (serverNonceKey req.publicKey req.nonce), .ok none⟩ ∈ c.trace := by
  obtain ⟨j, past, hj, hc, hsuffix⟩ := h.explained.of_mem hmem
  rw [hj] at hreq
  cases j with
  | issueNonce cfg req => cases hreq
  | service job => cases hreq
  | request cfg route req =>
      cases hreq
      exact mem_own.mp (hsuffix.subset (List.mem_cons_of_mem _ hc.sets))

end

section

variable {c : Config Op Reply Job Store} {a : Act Job Outcome}

theorem Single.idle (h : Single c) (he : Explained (.any : Regime Op Reply Job Outcome Store)
      Job.Calls (fun _ _ => True) c) (hkept : Kept (step api c a).jobOf (step api c a).state
      (step api c a).trace) (hs : (step api c a).state = c.state)
    (ht : (step api c a).trace = c.trace) : Single (step api c a) := by
  refine ⟨hkept, ?_, ?_⟩
  · rw [hs, ht]
    exact h.untouched
  · rw [ht]
    intro call hcall call' hcall' req hreq req' hreq'
    rw [he.jobOf_step hcall] at hreq
    rw [he.jobOf_step hcall'] at hreq'
    exact h.single call hcall call' hcall' req hreq req' hreq'

/-- A request that is accepted is the first of its kind. -/
theorem Single.first (h : Single c) {pid : Nat} {cfg : Settings} {route : Route} {req : Request}
    {o : Op} {out : Outcome} {r : Reply o} {s' : Store}
    (hjob : c.jobOf pid = some (.request cfg route req)) (hpending : c.pending pid = some o)
    (hG : Guarded c (.run pid out)) (hx : exec o out c.state = some (r, s'))
    (hacc : accepts req ⟨pid, o, r⟩ = true) {call : Call Op Reply} (hcall : call ∈ c.trace)
    {req' : Request} (hreq' : req' ∈ (c.jobOf call.pid).bind Job.signed)
    (hsame : SameSigned req req') : accepts req' call = false := by
  cases hacc' : accepts req' call with
  | false => rfl
  | true =>
    exfalso
    rcases accepts_cases hacc with heq | ⟨value, seconds, heq⟩
    -- the server's nonce was there, so that nobody has asked for it
    · cases heq
      obtain ⟨v, hv, -⟩ := exec_getDel_some hx
      have huntouched := h.untouched _ _ v hv
      obtain ⟨pid', o', r'⟩ := call
      rcases accepts_cases hacc' with heq' | ⟨value, seconds, heq'⟩
      · cases heq'
        rw [← hsame.publicKey, ← hsame.nonce] at hcall
        exact huntouched pid' _ hcall
      · cases heq'
        have hvain := h.kept.asked_in_vain hreq' hcall
        rw [← hsame.publicKey, ← hsame.nonce] at hvain
        exact huntouched pid' none hvain
    -- the client's nonce is still remembered
    · cases heq
      have hrepeated : Repeated c req :=
        ⟨call, hcall, (accepts_congr hsame call).trans hacc', req', hreq', hsame⟩
      have hfound := hG _ hjob _ (by rw [hpending]; rfl) hrepeated
      have hset := (exec_setNx hx).1
      rw [← Option.not_isSome, hfound] at hset
      cases hset

/-- A nonce that is there after a call has not been asked for. -/
theorem Single.untouched_call (h : Single c) {pid : Nat} {j : Job} {o : Op} {out : Outcome}
    {r : Reply o} {s' : Store} (hj : c.jobOf pid = some j) (hpending : c.pending pid = some o)
    (hc : j.Calls (own pid c.trace) o) (hG : Guarded c (.run pid out))
    (hx : exec o out c.state = some (r, s')) (key nonce : String) (v : RedisValue)
    (hv : s'.redis (serverNonceKey key nonce) = some v) (pid' : Nat) (stored : Option String) :
    ⟨pid', .getDel (serverNonceKey key nonce), .ok stored⟩ ∉
      (⟨pid, o, r⟩ :: c.trace : Trace Op Reply) := by
  intro hmem
  rcases List.mem_cons.mp hmem with heq | hold
  · cases heq
    rw [(exec_getDel hx).2] at hv
    cases hv
  rcases exec_key hx hc.countsOnly (isCounterKey_serverNonceKey key nonce) with
    hsame | ⟨-, hnone⟩ | ⟨value, seconds, rfl, -, -⟩
  · rw [hsame] at hv
    exact h.untouched key nonce v hv pid' stored hold
  · rw [hnone] at hv
    cases hv
  -- the key is only being set now: by the guard nobody carries the nonce yet
  · obtain ⟨cfg, req, -, -, -, rfl, -⟩ := hc.issues
    have hunknown := hG _ hj _ (by rw [hpending]; rfl)
    obtain ⟨req', hreq', hkey⟩ := h.kept.asked hold
    obtain ⟨j', hj', hsigned⟩ := Option.mem_bind_iff.mp hreq'
    obtain ⟨p, hp, rfl⟩ := Option.map_eq_some_iff.mp hj'
    exact hunknown p (List.mem_of_getElem? hp) req' hsigned hkey.symm

theorem Single.step (h : Single c) (he : Explained (.any : Regime Op Reply Job Outcome Store)
      Job.Calls (fun _ _ => True) c) (hG : Guarded c a) : Single (step api c a) := by
  obtain ⟨he', hcases⟩ := he.act_cases (Q := fun _ _ => True) body_follows a
  rcases hcases with ⟨hs, ht⟩ | ⟨pid, j, o, out, r, s', rfl, hpending, hj, hc, hx, hs, ht⟩
  · refine h.idle he ?_ hs ht
    rw [hs, ht]
    exact h.kept.mono fun pid j hj => jobOf_step hj a
  have hjobs {call : Call Op Reply} (hmem : call ∈ c.trace) :
      (Resumption.step api c (.run pid out)).jobOf call.pid = c.jobOf call.pid :=
    he.jobOf_step hmem (.run pid out)
  have hjob : (Resumption.step api c (.run pid out)).jobOf pid = some j := jobOf_step hj _
  refine ⟨?_, ?_, ?_⟩
  · rw [hs, ht]
    exact (h.kept.mono fun pid j hj => jobOf_step hj _).call hjob hc hx
  · rw [hs, ht]
    exact h.untouched_call hj hpending hc hG hx
  · rw [ht]
    intro call hcall call' hcall' req hreq req' hreq' hsame hacc hacc'
    rcases List.mem_cons.mp hcall with rfl | hcall <;>
      rcases List.mem_cons.mp hcall' with rfl | hcall'
    · rfl
    · exfalso
      rw [hjob] at hreq
      rw [hjobs hcall'] at hreq'
      obtain ⟨cfg, route, rfl⟩ := Job.of_signed hreq
      rw [h.first hj hpending hG hx hacc hcall' hreq' hsame] at hacc'
      cases hacc'
    · exfalso
      rw [hjob] at hreq'
      rw [hjobs hcall] at hreq
      obtain ⟨cfg, route, rfl⟩ := Job.of_signed hreq'
      rw [h.first hj hpending hG hx hacc' hcall hreq hsame.symm] at hacc
      cases hacc
    · rw [hjobs hcall] at hreq
      rw [hjobs hcall'] at hreq'
      exact h.single call hcall call' hcall' req hreq req' hreq' hsame hacc hacc'

end

/-- A request that was let through was accepted. -/
theorem Kept.accepted {c : Config Op Reply Job Store} (h : Kept c.jobOf c.state c.trace)
    {pid : Nat} {cfg : Settings} {route : Route} {req : Request} (hmode : ClientNonces cfg route)
    (hpass : LetThrough c pid cfg route req) :
    ∃ call ∈ c.trace, call.pid = pid ∧ accepts req call = true := by
  obtain ⟨r, hnext⟩ := hpass.next
  obtain ⟨j, past, hj, hc, hsuffix⟩ := h.explained.of_mem hnext
  rw [hpass.job] at hj
  cases hj
  have hmem {d : Done Op Reply} (hd : d ∈ past) : (⟨pid, d.op, d.reply⟩ : Call Op Reply) ∈ c.trace :=
    mem_own.mp (hsuffix.subset (List.mem_cons_of_mem _ hd))
  obtain ⟨options, hauth, hb | ⟨now, h', -, rfl | ⟨-, rfl⟩⟩⟩ := hc.passes
  · rw [hmode.2 options hauth] at hb
    cases hb
  · exact ⟨_, hmem List.mem_cons_self, rfl, by simp [accepts]⟩
  · exact ⟨_, hmem List.mem_cons_self, rfl, by simp [accepts]⟩

/-- **No signed request passes twice**, in every run in which no copy of a request comes to
`SET NX` after `GETDEL` has consumed its nonce, nor after its nonce there is forgotten. -/
theorem no_replay_guarded (s : Store) (sched : List (Act Job Outcome))
    (heeds : Heeds api Guarded (.initial { s with redis := .empty }) sched) :
    NoReplay (runSched api (.initial { s with redis := .empty }) sched) := by
  have h : Single (runSched api (.initial { s with redis := .empty }) sched) := by
    refine runSched_heeds (P := Job.Calls) (Q := fun _ _ => True) body_follows
      (fun c a he h hG => h.step he hG) sched _ ?_ (.initial _) heeds
    exact ⟨.initial s _, fun _ _ _ hv => (nomatch hv), fun _ hcall => (nomatch hcall)⟩
  intro pid pid' cfg cfg' route route' req req' hmode hpass hmode' hpass' hsame
  obtain ⟨call, hcall, rfl, hacc⟩ := h.kept.accepted hmode hpass
  obtain ⟨call', hcall', rfl, hacc'⟩ := h.kept.accepted hmode' hpass'
  exact h.single call hcall call' hcall' req (by rw [hpass.job]; rfl) req'
    (by rw [hpass'.job]; rfl) hsame hacc hacc'

/-! ## Two runs -/

/-- A process that allows client nonces. -/
def clientNonceSettings : Settings := { toPlatform := echoPlatform, allowClientNonce := true }

def smokeKey : String := "GAAAAAAAAAAAAAAAAAAAAAAAAAAAAAAAAAAAAAAAAAAAAAAAAAAAAAAA"

/-- A request to `POST /auth/signed-smoke`, signed at the time 5 with the nonce `n`. -/
def smokeRequest : Request where
  method := "POST"
  method_known := post_known
  originalUrl := "/auth/signed-smoke"
  ip := ""
  headers := [("x-tg-public-key", smokeKey), ("x-tg-timestamp", "5"), ("x-tg-nonce", "n"),
    ("x-tg-signature", "POST\n/auth/signed-smoke\n5\nn\n7b7d")]
  rawBody := some (bufferOf "{}")
  body := some (.obj [])
  rawBody_of_body := fun _ => rfl

def nonceRequest : Request where
  method := "POST"
  method_known := post_known
  originalUrl := "/auth/nonce"
  ip := ""
  headers := []
  rawBody := some (bufferOf "{}")
  body := some (.obj [("publicKey", .str smokeKey)])
  rawBody_of_body := fun _ => rfl

def emptyStore : Store where
  market := {
    backend := .inMemory
    tasks := []
    bids := []
    results := []
    outbox := []
    consumptions := []
    stream := ⟨[], 0, 0, []⟩
    issued := [] }
  redis := .empty
  records := []
  executors := []

/-- The process goes on for `n` calls at the time 5; the UUID drawn is `n`. -/
def goOn (pid n : Nat) : List (Act Job Outcome) :=
  List.replicate n (.run pid { now := 5, text := "n" })

/-- The nonce is issued, and a request uses it. -/
def issueAndUse : List (Act Job Outcome) :=
  .spawn (.issueNonce clientNonceSettings nonceRequest) :: goOn 0 7 ++
    .spawn (.request clientNonceSettings .signedSmoke smokeRequest) :: goOn 1 5

theorem issued_nonce_not_replayed :
    NoReplay (runSched api (.initial { emptyStore with redis := .empty }) issueAndUse) :=
  no_replay_guarded emptyStore issueAndUse (by decide +kernel)

/-- The process is let through in this call. -/
def passes (pid : Nat) : Call Op Reply → Bool
  | ⟨p, .next .signatureAuth, _⟩ => p = pid
  | _ => false

theorem exists_next_of_any {t : Trace Op Reply} {pid : Nat} (h : t.any (passes pid) = true) :
    ∃ r, ⟨pid, .next .signatureAuth, r⟩ ∈ t := by
  obtain ⟨call, hcall, hp⟩ := List.any_eq_true.mp h
  unfold passes at hp
  split at hp
  · rw [decide_eq_true_eq] at hp
    subst hp
    exact ⟨_, hcall⟩
  · cases hp

/-- A nonce request, a request and its copy. -/
def smokeJobs : List (Act Job Outcome) := [
  .spawn (.issueNonce clientNonceSettings nonceRequest),
  .spawn (.request clientNonceSettings .signedSmoke smokeRequest),
  .spawn (.request clientNonceSettings .signedSmoke smokeRequest)]

/-- They come one after the other. -/
def useTwice : Config Op Reply Job Store :=
  runSched api (.initial { emptyStore with redis := .empty })
    (smokeJobs ++ (goOn 0 7 ++ goOn 1 5 ++ goOn 2 5))

theorem useTwice_passes (pid : Nat)
    (hjob : (runSched api (.initial { emptyStore with redis := .empty }) smokeJobs).jobOf pid =
      some (.request clientNonceSettings .signedSmoke smokeRequest))
    (hnext : useTwice.trace.any (passes pid) = true) :
    LetThrough useTwice pid clientNonceSettings .signedSmoke smokeRequest := by
  refine ⟨?_, exists_next_of_any hnext⟩
  unfold useTwice
  rw [runSched_append]
  exact jobOf_runSched _ _ hjob

/-- The copy passes too: `GETDEL` finds nothing, and `SET NX` sees the nonce for the first time. -/
theorem server_nonce_replayed :
    ¬ ∀ (s : Store) (sched : List (Act Job Outcome)),
      NoReplay (runSched api (.initial { s with redis := .empty }) sched) := by
  intro h
  have hmode : ClientNonces clientNonceSettings .signedSmoke := by
    refine ⟨rfl, ?_⟩
    rintro options ⟨⟩
    rfl
  have hfirst := useTwice_passes 1 rfl (by decide +kernel)
  have hcopy := useTwice_passes 2 rfl (by decide +kernel)
  have hno : NoReplay useTwice := h emptyStore _
  have heq := hno 1 2 _ _ _ _ _ _ hmode hfirst hmode hcopy ⟨rfl, rfl, rfl, rfl⟩
  exact absurd heq (by decide)

end TrustGate.Api
