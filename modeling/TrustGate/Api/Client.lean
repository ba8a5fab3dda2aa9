import TrustGate.Api.Owners
import TrustGate.Market.Money
import TrustGate.Lib.Base64
import TrustGate.Lib.Solo

set_option autoImplicit false

/-! # The frontend's signer

`signedRequest` in `frontend/src/api.ts` asks for a nonce and signs a request with it. It takes the
timestamp from its own clock, where the server recorded one with the nonce, and has its own notion
of the digest of an empty body. What follows says exactly which of its requests `signatureAuth`
lets through. -/

namespace TrustGate.Api

open Market Resumption Lines

/-! ## signedRequest -/

/-- What the signer reads of a `RequestInit`; the callers' bodies are strings. -/
structure RequestInit where
  method : Option String := none
  body : Option String := none

namespace RequestInit

/-- `init.method || 'GET'`. -/
def methodText (init : RequestInit) : String := (init.method.filter fun s => s ≠ "").getD "GET"

/-- `init.body ? await sha256Hex(String(init.body)) : ''`. -/
def bodyHash (p : Platform) (init : RequestInit) : String :=
  match init.body.filter fun s => s ≠ "" with
  | none => ""
  | some body => p.sha256Hex (bufferOf body)

/-- What is signed. -/
def payload (p : Platform) (init : RequestInit) (path : String) (timestamp : Nat)
    (nonce : String) : Buffer :=
  bufferOf (init.methodText ++ "\n" ++ path ++ "\n" ++ toString timestamp ++ "\n" ++ nonce ++ "\n"
    ++ init.bodyHash p)

end RequestInit

/-- A key pair of the Stellar SDK. -/
structure Signer (p : Platform) where
  publicKey : String
  sign : Buffer → Buffer
  sign_length : ∀ data, (sign data).length = 64
  verify_sign : ∀ data, p.verify publicKey data (sign data) = .ok true

/-- The headers that `signedRequest` adds at the time `now`, having been answered `nonceRes`. -/
def signedHeaders {p : Platform} (signer : Signer p) (init : RequestInit) (path : String)
    (now : Nat) (nonceRes : Json) : List (String × String) :=
  let nonce := nonceRes.text "nonce"
  let signature := signer.sign (init.payload p path now nonce)
  [("x-tg-public-key", signer.publicKey), ("x-tg-timestamp", toString now),
    ("x-tg-nonce", nonce), ("x-tg-signature", String.ofList (Base64.encode signature))]

/-! ## What arrives -/

/-- `fetch` puts these methods in capitals and passes on others as they are. -/
def fetchMethod (method : String) : String :=
  let upper := String.ofList (method.toList.map Char.toUpper)
  if upper ∈ ["DELETE", "GET", "HEAD", "OPTIONS", "POST", "PUT"] then upper else method

/-- The request that the server gets. `express.json` reads a body that is declared as JSON, and an
absent one as empty, or it reads none. -/
structure Arrives {p : Platform} (signer : Signer p) (init : RequestInit) (path : String)
    (now : Nat) (nonceRes : Json) (req : Request) : Prop where
  method : req.method = fetchMethod init.methodText
  headers : ∀ h ∈ signedHeaders signer init path now nonceRes, req.header h.1 = h.2
  body : req.rawBody = some (bufferOf (init.body.getD "")) ∨ req.rawBody = none ∧ req.body = none

/-- The bytes that the server takes the digest of. -/
def Platform.hashedBody (p : Platform) (req : Request) : Buffer :=
  req.rawBody.getD (bufferOf (p.stringify (req.body.getD (.obj []))))

section

variable {p : Platform} {signer : Signer p} {init : RequestInit} {path : String} {now : Nat}
  {nonceRes : Json} {req : Request}

theorem Arrives.publicKey (h : Arrives signer init path now nonceRes req) :
    req.publicKey = signer.publicKey :=
  h.headers _ List.mem_cons_self

theorem Arrives.timestamp (h : Arrives signer init path now nonceRes req) :
    req.timestamp = toString now :=
  h.headers _ (List.mem_cons_of_mem _ List.mem_cons_self)

theorem Arrives.nonce (h : Arrives signer init path now nonceRes req) :
    req.nonce = nonceRes.text "nonce" :=
  h.headers _ (List.mem_cons_of_mem _ (List.mem_cons_of_mem _ List.mem_cons_self))

theorem Arrives.signature (h : Arrives signer init path now nonceRes req) :
    req.signature = String.ofList
      (Base64.encode (signer.sign (init.payload p path now (nonceRes.text "nonce")))) :=
  h.headers _ (List.mem_cons_of_mem _ (List.mem_cons_of_mem _
    (List.mem_cons_of_mem _ List.mem_cons_self)))

/-- What Node does with digests and signatures on the way. -/
structure Platform.Sound (p : Platform) : Prop where
  hash : Function.Injective p.sha256Hex
  digest : ∀ buf, p.sha256Hex buf ≠ ""
  base64 : ∀ bytes, p.fromBase64 (String.ofList (Base64.encode bytes)) = bytes

/-- The text of a signature is padded, so that it is never taken for hexadecimal. -/
theorem parseSignature_encode (sound : p.Sound) {bytes : Buffer} (h : bytes.length % 3 ≠ 0) :
    p.parseSignature (String.ofList (Base64.encode bytes)) = bytes := by
  have hspace : ∀ c ∈ Base64.encode bytes, isJsSpace c = false := by
    intro c hc
    have hall : (Base64.alphabet.all fun c => !isJsSpace c) = true := by decide
    have halphabet : ∀ c ∈ Base64.alphabet, isJsSpace c = false := fun c hc => by
      simpa using List.all_eq_true.mp hall c hc
    rcases Base64.mem_encode hc with hmem | rfl
    · exact halphabet c hmem
    · decide
  unfold Platform.parseSignature
  dsimp only
  rw [String.toList_ofList, jsTrim_eq hspace, if_neg, sound.base64]
  intro hhex
  simp only [Bool.and_eq_true, List.all_eq_true] at hhex
  exact absurd (hhex.1.2 '=' (Base64.pad_mem_encode h)) (by decide)

/-! ## The signed string -/

theorem fetchMethod_line {method : String} (h : '\n' ∉ (fetchMethod method).toList) :
    '\n' ∉ method.toList := by
  unfold fetchMethod at h
  dsimp only at h
  split_ifs at h with hknown
  · intro hline
    have hupper : '\n' ∈ (String.ofList (method.toList.map Char.toUpper)).toList := by
      rw [String.toList_ofList]
      exact List.mem_map.mpr ⟨'\n', hline, rfl⟩
    exact h hupper
  · exact h

theorem RequestInit.bodyHash_line (p : Platform) (init : RequestInit) :
    '\n' ∉ (init.bodyHash p).toList := by
  unfold RequestInit.bodyHash
  split
  · simp
  · exact p.sha256Hex_line _

/-- The client's digest is the server's only for a body of the same bytes. -/
theorem bodyHash_eq_iff (sound : p.Sound) :
    p.bodyHash req = init.bodyHash p ↔
      ∃ body, init.body = some body ∧ body ≠ "" ∧ p.hashedBody req = bufferOf body := by
  unfold RequestInit.bodyHash
  cases hbody : init.body.filter fun s => s ≠ "" with
  | none =>
      constructor
      · exact fun heq => absurd heq (sound.digest _)
      · rintro ⟨body, hsome, hne, -⟩
        simp [hsome, hne] at hbody
  | some body =>
      obtain ⟨hsome, hne⟩ := Option.filter_eq_some_iff.mp hbody
      constructor
      · exact fun heq => ⟨body, hsome, of_decide_eq_true hne, sound.hash heq⟩
      · rintro ⟨body', hsome', -, hbytes⟩
        obtain rfl : body = body' := Option.some.inj (hsome.symm.trans hsome')
        exact congrArg p.sha256Hex hbytes

/-- What the client and the server take to be signed agrees only where its parts do. -/
theorem payload_eq_iff (sound : p.Sound) (h : Arrives signer init path now nonceRes req) :
    p.signedPayload req = init.payload p path now (nonceRes.text "nonce") ↔
      fetchMethod init.methodText = init.methodText ∧ req.path = path ∧
        ∃ body, init.body = some body ∧ body ≠ "" ∧ p.hashedBody req = bufferOf body := by
  rw [← bodyHash_eq_iff sound]
  unfold Platform.signedPayload RequestInit.payload
  rw [req.upperMethod_eq, h.timestamp, h.nonce, ← h.method]
  constructor
  · intro heq
    have htext := congrArg String.toList (bufferOf_inj heq)
    have hline (l : List Char) : "\n".toList ++ l = '\n' :: l := by simp
    simp only [String.toList_append, List.append_assoc] at htext
    simp only [hline] at htext
    have hmethod : '\n' ∉ req.method.toList := fun hm => (req.method_known _ hm).2 rfl
    obtain ⟨hm, hrest⟩ := append_cons_inj hmethod (fetchMethod_line (h.method ▸ hmethod)) htext
    -- the digest is what follows the last line feed
    have hregroup (path hash : List Char) : path ++ '\n' :: ((toString now).toList ++ '\n' ::
        ((nonceRes.text "nonce").toList ++ '\n' :: hash)) =
        (path ++ '\n' :: ((toString now).toList ++ '\n' :: (nonceRes.text "nonce").toList)) ++
          '\n' :: hash := by simp
    rw [hregroup, hregroup] at hrest
    obtain ⟨hpath, hhash⟩ := append_cons_inj_right (p.sha256Hex_line _) (init.bodyHash_line p) hrest
    exact ⟨String.toList_inj.mp hm, String.toList_inj.mp (List.append_cancel_right hpath),
      String.toList_inj.mp hhash⟩
  · rintro ⟨hmethod, hpath, hhash⟩
    rw [hmethod, hpath, hhash]

end

/-! ## A nonce -/

/-- Every call succeeds, and a UUID is not the empty string. -/
def Reliable (o : Op) (c : Outcome) : Prop :=
  c.fault = .none ∧ (o = .market .randomUUID → c.text ≠ "")

/-- The response was sent. -/
def Sent (log : Log Op Reply Outcome) (response : Response) : Prop :=
  ∃ e ∈ log, e.op = .json response

/-- The response carries a nonce for the key, and the store has it with the response's timestamp. -/
structure Granted (publicKey : String) (nonceRes : Json) (m : Store) : Prop where
  nonce : nonceRes.text "nonce" ≠ ""
  stored : ∃ expireAt, m.redis (serverNonceKey publicKey (nonceRes.text "nonce")) =
    some ⟨nonceRes.text "timestamp", expireAt⟩

theorem exec_reliable {o : Op} {c : Outcome} {m : Store} (h : c.fault = .none) :
    exec o c m = perform c m o := by
  unfold exec
  rw [h]

section

variable {m : Store} {G : Response → Store → Prop}

/-- Every response of status 200 that is sent is as `G` says. -/
def Grants (G : Response → Store → Prop) (log : Log Op Reply Outcome) (m : Store) : Prop :=
  ∀ response, Sent log response → response.status = 200 → G response m

theorem solo_respond {response : Response} (h : response.status = 200 → G response m) :
    Solo exec Reliable (respond response) m fun log _ m' => Grants G log m' := by
  refine solo_call.mpr ?_
  rintro c r m' hok hexec response' ⟨e, he, hsent⟩ hstatus
  rw [List.mem_singleton.mp he] at hsent
  cases hsent
  rw [exec_reliable hok.1] at hexec
  cases hexec
  exact h hstatus

/-- What goes before sends nothing. -/
theorem solo_before {α : Type} {x : Js α} {f : α → Js Unit}
    (hx : Only (fun o => ∀ response, o ≠ .json response) x)
    (h : ∀ log v m', Runs exec Reliable x.run m log (.ok v) m' →
      Solo exec Reliable (f v) m' fun log _ m'' => Grants G log m'') :
    Solo exec Reliable (x >>= f) m fun log _ m' => Grants G log m' := by
  rw [solo_bind]
  intro log r m' hruns
  have hquiet : ∀ e ∈ log, ∀ response, e.op ≠ .json response := Only.log hx log r m' hruns
  cases r with
  | error e =>
      rintro response ⟨e, he, hsent⟩
      exact absurd hsent (hquiet e he response)
  | ok v =>
      refine (h log v m' hruns).mono fun log' r' m'' hgrants response hsent => ?_
      obtain ⟨e, he, hop⟩ := hsent
      rcases List.mem_append.mp he with he | he
      · exact absurd hop (hquiet e he response)
      · exact hgrants response ⟨e, he, hop⟩

/-- A call that goes before. -/
theorem solo_before_call {o : Op} {f : Value o → Js Unit} (ho : ∀ response, o ≠ .json response)
    (h : ∀ c v m', Reliable o c → exec o c m = some (.ok v, m') →
      Solo exec Reliable (f v) m' fun log _ m'' => Grants G log m'') :
    Solo exec Reliable (await o >>= f) m fun log _ m' => Grants G log m' := by
  refine solo_before (.call ho) ?_
  rintro log v m' ⟨c, r, m₁, rest, hok, hexec, rfl, -, hr, rfl⟩
  cases hr
  exact h c v m' hok hexec

end

/-- **A fresh nonce**: the store has what the response says. -/
theorem issueNonce_solo (cfg : Settings) (nonceReq : Request) (m : Store) :
    Solo exec Reliable (issueNonce cfg nonceReq) m fun log _ m' => Grants (fun response m' =>
      cfg.fromPublicKey (noncePublicKey nonceReq) = true ∧
        Granted (noncePublicKey nonceReq) response.body m') log m' := by
  unfold issueNonce
  dsimp only
  split_ifs with hempty hvalid
  · exact solo_respond (by simp [errorResponse])
  swap
  · exact solo_respond (by simp [errorResponse])
  refine solo_before_call (by simp) fun c _ m₁ _ _ => ?_
  refine solo_before (only_incrWithTtl (by simp) (by simp)) fun log ipCount m₂ _ => ?_
  split_ifs
  · exact solo_respond (by simp [errorResponse])
  refine solo_before_call (by simp) fun c timestamp m₃ _ _ => ?_
  refine solo_before_call (by simp) fun c nonce m₄ hok huuid => ?_
  have hnonce : nonce = c.text := by
    rw [exec_reliable hok.1] at huuid
    simp only [perform, Market.perform] at huuid
    split_ifs at huuid
    · cases huuid
    · rw [Option.map_some] at huuid
      cases huuid
      rfl
  refine solo_before_call (by simp) fun c' set m₅ _ hset => ?_
  split_ifs with hfree
  · refine solo_respond fun _ => ⟨hvalid, ?_, _, (exec_setNx hset).2 hfree⟩
    exact hnonce ▸ hok.2 rfl
  · exact solo_respond (by simp [errorResponse])

/-! ## At the server -/

/-- The request was let through. -/
def Accepted (log : Log Op Reply Outcome) : Prop := ∃ e ∈ log, e.op = .next .signatureAuth

theorem accepted_cons {e : Entry Op Reply Outcome} {log : Log Op Reply Outcome}
    (h : e.op ≠ .next .signatureAuth) : Accepted (e :: log) ↔ Accepted log := by
  unfold Accepted
  simp [h]

/-- Every call succeeds, the server's clock is within five minutes of the client's, and what is
looked up in `m` has not expired. -/
def InTime (m : Store) (now : Nat) (o : Op) (c : Outcome) : Prop :=
  c.fault = .none ∧ (o = .market .dateNow → |(c.now : Rat) - now| ≤ allowedWindow) ∧
    ∀ key, o = .getDel key → m.redis.find c.now key = m.redis key

section

variable {cfg : Settings} {options : SignatureAuthOptions} {req : Request} {next : Js Unit}
  {m m₀ : Store} {now : Nat}

theorem fail_rejects (ip publicKey error : String) :
    Solo exec (InTime m₀ now) (fail ip publicKey error) m fun log _ _ => ¬ Accepted log := by
  have honly : Only (fun o => o ≠ .next .signatureAuth) (fail ip publicKey error) :=
    only_fail (by simp) (by simp) (by simp) (by simp) ip publicKey error
  refine (Only.log honly).mono ?_
  rintro log r m' hall ⟨e, he, hop⟩
  exact hall e he hop

/-- The nonce step lets the request through if its timestamp is the one stored. -/
theorem consumeNonce_solo {text : String} {expireAt : Option Nat}
    (hstored : m.redis (serverNonceKey req.publicKey req.nonce) = some ⟨text, expireAt⟩) :
    Solo exec (InTime m now) (consumeNonce cfg options req next) m fun log _ _ =>
      (Accepted log ↔ req.timestamp = text) := by
  unfold consumeNonce
  rw [solo_attempt_call_bind]
  rintro c r m₁ hok hexec
  rw [exec_reliable hok.1] at hexec
  cases hexec
  dsimp only
  rw [solo_call_bind]
  refine ⟨?_, ?_⟩
  swap
  · rintro c' e m₂ hok' hexec
    rw [exec_reliable hok'.1] at hexec
    cases hexec
  rintro c' stored m₂ hok' hexec
  obtain ⟨hfound, -⟩ := exec_getDel hexec
  rw [hok'.2.2 _ rfl, hstored] at hfound
  cases hfound
  rw [Option.map_some]
  dsimp only
  split_ifs with hother
  · refine (fail_rejects _ _ _).mono fun log _ _ hno => ?_
    rw [accepted_cons (by simp), accepted_cons (by simp)]
    exact iff_of_false hno fun heq => hother heq.symm
  · rw [solo_call_bind]
    have hpassed {e : Entry Op Reply Outcome} {log : Log Op Reply Outcome}
        (he : e.op = .next .signatureAuth) (e₁ e₂ : Entry Op Reply Outcome) :
        Accepted (e₁ :: e₂ :: e :: log) :=
      ⟨e, List.mem_cons_of_mem _ (List.mem_cons_of_mem _ List.mem_cons_self), he⟩
    exact ⟨fun _ _ _ _ _ _ _ _ _ => iff_of_true (hpassed rfl _ _) (not_not.mp hother).symm,
      fun _ _ _ _ _ => iff_of_true (hpassed rfl _ _) (not_not.mp hother).symm⟩

/-- The request passes every check up to the nonce. -/
theorem signatureAuth_solo (henforced : options.bypassed cfg = false)
    (hkey : cfg.fromPublicKey req.publicKey = true) (htimestamp : req.timestamp = toString now)
    (hnonce : req.nonce ≠ "") (hsignature : req.signature ≠ "") {text : String}
    {expireAt : Option Nat}
    (hstored : m.redis (serverNonceKey req.publicKey req.nonce) = some ⟨text, expireAt⟩) :
    Solo exec (InTime m now) (signatureAuth cfg options req next) m fun log _ _ =>
      (Accepted log ↔ options.mismatch req = none ∧
        cfg.verify req.publicKey (cfg.signedPayload req) (cfg.parseSignature req.signature) =
          .ok true ∧ req.timestamp = text) := by
  have hnumber : cfg.number req.timestamp = some (now : Rat) := by
    rw [htimestamp]
    exact cfg.number_date now
  have hpublic : req.publicKey ≠ "" := by
    intro heq
    have hstrkey := cfg.isStrkey_of_fromPublicKey _ hkey
    rw [heq] at hstrkey
    cases hstrkey
  have hstamp : req.timestamp ≠ "" := by
    intro heq
    have hdecimal := decimal_toString now
    rw [← htimestamp, heq] at hdecimal
    simp [decimal] at hdecimal
  unfold signatureAuth
  rw [if_neg (by simp [henforced]), if_neg (by simp [hpublic, hstamp, hnonce, hsignature]), hnumber]
  dsimp only
  rw [solo_call_bind]
  refine ⟨?_, ?_⟩
  swap
  · rintro c e m₁ hok hexec
    rw [exec_reliable hok.1] at hexec
    cases hexec
  rintro c v m₁ hok hexec
  rw [exec_reliable hok.1] at hexec
  cases hexec
  rw [if_neg (not_lt.mpr (hok.2.1 rfl))]
  have hfirst {log : Log Op Reply Outcome} :
      Accepted (⟨.market .dateNow, c, .ok c.now⟩ :: log) ↔ Accepted log := accepted_cons (by simp)
  unfold checkSignature
  cases hmismatch : options.mismatch req with
  | some field =>
      refine (fail_rejects _ _ _).mono fun log _ _ hno => ?_
      exact iff_of_false (fun h => hno (hfirst.mp h)) (by simp)
  | none =>
      dsimp only
      rw [if_neg (not_not.mpr hkey)]
      match hverify : cfg.verify req.publicKey (cfg.signedPayload req)
          (cfg.parseSignature req.signature) with
      | .error e =>
          rw [solo_throw, hfirst]
          exact iff_of_false (by simp [Accepted]) (by simp)
      | .ok false =>
          refine (fail_rejects _ _ _).mono fun log _ _ hno => ?_
          exact iff_of_false (fun h => hno (hfirst.mp h)) (by simp)
      | .ok true =>
          refine (consumeNonce_solo hstored).mono fun log _ _ hiff => ?_
          rw [hfirst, hiff]
          simp

end

/-! ## From client to server -/

/-- The nonce was issued to the key with this response, and nothing has touched it since. -/
def FromNonce (cfg : Settings) (publicKey : String) (nonceRes : Json) (m : Store) : Prop :=
  ∃ nonceReq m₀ log r m₁ response, noncePublicKey nonceReq = publicKey ∧
    Runs exec Reliable (issueNonce cfg nonceReq).run m₀ log r m₁ ∧ Sent log response ∧
    response.status = 200 ∧ response.body = nonceRes ∧
    m.redis (serverNonceKey publicKey (nonceRes.text "nonce")) =
      m₁.redis (serverNonceKey publicKey (nonceRes.text "nonce"))

/-- A request of the client's that gets to the server with its nonce unused. -/
structure Delivered (cfg : Settings) (options : SignatureAuthOptions)
    (signer : Signer cfg.toPlatform) (init : RequestInit) (path : String) (now : Nat)
    (nonceRes : Json) (req : Request) (m : Store) : Prop where
  enforced : options.bypassed cfg = false
  nonce : FromNonce cfg signer.publicKey nonceRes m
  arrives : Arrives signer init path now nonceRes req
  /-- The signature is no signature of another string. -/
  unforged : cfg.verify signer.publicKey (cfg.signedPayload req)
      (signer.sign (init.payload cfg.toPlatform path now (nonceRes.text "nonce"))) = .ok true →
    cfg.signedPayload req = init.payload cfg.toPlatform path now (nonceRes.text "nonce")

/-- The client's clock shows the timestamp that was issued, and what the client signed is what the
server sees. -/
structure SeenAlike (cfg : Settings) (options : SignatureAuthOptions) (init : RequestInit)
    (path : String) (now : Nat) (nonceRes : Json) (req : Request) : Prop where
  clock : toString now = nonceRes.text "timestamp"
  method : fetchMethod init.methodText = init.methodText
  path : req.path = path
  body : ∃ body, init.body = some body ∧ body ≠ "" ∧ cfg.hashedBody req = bufferOf body
  actor : options.mismatch req = none

section

variable {cfg : Settings} {options : SignatureAuthOptions} {signer : Signer cfg.toPlatform}
  {init : RequestInit} {path : String} {now : Nat} {nonceRes : Json} {req : Request} {m : Store}

theorem Delivered.solo (sound : cfg.Sound)
    (h : Delivered cfg options signer init path now nonceRes req m) (next : Js Unit) :
    Solo exec (InTime m now) (signatureAuth cfg options req next) m fun log _ _ =>
      (Accepted log ↔ SeenAlike cfg options init path now nonceRes req) := by
  obtain ⟨nonceReq, m₀, log₀, r₀, m₁, response, hkey, hruns, hsent, hstatus, rfl, hstored⟩ :=
    h.nonce
  obtain ⟨hvalid, hgranted⟩ :=
    issueNonce_solo cfg nonceReq m₀ log₀ r₀ m₁ hruns response hsent hstatus
  rw [hkey] at hvalid hgranted
  obtain ⟨expireAt, hfresh⟩ := hgranted.stored
  have harrives := h.arrives
  have hlength : (signer.sign (init.payload cfg.toPlatform path now
      (response.body.text "nonce"))).length % 3 ≠ 0 := by
    rw [signer.sign_length]
    decide
  have hsignature : req.signature ≠ "" := by
    intro heq
    have hpad := Base64.pad_mem_encode hlength
    rw [harrives.signature] at heq
    have hnil := congrArg String.toList heq
    rw [String.toList_ofList] at hnil
    rw [hnil] at hpad
    cases hpad
  have hunused : m.redis (serverNonceKey req.publicKey req.nonce) =
      some ⟨response.body.text "timestamp", expireAt⟩ := by
    rw [harrives.publicKey, harrives.nonce, hstored]
    exact hfresh
  refine (signatureAuth_solo h.enforced (harrives.publicKey ▸ hvalid) harrives.timestamp
    (harrives.nonce ▸ hgranted.nonce) hsignature hunused).mono ?_
  intro log r m' hiff
  rw [hiff, harrives.publicKey, harrives.signature, parseSignature_encode sound hlength,
    harrives.timestamp]
  constructor
  · rintro ⟨hactor, hverify, hclock⟩
    obtain ⟨hmethod, hpath, hbody⟩ := (payload_eq_iff sound harrives).mp (h.unforged hverify)
    exact ⟨hclock, hmethod, hpath, hbody, hactor⟩
  · rintro ⟨hclock, hmethod, hpath, hbody, hactor⟩
    refine ⟨hactor, ?_, hclock⟩
    rw [(payload_eq_iff sound harrives).mpr ⟨hmethod, hpath, hbody⟩]
    exact signer.verify_sign _

/-- **A request of the frontend's is let through exactly if client and server see it alike**: the
client's clock shows the timestamp that the server issued, the method is written in capitals, the
path goes as it was signed, and there is a body that the server reads. -/
theorem signedRequest_accepted_iff (sound : cfg.Sound)
    (h : Delivered cfg options signer init path now nonceRes req m) (next : Js Unit)
    (log : Log Op Reply Outcome) (r : Except JsError Unit) (m' : Store)
    (hruns : Runs exec (InTime m now) (signatureAuth cfg options req next).run m log r m') :
    Accepted log ↔ SeenAlike cfg options init path now nonceRes req :=
  h.solo sound next log r m' hruns

end

/-! ## Two clocks -/

/-- The first 64 bytes of what is signed. -/
def pad64 (data : Buffer) : Buffer := (data ++ List.replicate 64 0).take 64

/-- For runs on fixed inputs: a digest is a text, a signature the beginning of what is signed. -/
def clientPlatform : Platform :=
  { echoPlatform with
    sha256Hex := fun buf => "d" ++ echoPlatform.sha256Hex buf
    sha256Hex_line := fun buf => by
      rw [String.toList_append, List.mem_append]
      rintro (h | h)
      · simp at h
      · exact echoPlatform.sha256Hex_line buf h
    fromBase64 := fun s => Base64.decode s.toList
    verify := fun _ data sig => .ok (sig = pad64 data) }

theorem clientPlatform_sound : clientPlatform.Sound where
  hash := by
    intro buf buf' h
    have hlist := congrArg String.toList h
    simp only [clientPlatform, String.toList_append] at hlist
    exact echoPlatform_inj (String.toList_inj.mp (List.append_cancel_left hlist))
  digest := by
    intro buf h
    have hlist := congrArg String.toList h
    simp [clientPlatform] at hlist
  base64 := by
    intro bytes
    change Base64.decode (String.ofList (Base64.encode bytes)).toList = bytes
    rw [String.toList_ofList, Base64.decode_encode]

def clientSigner : Signer clientPlatform where
  publicKey := smokeKey
  sign := pad64
  sign_length data := by simp [pad64]
  verify_sign data := by simp [clientPlatform]

def clientSettings : Settings := { toPlatform := clientPlatform }

/-- What the nonce request is answered. -/
def nonceAnswer : Json := .obj [
  ("version", .num "1"), ("publicKey", .str smokeKey), ("timestamp", .num (toString 5)),
  ("nonce", .str "n"), ("ttlSeconds", .num "600")]

theorem reliable_at_five {n : Nat} {e : Entry Op Reply Outcome}
    (h : e.outcome ∈ List.replicate n { now := 5, text := "n" }) : Reliable e.op e.outcome := by
  rw [List.eq_of_mem_replicate h]
  exact ⟨rfl, fun _ => by decide⟩

/-- The nonce is issued at the time 5. -/
theorem nonce_issued : ∃ m, FromNonce clientSettings smokeKey nonceAnswer m := by
  have hreplay : Resumption.replay exec (List.replicate 7 { now := 5, text := "n" })
      (issueNonce clientSettings nonceRequest).run emptyStore = some (_, _, _) := rfl
  have hruns : Runs exec Reliable (issueNonce clientSettings nonceRequest).run emptyStore _ _ _ :=
    runs_of_replay hreplay fun e he => reliable_at_five (mem_of_replay hreplay e he)
  exact ⟨_, nonceRequest, emptyStore, _, _, _, ⟨200, nonceAnswer⟩, rfl, hruns,
    ⟨_, List.mem_of_getElem? (i := 6) rfl, rfl⟩, rfl, rfl, rfl⟩

def clientInit : RequestInit := { method := some "POST", body := some "{}" }

theorem clientBody_bytes : (some (.obj [] : Json)).isSome = true →
    (some (bufferOf "{}")).isSome = true :=
  fun _ => rfl

/-- The request that the client makes of it at the time `now`. -/
def clientRequest (now : Nat) : Request where
  method := "POST"
  method_known := post_known
  originalUrl := "/executors/register"
  ip := ""
  headers := signedHeaders clientSigner clientInit "/executors/register" now nonceAnswer
  rawBody := some (bufferOf "{}")
  body := some (.obj [])
  rawBody_of_body := clientBody_bytes

theorem clientRequest_arrives (now : Nat) :
    Arrives clientSigner clientInit "/executors/register" now nonceAnswer (clientRequest now) where
  method := rfl
  headers := by
    intro h hmem
    simp only [signedHeaders, List.mem_cons, List.not_mem_nil, or_false] at hmem
    rcases hmem with rfl | rfl | rfl | rfl <;> rfl
  body := .inl rfl

theorem clientRequest_path (now : Nat) : (clientRequest now).path = "/executors/register" := by
  have hpath : String.ofList ("/executors/register".toList.takeWhile fun c => c ≠ '?') =
      "/executors/register" := by decide
  exact hpath

theorem clientRequest_payload (now : Nat) : clientPlatform.signedPayload (clientRequest now) =
    clientInit.payload clientPlatform "/executors/register" now (nonceAnswer.text "nonce") :=
  (payload_eq_iff clientPlatform_sound (clientRequest_arrives now)).mpr
    ⟨by decide, clientRequest_path now, "{}", rfl, by decide, rfl⟩

theorem clientRequest_delivered (now : Nat) {m : Store}
    (h : FromNonce clientSettings smokeKey nonceAnswer m) :
    Delivered clientSettings { matchBodyField := some "publicKey" } clientSigner clientInit
      "/executors/register" now nonceAnswer (clientRequest now) m where
  enforced := rfl
  nonce := h
  arrives := clientRequest_arrives now
  unforged _ := clientRequest_payload now

theorem perform_possible {o : Op} (ho : o ≠ .market .randomUUID) (c : Outcome) (s : Store) :
    perform c s o ≠ none := by
  cases o with
  | market o => cases o <;> first | exact absurd rfl ho | simp [perform, Market.perform]
  | _ => simp [perform]

theorem inTime_possible (m : Store) (now : Nat) (o : Op) (s : Store) :
    ∃ c, InTime m now o c ∧ exec o c s ≠ none := by
  by_cases ho : o = .market .randomUUID
  · obtain ⟨id, hid⟩ := Infinite.exists_notMem_finset s.market.issued.toFinset
    subst ho
    refine ⟨{ text := id }, ⟨rfl, by simp, by simp⟩, ?_⟩
    rw [List.mem_toFinset] at hid
    simp [exec, perform, Market.perform, hid]
  by_cases hclock : o = .market .dateNow
  · subst hclock
    refine ⟨{ now := now }, ⟨rfl, fun _ => ?_, by simp⟩, perform_possible ho _ s⟩
    simp [allowedWindow]
  · refine ⟨{}, ⟨rfl, fun heq => absurd heq hclock, fun key _ => ?_⟩, perform_possible ho _ s⟩
    -- at the time 0 nothing has expired
    unfold Redis.find
    cases hv : m.redis key with
    | none => rfl
    | some v =>
        rw [Option.filter_some, if_pos]
        cases v.expireAt <;> simp

/-- **A client whose clock is a millisecond ahead is turned away.** -/
theorem clock_ahead_rejected :
    ¬ ∀ (cfg : Settings) (options : SignatureAuthOptions) (signer : Signer cfg.toPlatform)
      (init : RequestInit) (path : String) (now : Nat) (nonceRes : Json) (req : Request) (m : Store)
      (next : Js Unit) (log : Log Op Reply Outcome) (r : Except JsError Unit) (m' : Store),
      cfg.Sound → Delivered cfg options signer init path now nonceRes req m →
      Runs exec (InTime m now) (signatureAuth cfg options req next).run m log r m' →
        Accepted log := by
  intro h
  obtain ⟨m, hnonce⟩ := nonce_issued
  have hdelivered := clientRequest_delivered 6 hnonce
  obtain ⟨log, r, m', hruns⟩ := exists_runs (inTime_possible m 6)
    (signatureAuth clientSettings { matchBodyField := some "publicKey" } (clientRequest 6)
      (pure ())).run m
  have haccepted := h _ _ _ _ _ _ _ _ _ _ _ _ _ clientPlatform_sound hdelivered hruns
  have halike := (hdelivered.solo clientPlatform_sound (pure ()) log r m' hruns).mp haccepted
  exact absurd halike.clock (by decide)

/-- With the clock at the issued time the request passes. -/
theorem clock_right_accepted : ∃ m log r m', FromNonce clientSettings smokeKey nonceAnswer m ∧
    Runs exec (InTime m 5) (signatureAuth clientSettings { matchBodyField := some "publicKey" }
      (clientRequest 5) (pure ())).run m log r m' ∧ Accepted log := by
  obtain ⟨m, hnonce⟩ := nonce_issued
  have hdelivered := clientRequest_delivered 5 hnonce
  obtain ⟨log, r, m', hruns⟩ := exists_runs (inTime_possible m 5)
    (signatureAuth clientSettings { matchBodyField := some "publicKey" } (clientRequest 5)
      (pure ())).run m
  refine ⟨m, log, r, m', hnonce, hruns, ?_⟩
  exact (signedRequest_accepted_iff clientPlatform_sound hdelivered (pure ()) log r m' hruns).mpr
    ⟨by decide, by decide, clientRequest_path 5, ⟨"{}", rfl, by decide, rfl⟩, rfl⟩

end TrustGate.Api
