import TrustGate.Api.Effects

set_option autoImplicit false

/-! # A nonce of the server lets one request through

The key of a server nonce is set once, by the request that issues the nonce, and `GETDEL` returns
its value once. A request that passes `signatureAuth` got that value, and it is the request's own
timestamp. -/

namespace TrustGate.Api

open Market Resumption

/-! ## Keys -/

theorem isStrkey_length {kind : Char} {s : String} (h : isStrkey kind s = true) :
    s.toList.length = 56 := by
  unfold isStrkey at h
  split at h
  · rename_i c cs heq
    simp only [Bool.and_eq_true, decide_eq_true_eq] at h
    rw [heq, List.length_cons]
    omega
  · cases h

/-- The key tells the public key and the nonce. -/
theorem serverNonceKey_inj {key key' nonce nonce' : String} (hkey : isStrkey 'G' key = true)
    (hkey' : isStrkey 'G' key' = true)
    (heq : serverNonceKey key nonce = serverNonceKey key' nonce') : key = key' ∧ nonce = nonce' := by
  have hlist := congrArg String.toList heq
  simp only [serverNonceKey, String.toList_append, List.append_assoc,
    List.append_cancel_left_eq] at hlist
  have hlength : key.toList.length = key'.toList.length := by
    rw [isStrkey_length hkey, isStrkey_length hkey']
  obtain ⟨hk, hrest⟩ := List.append_inj hlist hlength
  rw [List.append_cancel_left_eq] at hrest
  exact ⟨String.toList_inj.mp hk, String.toList_inj.mp hrest⟩

theorem isCounterKey_serverNonceKey (key nonce : String) :
    isCounterKey (serverNonceKey key nonce) = false := by
  simp only [isCounterKey, serverNonceKey, String.toList_append, List.append_assoc]
  rfl

theorem isCounterKey_legacyNonceKey (key nonce : String) :
    isCounterKey (legacyNonceKey key nonce) = false := by
  simp only [isCounterKey, legacyNonceKey, String.toList_append, List.append_assoc]
  rfl

theorem legacyNonceKey_ne_serverNonceKey (key nonce key' nonce' : String) :
    legacyNonceKey key nonce ≠ serverNonceKey key' nonce' := by
  intro heq
  have hlist := congrArg String.toList heq
  simp only [serverNonceKey, legacyNonceKey, String.toList_append, List.append_assoc] at hlist
  have h8 := congrArg (fun l => l[8]?) hlist
  simp at h8

/-! ## The life of a nonce -/

/-- The key of a server nonce has been set to `text`. -/
def Issued (t : Trace Op Reply) (key text : String) : Prop :=
  ∃ pid r, ⟨pid, .setNx key text 600, r⟩ ∈ t

/-- What is known of the server nonces in a run. -/
structure Kept (jobs : Nat → Option Job) (s : Store) (t : Trace Op Reply) : Prop where
  explained : EachCall (fun earlier c => ∃ j, jobs c.pid = some j ∧
    j.Calls (own c.pid earlier) c.op) t
  issued : ∀ pid id, ⟨pid, .market .randomUUID, .ok id⟩ ∈ t → id ∈ s.market.issued
  /-- Nobody else was handed the same UUID. -/
  drawn : ∀ pid pid' id, ⟨pid, .market .randomUUID, .ok id⟩ ∈ t →
    ⟨pid', .market .randomUUID, .ok id⟩ ∈ t → pid = pid'
  /-- A nonce that is there was issued and not yet taken. -/
  stored : ∀ key nonce v, s.redis (serverNonceKey key nonce) = some v →
    Issued t (serverNonceKey key nonce) v.text ∧
      ∀ pid text, ⟨pid, .getDel (serverNonceKey key nonce), .ok (some text)⟩ ∉ t
  /-- A nonce that was taken was issued, with the timestamp that was returned. -/
  taken : ∀ pid key nonce text, ⟨pid, .getDel (serverNonceKey key nonce), .ok (some text)⟩ ∈ t →
    Issued t (serverNonceKey key nonce) text
  once : ∀ pid pid' key nonce text text',
    ⟨pid, .getDel (serverNonceKey key nonce), .ok (some text)⟩ ∈ t →
    ⟨pid', .getDel (serverNonceKey key nonce), .ok (some text')⟩ ∈ t → pid = pid'

theorem Issued.cons {t : Trace Op Reply} {key text : String} (hi : Issued t key text)
    (c : Call Op Reply) : Issued (c :: t) key text := by
  obtain ⟨pid, r, hmem⟩ := hi
  exact ⟨pid, r, List.mem_cons_of_mem _ hmem⟩

/-- Only a nonce request sets the key of a server nonce, to the time it has just read. -/
theorem Job.Calls.issues {j : Job} {h : Hist} {key nonce value : String} {seconds : Nat}
    (hc : j.Calls h (.setNx (serverNonceKey key nonce) value seconds)) :
    ∃ cfg req h' id timestamp, j = .issueNonce cfg req ∧ Clean h' ∧
      h = ⟨.market .randomUUID, .ok id⟩ :: ⟨.market .dateNow, .ok timestamp⟩ :: h' ∧
      cfg.fromPublicKey (noncePublicKey req) = true ∧
      serverNonceKey key nonce = serverNonceKey (noncePublicKey req) id ∧
      value = toString timestamp ∧ seconds = 600 := by
  cases j with
  | issueNonce cfg req =>
      generalize hkey : serverNonceKey key nonce = k at hc
      cases hc with
      | plain _ _ ho => cases ho
      | issue h' clean timestamp id hvalid =>
          exact ⟨cfg, req, h', id, timestamp, rfl, clean, rfl, hvalid, rfl, rfl, rfl⟩
  | request cfg route req =>
      generalize hkey : serverNonceKey key nonce = k at hc
      rcases hc with ho | ⟨options, -, hc⟩
      · cases ho
      · cases hc with
        | plain _ _ ho => cases ho
        | legacy h' => exact absurd hkey.symm (legacyNonceKey_ne_serverNonceKey _ _ _ _)
  | service job => cases hc

namespace Kept

variable {jobs : Nat → Option Job} {s s' : Store} {t : Trace Op Reply} {pid : Nat} {j : Job}
  {o : Op} {c : Outcome} {r : Reply o}

/-- A key is set for the first time: the UUID in it was drawn by this process, which has set no
key before. -/
theorem unset (h : Kept jobs s t) {key nonce value : String} {seconds : Nat}
    (hc : j.Calls (own pid t) (.setNx (serverNonceKey key nonce) value seconds)) (text : String) :
    ¬ Issued t (serverNonceKey key nonce) text := by
  rintro ⟨pid', r, hmem⟩
  obtain ⟨cfg, req, past, id, timestamp, -, clean, hown, hvalid, hkey, -, -⟩ := hc.issues
  obtain ⟨newer, earlier, ht⟩ := List.append_of_mem hmem
  have hsuffix : ⟨pid', _, r⟩ :: earlier <:+ t := ⟨newer, ht.symm⟩
  obtain ⟨j', -, hc'⟩ := h.explained.at hsuffix
  obtain ⟨cfg', req', past', id', timestamp', -, -, hown', hvalid', hkey', -, -⟩ := hc'.issues
  have hid : id = id' :=
    (serverNonceKey_inj (cfg.isStrkey_of_fromPublicKey _ hvalid)
      (cfg'.isStrkey_of_fromPublicKey _ hvalid') (hkey.symm.trans hkey')).2
  subst hid
  have hdraw : (⟨pid, .market .randomUUID, .ok id⟩ : Call Op Reply) ∈ t :=
    mem_own.mp (hown ▸ List.mem_cons_self)
  have hdraw' : (⟨pid', .market .randomUUID, .ok id⟩ : Call Op Reply) ∈ t :=
    ((List.suffix_cons _ _).trans hsuffix).subset (mem_own.mp (hown' ▸ List.mem_cons_self))
  have hpid := h.drawn _ _ _ hdraw hdraw'
  subst hpid
  -- then the process itself has set the key before, but its past holds no such call
  have hset : (⟨.setNx (serverNonceKey key nonce) text 600, r⟩ : Done Op Reply) ∈ own pid t :=
    mem_own.mpr hmem
  rw [hown] at hset
  rcases hset with _ | ⟨_, _ | ⟨_, hset⟩⟩
  cases clean _ hset

theorem stored_call (h : Kept jobs s t) (hc : j.Calls (own pid t) o)
    (hx : exec o c s = some (r, s')) (key nonce : String) (v : RedisValue)
    (hv : s'.redis (serverNonceKey key nonce) = some v) :
    Issued (⟨pid, o, r⟩ :: t) (serverNonceKey key nonce) v.text ∧
      ∀ pid' text, ⟨pid', .getDel (serverNonceKey key nonce), .ok (some text)⟩ ∉
        (⟨pid, o, r⟩ :: t : Trace Op Reply) := by
  rcases exec_key hx hc.countsOnly (isCounterKey_serverNonceKey key nonce) with
    hsame | ⟨-, hnone⟩ | ⟨value, seconds, rfl, -, hset⟩
  · rw [hsame] at hv
    obtain ⟨hissued, huntaken⟩ := h.stored key nonce v hv
    refine ⟨hissued.cons _, fun pid' text hmem => ?_⟩
    rcases List.mem_cons.mp hmem with heq | hmem
    · cases heq
      rw [(exec_getDel hx).2] at hsame
      rw [← hsame] at hv
      cases hv
    · exact huntaken pid' text hmem
  · rw [hnone] at hv
    cases hv
  · rw [hset] at hv
    cases hv
    obtain ⟨-, -, -, -, -, -, -, -, -, -, -, rfl⟩ := hc.issues
    refine ⟨⟨pid, r, List.mem_cons_self⟩, fun pid' text hmem => ?_⟩
    rcases List.mem_cons.mp hmem with heq | hmem
    · cases heq
    · exact h.unset hc text (h.taken pid' key nonce text hmem)

/-- What a call of a process of the API keeps. -/
theorem call (h : Kept jobs s t) (hj : jobs pid = some j) (hc : j.Calls (own pid t) o)
    (hx : exec o c s = some (r, s')) : Kept jobs s' (⟨pid, o, r⟩ :: t) := by
  refine ⟨⟨⟨j, hj, hc⟩, h.explained⟩, ?_, ?_, h.stored_call hc hx, ?_, ?_⟩
  · intro pid' id hmem
    rcases List.mem_cons.mp hmem with heq | hmem
    · cases heq
      exact (exec_randomUUID hx).2
    · exact exec_issued hx (h.issued pid' id hmem)
  · intro pid₁ pid₂ id h₁ h₂
    rcases List.mem_cons.mp h₁ with heq₁ | m₁ <;> rcases List.mem_cons.mp h₂ with heq₂ | m₂
    · cases heq₁; cases heq₂; rfl
    · cases heq₁
      exact absurd (h.issued pid₂ id m₂) (exec_randomUUID hx).1
    · cases heq₂
      exact absurd (h.issued pid₁ id m₁) (exec_randomUUID hx).1
    · exact h.drawn pid₁ pid₂ id m₁ m₂
  · intro pid' key nonce text hmem
    rcases List.mem_cons.mp hmem with heq | hmem
    · cases heq
      obtain ⟨v, hv, rfl⟩ := exec_getDel_some hx
      exact (h.stored key nonce v hv).1.cons _
    · exact (h.taken pid' key nonce text hmem).cons _
  · intro pid₁ pid₂ key nonce text₁ text₂ h₁ h₂
    rcases List.mem_cons.mp h₁ with heq₁ | m₁ <;> rcases List.mem_cons.mp h₂ with heq₂ | m₂
    · cases heq₁; cases heq₂; rfl
    · cases heq₁
      obtain ⟨v, hv, -⟩ := exec_getDel_some hx
      exact absurd m₂ ((h.stored key nonce v hv).2 pid₂ text₂)
    · cases heq₂
      obtain ⟨v, hv, -⟩ := exec_getDel_some hx
      exact absurd m₁ ((h.stored key nonce v hv).2 pid₁ text₁)
    · exact h.once pid₁ pid₂ key nonce text₁ text₂ m₁ m₂

end Kept

/-- Processes that join in change nothing. -/
theorem Kept.mono {jobs jobs' : Nat → Option Job} {s : Store} {t : Trace Op Reply}
    (h : Kept jobs s t) (hjobs : ∀ pid j, jobs pid = some j → jobs' pid = some j) :
    Kept jobs' s t :=
  { h with explained := h.explained.more hjobs }

/-- Nothing is known of nonces at the start. -/
theorem Kept.initial (s : Store) (jobs : Nat → Option Job) :
    Kept jobs { s with redis := .empty } [] where
  explained := trivial
  issued := fun _ _ hmem => nomatch hmem
  drawn := fun _ _ _ hmem => nomatch hmem
  stored := fun _ _ _ hv => nomatch hv
  taken := fun _ _ _ _ hmem => nomatch hmem
  once := fun _ _ _ _ _ _ hmem => nomatch hmem

/-- Every run keeps track of the nonces, from a store without any. -/
theorem kept_run (s : Store) (sched : List (Act Job Outcome)) :
    let cfg := runSched api (.initial { s with redis := .empty }) sched
    Kept cfg.jobOf cfg.state cfg.trace := by
  refine (runSched_authored (R := .any) (I := Kept) (Q := fun _ _ => True)
    (fun j _ => body_follows j) (fun _ _ _ _ hjobs h => h.mono hjobs) ?_ sched
    (.initial { s with redis := .empty }) (.initial s _) (.initial _) (meets_any _ _ _)).1
  exact fun jobs s t pid j o c r s' h hj _ hc _ hx => h.call hj hc hx

/-! ## Being let through -/

/-- What a request has behind it that signature checking lets through. -/
theorem Job.Calls.passes {cfg : Settings} {route : Route} {req : Request} {h : Hist}
    (hc : (Job.request cfg route req).Calls h (.next .signatureAuth)) :
    ∃ options ∈ route.auth cfg, options.bypassed cfg = true ∨
      ∃ now h', Checked cfg options req now ∧
        (h = tookNonce req (some req.timestamp) (arrived now h') ∨ cfg.allowClientNonce = true ∧
          h = setNonce options req (tookNonce req none (arrived now h'))) := by
  rcases hc with ho | ⟨options, hauth, hc⟩
  · cases ho
  refine ⟨options, hauth, ?_⟩
  cases hc with
  | plain _ _ ho => cases ho
  | bypass _ hb => exact .inl hb
  | taken h' _ now checked => exact .inr ⟨now, h', checked, .inl rfl⟩
  | set h' _ now checked allow => exact .inr ⟨now, h', checked, .inr ⟨allow, rfl⟩⟩

/-- Signature checking is in force for the route, and only nonces of the server are taken. -/
def ServerNonces (cfg : Settings) (route : Route) : Prop :=
  cfg.allowClientNonce = false ∧ ∀ options ∈ route.auth cfg, options.bypassed cfg = false

/-- The process is a request, and `signatureAuth` has let it through. -/
structure LetThrough (c : Config Op Reply Job Store) (pid : Nat) (cfg : Settings) (route : Route)
    (req : Request) : Prop where
  job : c.jobOf pid = some (.request cfg route req)
  next : ∃ r, ⟨pid, .next .signatureAuth, r⟩ ∈ c.trace

/-- The nonce of the request was issued to its public key at the time that the request gives. The
request, signed with that key, was checked within five minutes of it. -/
structure Genuine (c : Config Op Reply Job Store) (pid : Nat) (cfg : Settings) (req : Request) :
    Prop where
  timely : ∃ issuer cfg' req', ∃ issuedAt arrivedAt : Nat,
    c.jobOf issuer = some (.issueNonce cfg' req') ∧ noncePublicKey req' = req.publicKey ∧
    ⟨issuer, .market .dateNow, .ok issuedAt⟩ ∈ c.trace ∧
    (∃ r, ⟨issuer, .setNx (serverNonceKey req.publicKey req.nonce) (toString issuedAt) 600, r⟩ ∈
      c.trace) ∧
    req.timestamp = toString issuedAt ∧
    (∃ past, tookNonce req (some req.timestamp) (arrived arrivedAt past) <:+ own pid c.trace) ∧
    |(arrivedAt : Rat) - issuedAt| ≤ allowedWindow
  signed : cfg.verify req.publicKey (cfg.signedPayload req) (cfg.parseSignature req.signature) =
    .ok true

/-- Server nonces are one-time. -/
structure OneTime (c : Config Op Reply Job Store) : Prop where
  once : ∀ pid pid' cfg cfg' route route' req req',
    ServerNonces cfg route → LetThrough c pid cfg route req →
    ServerNonces cfg' route' → LetThrough c pid' cfg' route' req' →
    req.publicKey = req'.publicKey → req.nonce = req'.nonce → pid = pid'
  genuine : ∀ pid cfg route req, ServerNonces cfg route → LetThrough c pid cfg route req →
    Genuine c pid cfg req
  /-- Only a request that has passed all other checks takes a nonce, its own. -/
  spared : ∀ pid key r, ⟨pid, .getDel key, r⟩ ∈ c.trace → ∃ cfg route req, ∃ options ∈ route.auth cfg,
    c.jobOf pid = some (.request cfg route req) ∧ key = serverNonceKey req.publicKey req.nonce ∧
    ∃ now past, ⟨.getDel key, r⟩ :: arrived now past <:+ own pid c.trace ∧
      Checked cfg options req now

section

variable {c : Config Op Reply Job Store}

/-- A request that was let through has taken its nonce from the store. -/
theorem Kept.took (h : Kept c.jobOf c.state c.trace) {pid : Nat} {cfg : Settings} {route : Route}
    {req : Request} (hmode : ServerNonces cfg route) (hpass : LetThrough c pid cfg route req) :
    ∃ options ∈ route.auth cfg, ∃ now past, Checked cfg options req now ∧
      tookNonce req (some req.timestamp) (arrived now past) <:+ own pid c.trace := by
  obtain ⟨r, hnext⟩ := hpass.next
  obtain ⟨j, past, hj, hc, hsuffix⟩ := h.explained.of_mem hnext
  rw [hpass.job] at hj
  cases hj
  obtain ⟨options, hauth, hb | ⟨now, h', checked, hpast | ⟨hallow, -⟩⟩⟩ := hc.passes
  · rw [hmode.2 options hauth] at hb
    cases hb
  · subst hpast
    exact ⟨options, hauth, now, h', checked, (List.suffix_cons _ _).trans hsuffix⟩
  · rw [hmode.1] at hallow
    cases hallow

/-- The call that took it. -/
theorem mem_of_took {pid : Nat} {req : Request} {stored : Option String} {h : Hist}
    (hs : tookNonce req stored h <:+ own pid c.trace) :
    (⟨pid, .getDel (serverNonceKey req.publicKey req.nonce), .ok stored⟩ : Call Op Reply) ∈
      c.trace :=
  mem_own.mp (hs.subset List.mem_cons_self)

end

/-- **Server nonces are one-time**, in every run: a pair of public key and nonce lets one request
through, the request is the one that the nonce was issued for, and a request that fails a check
before the nonce step takes no nonce. -/
theorem server_nonces_one_time (s : Store) (sched : List (Act Job Outcome)) :
    OneTime (runSched api (.initial { s with redis := .empty }) sched) := by
  have h := kept_run s sched
  generalize runSched api (.initial { s with redis := .empty }) sched = c at h
  refine ⟨?_, ?_, ?_⟩
  · intro pid pid' cfg cfg' route route' req req' hmode hpass hmode' hpass' hkey hnonce
    obtain ⟨_, _, _, _, _, htook⟩ := h.took hmode hpass
    obtain ⟨_, _, _, _, _, htook'⟩ := h.took hmode' hpass'
    have hmem' := mem_of_took htook'
    rw [← hkey, ← hnonce] at hmem'
    exact h.once pid pid' _ _ _ _ (mem_of_took htook) hmem'
  · intro pid cfg route req hmode hpass
    obtain ⟨options, -, arrivedAt, past, checked, htook⟩ := h.took hmode hpass
    obtain ⟨issuer, r, hissue⟩ := h.taken pid _ _ _ (mem_of_took htook)
    obtain ⟨j, past', hj, hc, hsuffix⟩ := h.explained.of_mem hissue
    obtain ⟨cfg', req', h', id, issuedAt, rfl, -, rfl, hvalid, hkeys, hvalue, -⟩ := hc.issues
    obtain ⟨timestamp, hnumber, hle⟩ := checked.inWindow
    rw [hvalue, cfg.number_date] at hnumber
    cases hnumber
    refine ⟨⟨issuer, cfg', req', issuedAt, arrivedAt, hj, ?_, ?_, ⟨r, hvalue ▸ hissue⟩, hvalue,
      ⟨past, htook⟩, hle⟩, checked.signed⟩
    · exact (serverNonceKey_inj (cfg.isStrkey_of_fromPublicKey _ checked.key)
        (cfg'.isStrkey_of_fromPublicKey _ hvalid) hkeys).1.symm
    · exact mem_own.mp (hsuffix.subset
        (List.mem_cons_of_mem _ (List.mem_cons_of_mem _ List.mem_cons_self)))
  · intro pid key r hmem
    obtain ⟨j, past, hj, hc, hsuffix⟩ := h.explained.of_mem hmem
    cases j with
    | issueNonce cfg req => cases hc with | plain _ _ ho => cases ho
    | service job => cases hc
    | request cfg route req =>
        rcases hc with ho | ⟨options, hauth, hc⟩
        · cases ho
        cases hc with
        | plain _ _ ho => cases ho
        | take past clean now checked =>
            exact ⟨cfg, route, req, options, hauth, hj, rfl, now, past, hsuffix, checked⟩

end TrustGate.Api
