import TrustGate.Api.Replays
import TrustGate.Lib.Solo

set_option autoImplicit false

/-! # What signatureAuth makes of a request

By itself, a request that comes to `signatureAuth` is let through, refused by `fail`, told that the
nonce store is down, or thrown out. `objection` says beforehand which, from the request, the clock
and the nonces in Redis, and `signatureAuth_runs` that it is right as long as Redis answers. -/

namespace TrustGate.Api

open Market Resumption

/-- What was carried out for a request, oldest first. -/
abbrev Record := Log Op Reply Outcome

/-! ## The judgement -/

section

variable (cfg : Settings) (options : SignatureAuthOptions) (req : Request) (redis : Redis)

/-- What is wrong with the nonce, if the server's is taken at the time `taken` and the client's is
set at the time `set`. -/
def nonceObjection (taken set : Nat) : Option String :=
  match redis.find taken (serverNonceKey req.publicKey req.nonce) with
  | some v => if v.text ≠ req.timestamp then some "invalid nonce" else none
  | none =>
    if cfg.allowClientNonce then
      if (redis.find set (legacyNonceKey req.publicKey req.nonce)).isSome then
        some "replayed nonce"
      else none
    else some "invalid nonce"

/-- What is wrong with the request apart from its timestamp, if its calls are carried out at the
times `clock`. An error is one that the check of the signature throws. -/
def signatureObjection (clock : Nat → Nat) : Except JsError (Option String) :=
  match options.mismatch req with
  | some field => .ok (some ("public key mismatch for " ++ field))
  | none =>
    if ¬ cfg.fromPublicKey req.publicKey then .ok (some "invalid public key")
    else
      match cfg.verify req.publicKey (cfg.signedPayload req) (cfg.parseSignature req.signature) with
      | .error e => .error e
      | .ok false => .ok (some "invalid signature")
      | .ok true => .ok (nonceObjection cfg req redis (clock 2) (clock 3))

/-- What is wrong with the request. -/
def objection (clock : Nat → Nat) : Except JsError (Option String) :=
  if options.bypassed cfg then .ok none
  else if req.publicKey = "" ∨ req.timestamp = "" ∨ req.nonce = "" ∨ req.signature = "" then
    .ok (if options.required then some "missing signature headers" else none)
  else
    match cfg.number req.timestamp with
    | none => .ok (some "invalid timestamp")
    | some timestamp =>
      if allowedWindow < |(clock 0 : Rat) - timestamp| then
        .ok (some "timestamp outside allowed window")
      else signatureObjection cfg options req redis clock

end

/-- When the call number `i` was carried out. -/
def timeOf (log : Record) (i : Nat) : Nat := (log[i]?.map fun e => e.outcome.now).getD 0

/-! ## Calls -/

/-- A command to Redis. -/
def Op.isRedis : Op → Bool
  | .getRedisClient | .getDel _ | .setNx _ _ _ | .incr _ | .expire _ _ => true
  | _ => false

/-- Redis answers every command. -/
def RedisAnswers (log : Record) : Prop := ∀ e ∈ log, e.op.isRedis = true → e.outcome.fault = .none

/-- Neither an answer to the request nor its being handed on. -/
def Op.silent : Op → Bool
  | .json _ | .next _ => false
  | _ => true

/-- The counters of failed requests. -/
def isFailKey (key : String) : Bool := "tg:authfail:".toList.isPrefixOf key.toList

/-- The counters of failed requests are as they were. -/
def SparesFails (s s' : Store) : Prop := ∀ key, isFailKey key = true → s'.redis key = s.redis key

theorem SparesFails.refl (s : Store) : SparesFails s s := fun _ _ => rfl

theorem SparesFails.trans {s s₁ s' : Store} (h : SparesFails s s₁) (h' : SparesFails s₁ s') :
    SparesFails s s' :=
  fun key hkey => (h' key hkey).trans (h key hkey)

theorem isCounterKey_of_isFailKey {key : String} (h : isFailKey key = true) :
    isCounterKey key = true := by
  unfold isFailKey at h
  unfold isCounterKey
  rw [List.isPrefixOf_iff_prefix] at h ⊢
  have hauth : "tg:auth".toList <+: "tg:authfail:".toList := by decide
  exact hauth.trans h

section

variable {o : Op} {c : Outcome} {s s' : Store} {r : Reply o}

/-- A call does what it does, or its reply is an error. -/
theorem exec_answers (hx : exec o c s = some (r, s')) :
    (c.fault = .none ∧ perform c s o = some (r, s')) ∨
      (c.fault ≠ .none ∧ o.isLocal = false ∧ ∃ e, r = .error e) := by
  unfold exec at hx
  cases hf : c.fault with
  | none =>
      rw [hf] at hx
      exact .inl ⟨rfl, hx⟩
  | refused e =>
      rw [hf] at hx
      dsimp only at hx
      split_ifs at hx with hlocal
      cases hx
      exact .inr ⟨by simp, by simpa using hlocal, e, rfl⟩
  | lost e =>
      rw [hf] at hx
      dsimp only at hx
      split_ifs at hx with hlocal
      obtain ⟨⟨r₀, s₀⟩, -, heq⟩ := Option.map_eq_some_iff.mp hx
      cases heq
      exact .inr ⟨by simp, by simpa using hlocal, e, rfl⟩

theorem fault_of_ok {v : Value o} (hx : exec o c s = some (.ok v, s')) : c.fault = .none := by
  rcases exec_answers hx with ⟨hf, -⟩ | ⟨-, -, e, he⟩
  · exact hf
  · cases he

/-- A key other than a counter of failures may be changed. -/
theorem spares_of_nonce (hx : exec o c s = some (r, s')) {nonceKey : String}
    (hnonce : isCounterKey nonceKey = false)
    (ho : o = .getDel nonceKey ∨ ∃ value seconds, o = .setNx nonceKey value seconds) :
    SparesFails s s' := by
  intro key hkey
  have hne : nonceKey ≠ key := by
    rintro rfl
    rw [isCounterKey_of_isFailKey hkey] at hnonce
    cases hnonce
  refine exec_unnamed hx ?_ ?_ ?_ ?_
  all_goals rcases ho with rfl | ⟨value, seconds, rfl⟩
  all_goals simp [hne]

theorem spares_of_client {r : Reply .getRedisClient} (hx : exec .getRedisClient c s = some (r, s')) :
    s' = s ∧ (c.fault = .none ∧ r = .ok () ∨ c.fault ≠ .none ∧ ∃ e, r = .error e) := by
  rcases exec_cases hx with ⟨e, hf, rfl, rfl⟩ | ⟨r₀, hp, ⟨hf, rfl⟩ | ⟨e, hf, rfl⟩⟩
  · exact ⟨rfl, .inr ⟨by simp [hf], e, rfl⟩⟩
  · cases hp
    exact ⟨rfl, .inl ⟨hf, rfl⟩⟩
  · cases hp
    exact ⟨rfl, .inr ⟨by simp [hf], e, rfl⟩⟩

end

/-! ## The four ways -/

/-- How `signatureAuth` goes, from the store `s`: its log, its result and the store it leaves. -/
inductive Authenticates (cfg : Settings) (options : SignatureAuthOptions) (req : Request)
    (ok : Op → Outcome → Prop) (next : Js Unit) (s : Store) :
    Record → Except JsError Unit → Store → Prop
  | through (pre rest : Record) (c : Outcome) (s₁ s' : Store) (r : Except JsError Unit)
      (silent : ∀ e ∈ pre, e.op.silent = true) (spares : SparesFails s s₁)
      (judged : ∀ l, objection cfg options req s.redis (timeOf (pre ++ l)) = .ok none)
      (run : Runs exec ok next.run s₁ rest r s') :
      Authenticates cfg options req ok next s (pre ++ ⟨.next .signatureAuth, c, .ok ()⟩ :: rest) r s'
  | refused (error : String) (pre log : Record) (s₁ s' : Store) (r : Except JsError Unit)
      (silent : ∀ e ∈ pre, e.op.silent = true) (spares : SparesFails s s₁)
      (answers : RedisAnswers pre)
      (judged : ∀ l, objection cfg options req s.redis (timeOf (pre ++ l)) = .ok (some error))
      (run : Runs exec ok (fail req.ip req.publicKey error).run s₁ log r s') :
      Authenticates cfg options req ok next s (pre ++ log) r s'
  | down (pre : Record) (c : Outcome) (s' : Store) (silent : ∀ e ∈ pre, e.op.silent = true)
      (spares : SparesFails s s') (answers : ¬ RedisAnswers pre) :
      Authenticates cfg options req ok next s
        (pre ++ [⟨.json (errorResponse 503 "nonce store unavailable"), c, .ok ()⟩]) (.ok ()) s'
  | thrown (pre : Record) (e : JsError) (s' : Store) (silent : ∀ e ∈ pre, e.op.silent = true)
      (spares : SparesFails s s')
      (why : ¬ RedisAnswers pre ∨
        ∀ l, ∃ e, objection cfg options req s.redis (timeOf (pre ++ l)) = .error e) :
      Authenticates cfg options req ok next s pre (.error e) s'

section

variable {cfg : Settings} {options : SignatureAuthOptions} {req : Request}
  {ok : Op → Outcome → Prop} {next : Js Unit} {s : Store}

/-- The request is handed on. -/
theorem goes_through {s₁ : Store} (pre : Record) (hsilent : ∀ e ∈ pre, e.op.silent = true)
    (hspares : SparesFails s s₁)
    (hjudged : ∀ l, objection cfg options req s.redis (timeOf (pre ++ l)) = .ok none) :
    Solo exec ok (do await (.next .signatureAuth); next) s₁ fun log =>
      Authenticates cfg options req ok next s (pre ++ log) := by
  rw [solo_call_bind]
  refine ⟨?_, ?_⟩
  · rintro c v s₂ - hx log r s' hruns
    rcases exec_answers hx with ⟨-, hp⟩ | ⟨-, hlocal, -⟩
    · cases hp
      exact .through pre log c s₁ s' r hsilent hspares hjudged hruns
    · cases hlocal
  · rintro c e s₂ - hx
    rcases exec_answers hx with ⟨-, hp⟩ | ⟨-, hlocal, -⟩
    · cases hp
    · cases hlocal

/-- `consumeNonce`, once the checks before it have been passed at the time of the first call. -/
theorem consumeNonce_runs {c₀ : Outcome} {v : Reply (.market .dateNow)}
    (hjudged : ∀ clock : Nat → Nat, clock 0 = c₀.now → objection cfg options req s.redis clock =
      .ok (nonceObjection cfg req s.redis (clock 2) (clock 3))) :
    Solo exec ok (consumeNonce cfg options req next) s fun log =>
      Authenticates cfg options req ok next s (⟨.market .dateNow, c₀, v⟩ :: log) := by
  unfold consumeNonce
  rw [solo_attempt_call_bind]
  rintro c₁ r s₁ - hx
  obtain ⟨rfl, ⟨hf₁, rfl⟩ | ⟨hf₁, e, rfl⟩⟩ := spares_of_client hx
  swap
  · refine solo_call.mpr fun c r s' _ hx' => ?_
    rcases exec_answers hx' with ⟨-, hp⟩ | ⟨-, hlocal, -⟩
    · cases hp
      exact .down [_, _] c s₁ (by simp [Op.silent]) (.refl s₁)
        fun h => hf₁ (h _ (List.mem_cons_of_mem _ List.mem_cons_self) rfl)
    · cases hlocal
  dsimp only
  rw [solo_call_bind]
  refine ⟨?_, ?_⟩
  swap
  · rintro c₂ e s₂ - hx₂
    refine .thrown [_, _, _] e s₂ (by simp [Op.silent])
      (spares_of_nonce hx₂ (isCounterKey_serverNonceKey _ _) (.inl rfl)) (.inl fun h => ?_)
    rcases exec_answers hx₂ with ⟨-, hp⟩ | ⟨hf, -, -⟩
    · cases hp
    · exact hf (h ⟨.getDel (serverNonceKey req.publicKey req.nonce), c₂, .error e⟩ (by simp) rfl)
  rintro c₂ stored s₂ - hx₂
  have hspares := spares_of_nonce hx₂ (isCounterKey_serverNonceKey _ _) (.inl rfl)
  have hf₂ := fault_of_ok hx₂
  obtain ⟨hfound, -⟩ := exec_getDel hx₂
  cases stored with
  | some serverNonceTimestamp =>
      obtain ⟨v', hv', rfl⟩ := Option.map_eq_some_iff.mp hfound
      dsimp only
      split_ifs with hother
      · intro log r s' hruns
        refine .refused "invalid nonce" [_, _, _] log s₂ s' r (by simp [Op.silent]) hspares
          (by simp [RedisAnswers, Op.isRedis, hf₁, hf₂]) (fun l => ?_) hruns
        rw [hjudged _ rfl]
        simp [nonceObjection, timeOf, hv', hother]
      · refine goes_through [_, _, _] (by simp [Op.silent]) hspares fun l => ?_
        rw [hjudged _ rfl]
        simp [nonceObjection, timeOf, hv', hother]
  | none =>
      rw [Option.map_eq_none_iff] at hfound
      dsimp only
      split_ifs with hallow
      swap
      · intro log r s' hruns
        refine .refused "invalid nonce" [_, _, _] log s₂ s' r (by simp [Op.silent]) hspares
          (by simp [RedisAnswers, Op.isRedis, hf₁, hf₂]) (fun l => ?_) hruns
        rw [hjudged _ rfl]
        simp [nonceObjection, timeOf, hfound, hallow]
      rw [solo_call_bind]
      refine ⟨?_, ?_⟩
      swap
      · rintro c₃ e s₃ - hx₃
        refine .thrown [_, _, _, _] e s₃ (by simp [Op.silent]) (hspares.trans
          (spares_of_nonce hx₃ (isCounterKey_legacyNonceKey _ _) (.inr ⟨_, _, rfl⟩)))
          (.inl fun h => ?_)
        rcases exec_answers hx₃ with ⟨-, hp⟩ | ⟨hf, -, -⟩
        · cases hp
        · exact hf (h ⟨.setNx (legacyNonceKey req.publicKey req.nonce) "1" options.nonceTtlSeconds,
            c₃, .error e⟩ (by simp) rfl)
      rintro c₃ nonceSet s₃ - hx₃
      have hspares' := hspares.trans
        (spares_of_nonce hx₃ (isCounterKey_legacyNonceKey _ _) (.inr ⟨_, _, rfl⟩))
      have hf₃ := fault_of_ok hx₃
      -- taking the server's nonce leaves the client's alone
      have hset : nonceSet =
          (s₁.redis.find c₃.now (legacyNonceKey req.publicKey req.nonce)).isNone := by
        have hlegacy : s₂.redis (legacyNonceKey req.publicKey req.nonce) =
            s₁.redis (legacyNonceKey req.publicKey req.nonce) :=
          exec_unnamed hx₂
            (fun h => legacyNonceKey_ne_serverNonceKey _ _ _ _ (Op.getDel.inj h).symm)
            (by simp) (by simp) (by simp)
        rw [(exec_setNx hx₃).1, Redis.find, hlegacy, Redis.find]
      split_ifs with hfresh
      · refine goes_through [_, _, _, _] (by simp [Op.silent]) hspares' fun l => ?_
        rw [hjudged _ rfl]
        rw [hset, Option.isNone_iff_eq_none] at hfresh
        simp [nonceObjection, timeOf, hfound, hallow, hfresh]
      · intro log r s' hruns
        refine .refused "replayed nonce" [_, _, _, _] log s₃ s' r (by simp [Op.silent]) hspares'
          (by simp [RedisAnswers, Op.isRedis, hf₁, hf₂, hf₃]) (fun l => ?_) hruns
        rw [hjudged _ rfl]
        rw [hset, Option.isNone_iff_eq_none, ← ne_eq, ← Option.isSome_iff_ne_none] at hfresh
        simp [nonceObjection, timeOf, hfound, hallow, hfresh]

/-- The request is refused, after nothing but a look at the clock. -/
theorem refuses (pre : Record) {error : String}
    (hpre : ∀ e ∈ pre, ∃ c v, e = ⟨.market .dateNow, c, v⟩)
    (hjudged : ∀ l, objection cfg options req s.redis (timeOf (pre ++ l)) = .ok (some error)) :
    Solo exec ok (fail req.ip req.publicKey error) s fun log =>
      Authenticates cfg options req ok next s (pre ++ log) := by
  intro log r s' hruns
  refine .refused error pre log s s' r (fun e he => ?_) (.refl s) (fun e he hredis => ?_) hjudged hruns
  · obtain ⟨c, v, rfl⟩ := hpre e he
    rfl
  · obtain ⟨c, v, rfl⟩ := hpre e he
    cases hredis

/-- `checkSignature`, for a timestamp in the window. -/
theorem checkSignature_runs {c₀ : Outcome} {v : Reply (.market .dateNow)}
    (hjudged : ∀ clock : Nat → Nat, clock 0 = c₀.now →
      objection cfg options req s.redis clock = signatureObjection cfg options req s.redis clock) :
    Solo exec ok (checkSignature cfg options req next) s fun log =>
      Authenticates cfg options req ok next s (⟨.market .dateNow, c₀, v⟩ :: log) := by
  have hpre : ∀ e ∈ [(⟨.market .dateNow, c₀, v⟩ : Entry Op Reply Outcome)],
      ∃ c v, e = ⟨.market .dateNow, c, v⟩ :=
    fun e he => ⟨c₀, v, List.mem_singleton.mp he⟩
  unfold checkSignature
  cases hmismatch : options.mismatch req with
  | some field =>
      refine refuses _ hpre fun l => ?_
      rw [hjudged _ rfl, signatureObjection, hmismatch]
  | none =>
      dsimp only
      split_ifs with hkey
      swap
      · refine refuses _ hpre fun l => ?_
        rw [hjudged _ rfl, signatureObjection, hmismatch]
        exact if_pos hkey
      match hverify : cfg.verify req.publicKey (cfg.signedPayload req)
          (cfg.parseSignature req.signature) with
      | .error e =>
          refine (solo_throw e).mpr (.thrown [_] e s (by simp [Op.silent]) (.refl s)
            (.inr fun l => ⟨e, ?_⟩))
          rw [hjudged _ rfl, signatureObjection, hmismatch]
          dsimp only
          rw [if_neg (not_not.mpr hkey), hverify]
      | .ok false =>
          refine refuses _ hpre fun l => ?_
          rw [hjudged _ rfl, signatureObjection, hmismatch]
          dsimp only
          rw [if_neg (not_not.mpr hkey), hverify]
      | .ok true =>
          refine consumeNonce_runs fun clock hclock => ?_
          rw [hjudged clock hclock, signatureObjection, hmismatch]
          dsimp only
          rw [if_neg (not_not.mpr hkey), hverify]

/-- **How `signatureAuth` goes.** -/
theorem signatureAuth_runs : Solo exec ok (signatureAuth cfg options req next) s
    (Authenticates cfg options req ok next s) := by
  unfold signatureAuth
  split_ifs with hbypass hmissing hrequired
  · refine goes_through [] (by simp) (.refl s) fun l => ?_
    rw [objection, if_pos hbypass]
  · refine refuses [] (by simp) fun l => ?_
    rw [objection, if_neg hbypass, if_pos hmissing, if_pos hrequired]
  · refine goes_through [] (by simp) (.refl s) fun l => ?_
    rw [objection, if_neg hbypass, if_pos hmissing, if_neg hrequired]
  match hnumber : cfg.number req.timestamp with
  | none =>
      refine refuses [] (by simp) fun l => ?_
      rw [objection, if_neg hbypass, if_neg hmissing, hnumber]
  | some timestamp =>
      dsimp only
      rw [solo_call_bind]
      refine ⟨?_, ?_⟩
      swap
      · rintro c e s₁ - hx
        rcases exec_answers hx with ⟨-, hp⟩ | ⟨-, hlocal, -⟩
        · cases hp
        · cases hlocal
      rintro c now s₁ - hx
      rcases exec_answers hx with ⟨-, hp⟩ | ⟨-, hlocal, -⟩
      swap
      · cases hlocal
      cases hp
      split_ifs with hwindow
      · refine refuses [_] (fun e he => ⟨c, _, List.mem_singleton.mp he⟩) fun l => ?_
        rw [objection, if_neg hbypass, if_neg hmissing, hnumber]
        exact if_pos hwindow
      · refine checkSignature_runs fun clock hclock => ?_
        rw [objection, if_neg hbypass, if_neg hmissing, hnumber]
        exact if_neg (hclock ▸ hwindow)

end

end TrustGate.Api
