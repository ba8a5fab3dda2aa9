import TrustGate.Api.Replays
import TrustGate.Lib.Guard

set_option autoImplicit false

/-! # How long a counter lives

The counters of nonce requests and of failed signatures are meant to count for a minute. `INCR` and
`EXPIRE` are two commands, and only who counted first sends the second. -/

namespace TrustGate.Api

open Market Resumption

/-- A counter of `issueNonce` or of `fail`. -/
def isRateLimitKey (key : String) : Bool :=
  "tg:authnonce:ip:".toList.isPrefixOf key.toList ||
    "tg:authfail:ip:".toList.isPrefixOf key.toList || "tg:authfail:pk:".toList.isPrefixOf key.toList

theorem isRateLimitKey_append {kind : String} (h : isRateLimitKey kind = true) (name : String) :
    isRateLimitKey (kind ++ name) = true := by
  have happend (pre : List Char) (hpre : pre.isPrefixOf kind.toList = true) :
      pre.isPrefixOf (kind ++ name).toList = true := by
    rw [List.isPrefixOf_iff_prefix] at hpre ⊢
    rw [String.toList_append]
    exact hpre.trans (List.prefix_append _ _)
  simp only [isRateLimitKey, Bool.or_eq_true] at h ⊢
  rcases h with (h | h) | h
  · exact .inl (.inl (happend _ h))
  · exact .inl (.inr (happend _ h))
  · exact .inr (happend _ h)

theorem isCounterKey_of_isRateLimitKey {key : String} (h : isRateLimitKey key = true) :
    isCounterKey key = true := by
  have hprefix (rest : String) (hrest : ("tg:auth" ++ rest).toList.isPrefixOf key.toList = true) :
      isCounterKey key = true := by
    rw [List.isPrefixOf_iff_prefix, String.toList_append] at hrest
    exact List.isPrefixOf_iff_prefix.mpr ((List.prefix_append _ _).trans hrest)
  simp only [isRateLimitKey, Bool.or_eq_true] at h
  rcases h with (h | h) | h
  · exact hprefix "nonce:ip:" h
  · exact hprefix "fail:ip:" h
  · exact hprefix "fail:pk:" h

/-! ## What a process does about counters -/

/-- The counter that the process has just been the first to count. -/
def freshCounter : Hist → Option String
  | ⟨.incr key, .ok count⟩ :: _ => if count = 1 then some key else none
  | _ => none

/-- An operation that leaves the counters alone. -/
def Op.steady : Op → Bool
  | .getDel key => !isRateLimitKey key
  | .setNx key _ _ => !isRateLimitKey key
  | .incr _ => false
  | .expire _ _ => false
  | _ => true

/-- After the first count comes the expiry. -/
inductive CountCall (h : Hist) : Op → Prop
  | steady (o : Op) (ho : o.steady = true) (hs : freshCounter h = none) : CountCall h o
  | incr (key : String) (hkey : isRateLimitKey key = true) (hs : freshCounter h = none) :
      CountCall h (.incr key)
  | expire (key : String) (hs : freshCounter h = some key) : CountCall h (.expire key 60)

/-- No counter waits for its expiry. -/
def NoneFresh (h : Hist) : Prop := freshCounter h = none

theorem noneFresh_cons {o : Op} (ho : ∀ key, o ≠ .incr key) (r : Reply o) (h : Hist) :
    NoneFresh (⟨o, r⟩ :: h) := by
  cases o with
  | incr key => exact absurd rfl (ho key)
  | _ => rfl

theorem not_incr_of_steady {o : Op} (ho : o.steady = true) (key : String) : o ≠ .incr key := by
  rintro rfl
  cases ho

theorem counts_steady {α : Type} {x : Js α} (hx : Only (fun o => o.steady = true) x) :
    Upkeep CountCall NoneFresh x :=
  hx.upkeep (fun _ o hs ho => .steady o ho hs)
    fun h _ r _ ho => noneFresh_cons (not_incr_of_steady ho) r h

theorem counts_await {o : Op} (ho : o.steady = true) : Upkeep CountCall NoneFresh (await o) :=
  counts_steady (.call ho)

theorem counts_incrWithTtl {key : String} (hkey : isRateLimitKey key = true) :
    Upkeep CountCall NoneFresh (incrWithTtl key 60) := by
  intro h hs
  unfold incrWithTtl
  rw [ensures_call_bind]
  refine ⟨.incr key hkey hs, fun count => ?_, fun e => rfl⟩
  by_cases hfirst : count = 1
  · subst hfirst
    rw [if_pos rfl, ensures_call_bind]
    exact ⟨.expire key rfl, fun _ => rfl, fun _ => rfl⟩
  · rw [if_neg hfirst]
    exact if_neg hfirst

theorem counts_countFailure {kind : String} (hkind : isRateLimitKey kind = true) (name : String) :
    Upkeep CountCall NoneFresh (countFailure kind name) := by
  unfold countFailure
  split_ifs
  · exact .pure _
  · exact counts_incrWithTtl (isRateLimitKey_append hkind name)

theorem counts_fail (ip publicKey error : String) :
    Upkeep CountCall NoneFresh (fail ip publicKey error) := by
  have hlimited : Upkeep CountCall NoneFresh (authFailLimited ip publicKey) :=
    .bind (counts_await rfl) fun _ => .bind (counts_countFailure (by decide) _) fun _ =>
      .bind (counts_countFailure (by decide) _) fun _ => .pure _
  refine .bind hlimited.attempt fun limited => ?_
  split
  · exact counts_await rfl
  · exact counts_await rfl

theorem steady_errorHandler (r : Except JsError Unit) :
    Only (fun o => o.steady = true) (errorHandler r) := by
  cases r with
  | error e => exact .call rfl
  | ok _ => exact .pure _

theorem isRateLimitKey_serverNonceKey (key nonce : String) :
    isRateLimitKey (serverNonceKey key nonce) = false := by
  by_contra h
  have hcounter := isCounterKey_of_isRateLimitKey (by simpa using h)
  rw [isCounterKey_serverNonceKey] at hcounter
  cases hcounter

theorem isRateLimitKey_legacyNonceKey (key nonce : String) :
    isRateLimitKey (legacyNonceKey key nonce) = false := by
  by_contra h
  have hcounter := isCounterKey_of_isRateLimitKey (by simpa using h)
  rw [isCounterKey_legacyNonceKey] at hcounter
  cases hcounter

theorem counts_issueNonce (cfg : Settings) (req : Request) :
    Upkeep CountCall NoneFresh (issueNonce cfg req) := by
  unfold issueNonce
  dsimp only
  split_ifs
  · exact counts_await rfl
  · refine .bind (counts_await rfl) fun _ => ?_
    refine .bind (counts_incrWithTtl (isRateLimitKey_append (by decide) _)) fun ipCount => ?_
    split_ifs
    · exact counts_await rfl
    refine .bind (counts_await rfl) fun timestamp => .bind (counts_await rfl) fun nonce => ?_
    refine .bind (counts_await (by simp [Op.steady, isRateLimitKey_serverNonceKey])) fun ok => ?_
    split_ifs
    · exact counts_await rfl
    · exact counts_await rfl
  · exact counts_await rfl

theorem Op.steady_of_serves {o : Op} (ho : o.serves = true) : o.steady = true := by
  cases o with
  | market o => rfl
  | registerExecutor secret metadataUri => rfl
  | saveExecutor record => rfl
  | _ => cases ho

theorem steady_serve (cfg : Settings) (req : Request) (route : Route) :
    Only (fun o => o.steady = true) (route.serve cfg req) :=
  only_serve ((serves_handler cfg req route).mono fun _ => Op.steady_of_serves) (fun _ => rfl) rfl
    (fun _ => rfl) fun _ => rfl

theorem counts_signatureAuth {cfg : Settings} {options : SignatureAuthOptions} {req : Request}
    {next : Js Unit} (hnext : Upkeep CountCall NoneFresh next) :
    Upkeep CountCall NoneFresh (signatureAuth cfg options req next) := by
  refine upkeep_signatureAuth (fun o ho => counts_await ?_) (fun _ => counts_fail _ _ _) hnext
  cases ho with
  | server => simp [Op.steady, isRateLimitKey_serverNonceKey]
  | legacy => simp [Op.steady, isRateLimitKey_legacyNonceKey]
  | _ => rfl

theorem counts_run (cfg : Settings) (req : Request) (route : Route) :
    Upkeep CountCall NoneFresh (route.run cfg req) := by
  have hauthorized : Upkeep CountCall NoneFresh (route.authorized cfg req) := by
    unfold Route.authorized
    split
    · exact counts_signatureAuth (counts_steady (steady_serve cfg req route))
    · exact counts_steady (steady_serve cfg req route)
  unfold Route.run
  refine .bind (Upkeep.attempt ?_) fun answered => counts_steady (steady_errorHandler answered)
  split_ifs
  · unfold adminAuth
    dsimp only
    split_ifs
    · exact counts_await rfl
    · exact hauthorized
  · unfold listingFee
    refine .bind (counts_await rfl) fun now => ?_
    split
    · exact counts_await rfl
    split
    · exact .throw _
    refine .bind (counts_await rfl) fun answer => ?_
    split
    · exact counts_await rfl
    · exact hauthorized
  · exact hauthorized

/-- **Every program of the API** sets the expiry right after the first count. -/
theorem body_counts (j : Job) : Follows CountCall (fun h _ => NoneFresh h) (api.body j) [] := by
  cases j with
  | issueNonce cfg req =>
      exact toEnd_follows ((Upkeep.bind (counts_issueNonce cfg req).attempt
        fun r => counts_steady (steady_errorHandler r)) [] rfl)
  | request cfg route req => exact toEnd_follows (counts_run cfg req route [] rfl)
  | service job =>
      exact (liftProg_serves job.body []).upkeep
        (fun h o hs ho => .steady o (Op.steady_of_serves ho) hs)
        (fun h _ r _ ho => noneFresh_cons (not_incr_of_steady (Op.steady_of_serves ho)) r h) rfl

/-! ## The counters in a run -/

/-- What is known of the counters in a run whose clocks have not passed `now`. -/
structure Counted (now : Nat) (redis : Redis) (t : Trace Op Reply) : Prop where
  positive : ∀ key v, isRateLimitKey key = true → redis key = some v →
    ∃ n, decimal v.text = some (n + 1)
  bounded : ∀ key v expiry, isRateLimitKey key = true → redis key = some v →
    v.expireAt = some expiry → expiry ≤ now + 60000
  /-- Who counts first finds the counter still there when it sets the expiry. -/
  fresh : ∀ pid key, freshCounter (own pid t) = some key → isRateLimitKey key = true ∧
    ∃ v, redis key = some v ∧ v.expireAt = none
  one : ∀ pid pid' key, freshCounter (own pid t) = some key →
    freshCounter (own pid' t) = some key → pid = pid'

theorem Redis.find_lasting {redis : Redis} {key : String} {v : RedisValue} (now : Nat)
    (hv : redis key = some v) (hlasting : v.expireAt = none) : redis.find now key = some v := by
  rw [Redis.find, hv, Option.filter_some, hlasting]
  rfl

section

variable {now : Nat} {s s' : Store} {t : Trace Op Reply} {pid : Nat} {o : Op} {c : Outcome}
  {r : Reply o}

theorem CountCall.keyed {key : String} {seconds : Nat}
    (hc : CountCall (own pid t) (.expire key seconds)) :
    seconds = 60 ∧ freshCounter (own pid t) = some key := by
  cases hc with
  | steady _ ho => cases ho
  | expire _ hs => exact ⟨rfl, hs⟩

theorem exec_steady (ho : o.steady = true) (hx : exec o c s = some (r, s')) (key : String)
    (hkey : isRateLimitKey key = true) : s'.redis key = s.redis key := by
  refine exec_unnamed hx ?_ ?_ (not_incr_of_steady ho key) ?_
  · rintro rfl
    simp [Op.steady, hkey] at ho
  · rintro value seconds rfl
    simp [Op.steady, hkey] at ho
  · rintro seconds rfl
    cases ho

theorem freshCounter_cons {i : Nat} {key : String}
    (hi : freshCounter (own i (⟨pid, o, r⟩ :: t)) = some key) :
    (i = pid ∧ freshCounter (⟨o, r⟩ :: own pid t) = some key) ∨
      (i ≠ pid ∧ freshCounter (own i t) = some key) := by
  by_cases hpid : pid = i
  · subst hpid
    rw [own_cons_self] at hi
    exact .inl ⟨rfl, hi⟩
  · rw [own_cons_ne hpid] at hi
    exact .inr ⟨Ne.symm hpid, hi⟩

namespace Counted

/-- A call that changes no counter and starts none. -/
theorem idle (h : Counted now s.redis t)
    (hsame : ∀ key, isRateLimitKey key = true → s'.redis key = s.redis key)
    (hsettled : freshCounter (⟨o, r⟩ :: own pid t) = none) :
    Counted now s'.redis (⟨pid, o, r⟩ :: t) := by
  have hold {i : Nat} {key : String}
      (hi : freshCounter (own i (⟨pid, o, r⟩ :: t)) = some key) :
      freshCounter (own i t) = some key := by
    rcases freshCounter_cons hi with ⟨-, hi⟩ | ⟨-, hi⟩
    · rw [hsettled] at hi
      cases hi
    · exact hi
  constructor
  · intro key v hkey hv
    rw [hsame key hkey] at hv
    exact h.positive key v hkey hv
  · intro key v expiry hkey hv
    rw [hsame key hkey] at hv
    exact h.bounded key v expiry hkey hv
  · intro i key hi
    obtain ⟨hkey, hv⟩ := h.fresh i key (hold hi)
    rw [hsame key hkey]
    exact ⟨hkey, hv⟩
  · exact fun i i' key hi hi' => h.one i i' key (hold hi) (hold hi')

/-- One counter gets a new value. Whoever is fresh is so for another counter, or it is the caller
and the value has no expiry, or nobody's freshness changes. -/
theorem put (h : Counted now s.redis t) {key : String} (hkey : isRateLimitKey key = true)
    {v : RedisValue} (hredis : s'.redis = s.redis.put key (some v))
    (hpositive : ∃ n, decimal v.text = some (n + 1))
    (hbounded : ∀ expiry, v.expireAt = some expiry → expiry ≤ now + 60000)
    (hown : ∀ key', freshCounter (⟨o, r⟩ :: own pid t) = some key' →
      key' = key ∧ v.expireAt = none ∧ ∀ i, freshCounter (own i t) ≠ some key)
    (hothers : ∀ i, i ≠ pid → freshCounter (own i t) = some key → v.expireAt = none) :
    Counted now s'.redis (⟨pid, o, r⟩ :: t) := by
  have hself : s'.redis key = some v := by rw [hredis, Redis.put_self]
  have hne {key' : String} (hk : key' ≠ key) : s'.redis key' = s.redis key' := by
    rw [hredis, Redis.put_ne _ _ hk]
  constructor
  · intro key' v' hkey' hv'
    by_cases hk : key' = key
    · subst hk
      rw [hself] at hv'
      cases hv'
      exact hpositive
    · rw [hne hk] at hv'
      exact h.positive key' v' hkey' hv'
  · intro key' v' expiry hkey' hv' hexpiry
    by_cases hk : key' = key
    · subst hk
      rw [hself] at hv'
      cases hv'
      exact hbounded expiry hexpiry
    · rw [hne hk] at hv'
      exact h.bounded key' v' expiry hkey' hv' hexpiry
  · intro i key' hi
    rcases freshCounter_cons hi with ⟨-, hi⟩ | ⟨hpid, hi⟩
    · obtain ⟨rfl, hlasting, -⟩ := hown key' hi
      exact ⟨hkey, v, hself, hlasting⟩
    · by_cases hk : key' = key
      · subst hk
        exact ⟨hkey, v, hself, hothers i hpid hi⟩
      · rw [hne hk]
        exact h.fresh i key' hi
  · intro i i' key' hi hi'
    rcases freshCounter_cons hi with ⟨rfl, hself⟩ | ⟨-, hother⟩
    · obtain ⟨rfl, -, hnobody⟩ := hown key' hself
      rcases freshCounter_cons hi' with ⟨rfl, -⟩ | ⟨-, hother'⟩
      · rfl
      · exact absurd hother' (hnobody i')
    · rcases freshCounter_cons hi' with ⟨rfl, hself⟩ | ⟨-, hother'⟩
      · obtain ⟨rfl, -, hnobody⟩ := hown key' hself
        exact absurd hother (hnobody i)
      · exact h.one i i' key' hother hother'

/-- A counter that is not found is nobody's to give an expiry. -/
theorem nobody (h : Counted now s.redis t) {key : String} {clock : Nat}
    (hfind : s.redis.find clock key = none) (i : Nat) : freshCounter (own i t) ≠ some key := by
  intro hi
  obtain ⟨-, v, hv, hlasting⟩ := h.fresh i key hi
  rw [Redis.find_lasting clock hv hlasting] at hfind
  cases hfind

theorem call (h : Counted now s.redis t) (hc : CountCall (own pid t) o) (hnow : c.now ≤ now)
    (hx : exec o c s = some (r, s')) : Counted now s'.redis (⟨pid, o, r⟩ :: t) := by
  cases hc with
  | steady _ ho hs =>
      exact h.idle (exec_steady ho hx) (noneFresh_cons (not_incr_of_steady ho) r _)
  | incr key hkey hs =>
      rcases exec_incr hx with ⟨hsame, ⟨e, rfl⟩, -⟩ | ⟨hfind, hput, hr⟩ |
        ⟨v, n, hfind, hn, hput, hr⟩
      · exact h.idle (fun _ _ => by rw [hsame]) rfl
      · refine h.put hkey hput ⟨0, by decide⟩ (by simp) (fun key' hfresh => ?_)
          fun i _ hi => absurd hi (h.nobody hfind i)
        rcases hr with rfl | ⟨e, -, rfl⟩
        · cases hfresh
          exact ⟨rfl, rfl, h.nobody hfind⟩
        · cases hfresh
      · have hv := Redis.eq_of_find hfind
        obtain ⟨k, hk⟩ := h.positive key v hkey hv
        rw [hn] at hk
        cases hk
        refine h.put hkey hput ⟨k + 1, decimal_toString _⟩
          (fun expiry hexpiry => h.bounded key v expiry hkey hv hexpiry) (fun key' hfresh => ?_)
          fun i _ hi => ?_
        · -- it was not the first
          rcases hr with rfl | ⟨e, rfl⟩
          · have hmore : k + 1 + 1 ≠ 1 := by omega
            rw [freshCounter, if_neg hmore] at hfresh
            cases hfresh
          · cases hfresh
        · obtain ⟨-, v', hv', hlasting⟩ := h.fresh i key hi
          rw [hv] at hv'
          cases hv'
          exact hlasting
  | expire key hs =>
      obtain ⟨hkey, v, hv, hlasting⟩ := h.fresh pid key hs
      rcases exec_expire hx with ⟨-, rfl⟩ | ⟨-, hredis⟩
      · exact h.idle (fun _ _ => rfl) rfl
      · rw [Redis.expire, Redis.find_lasting c.now hv hlasting, Option.map_some] at hredis
        refine h.put hkey hredis (h.positive key v hkey hv) ?_ (fun _ hfresh => nomatch hfresh)
          fun i hi hfresh => absurd (h.one i pid key hfresh hs) hi
        intro expiry hexpiry
        cases hexpiry
        show c.now + 1000 * 60 ≤ now + 60000
        omega

end Counted

end

/-! ## Counters without an expiry -/

/-- **Every counter that is there has an expiry**, at most a minute from now. -/
def CountersExpire (redis : Redis) (now : Nat) : Prop :=
  ∀ key v, isRateLimitKey key = true → redis key = some v →
    ∃ expiry, v.expireAt = some expiry ∧ expiry ≤ now + 60000

def Op.setsExpiry : Op → Bool
  | .expire _ _ => true
  | _ => false

/-- The operation starts a counter. -/
def Op.countsFirst (redis : Redis) (now : Nat) : Op → Bool
  | .incr key => (redis.find now key).isNone
  | _ => false

/-- **A counter is left without an expiry**: the process crashes before the `EXPIRE`, or the
`EXPIRE` is refused, or the answer to the first `INCR` is lost. -/
def dropsExpiry (cfg : Config Op Reply Job Store) : Act Job Outcome → Bool
  | .spawn _ => false
  | .crash pid => (cfg.pending pid).any Op.setsExpiry
  | .run pid c =>
      match c.fault with
      | .none => false
      | .refused _ => (cfg.pending pid).any Op.setsExpiry
      | .lost _ => (cfg.pending pid).any (Op.countsFirst cfg.state.redis c.now)

/-- Some process is about to send an `EXPIRE`. -/
def ExpiryPending (cfg : Config Op Reply Job Store) : Prop :=
  ∃ pid o, cfg.pending pid = some o ∧ o.setsExpiry = true

/-- Every counter without an expiry has a process that is about to set it. -/
def Tended (cfg : Config Op Reply Job Store) : Prop :=
  ∀ key v, isRateLimitKey key = true → cfg.state.redis key = some v → v.expireAt = none →
    ∃ pid, cfg.pending pid = some (.expire key 60)

/-- A counter without an expiry that nobody is going to set. -/
structure Lost (cfg : Config Op Reply Job Store) (key : String) : Prop where
  keyed : isRateLimitKey key = true
  stored : ∃ v, cfg.state.redis key = some v ∧ v.expireAt = none
  nobody : ∀ pid seconds, cfg.pending pid ≠ some (.expire key seconds)

theorem setsExpiry_iff {o : Op} : o.setsExpiry = true ↔ ∃ key seconds, o = .expire key seconds := by
  cases o with
  | expire key seconds => simp [Op.setsExpiry]
  | _ => simp [Op.setsExpiry]

section

/-- Every process is explained. -/
abbrev Counting (cfg : Config Op Reply Job Store) : Prop :=
  Explained (.any : Regime Op Reply Job Outcome Store) (fun _ => CountCall) (fun _ => NoneFresh) cfg

/-- The act reads no clock that has passed `now`. -/
def ByNow (now : Nat) : Act Job Outcome → Prop
  | .run _ c => c.now ≤ now
  | _ => True

variable {now : Nat} {cfg : Config Op Reply Job Store} {key : String}

theorem fresh_of_pending (he : Counting cfg) {pid seconds : Nat}
    (hp : cfg.pending pid = some (.expire key seconds)) :
    seconds = 60 ∧ freshCounter (own pid cfg.trace) = some key := by
  obtain ⟨-, -, hc⟩ := he.issued hp
  exact hc.keyed

theorem counted_step (he : Counting cfg) (h : Counted now cfg.state.redis cfg.trace)
    {a : Act Job Outcome} (hnow : ByNow now a) :
    Counted now (step api cfg a).state.redis (step api cfg a).trace := by
  rcases (he.act_cases body_counts a).2 with ⟨hs, ht⟩ |
    ⟨pid, j, o, c, r, s', rfl, -, -, hc, hx, hs, ht⟩
  · rw [hs, ht]
    exact h
  · rw [hs, ht]
    exact h.call hc hnow hx

/-- An `EXPIRE` is always carried out. -/
theorem exec_expire_some (key : String) (seconds : Nat) (c : Outcome) (s : Store) :
    ∃ r s', exec (.expire key seconds) c s = some (r, s') := by
  unfold exec
  cases c.fault with
  | none => exact ⟨_, _, rfl⟩
  | refused e => exact ⟨_, _, rfl⟩
  | lost e => exact ⟨_, _, rfl⟩

/-- A process that awaits an `EXPIRE` is about to be run, or goes on awaiting it, or crashes. -/
theorem pending_expire_step {pid seconds : Nat} (a : Act Job Outcome)
    (hp : cfg.pending pid = some (.expire key seconds)) :
    a = .crash pid ∨ (∃ c, a = .run pid c) ∨
      (step api cfg a).pending pid = some (.expire key seconds) := by
  by_cases hcrash : a = .crash pid
  · exact .inl hcrash
  by_cases hrun : ∃ c, a = .run pid c
  · exact .inr (.inl hrun)
  · exact .inr (.inr (pending_kept hp a (not_exists.mp hrun) hcrash))

/-- Somebody tends a counter whose value does not change, unless that process acts. -/
theorem Tended.other (htended : Tended cfg) {a : Act Job Outcome}
    (hdrops : dropsExpiry cfg a = false)
    (hrun : ∀ pid c, a = .run pid c → ∀ seconds, cfg.pending pid ≠ some (.expire key seconds))
    (hkey : isRateLimitKey key = true) {v : RedisValue} (hv : cfg.state.redis key = some v)
    (hlasting : v.expireAt = none) :
    ∃ pid, (step api cfg a).pending pid = some (.expire key 60) := by
  obtain ⟨pid, hp⟩ := htended key v hkey hv hlasting
  rcases pending_expire_step a hp with rfl | ⟨c, rfl⟩ | hkept
  · rw [dropsExpiry, hp] at hdrops
    cases hdrops
  · exact absurd hp (hrun pid c rfl 60)
  · exact ⟨pid, hkept⟩

theorem tended_step (htended : Tended cfg) (he : Counting cfg)
    (h : Counted now cfg.state.redis cfg.trace) {a : Act Job Outcome} 
    (hdrops : dropsExpiry cfg a = false) : Tended (step api cfg a) := by
  intro key v hkey hv hlasting
  rcases (he.act_cases body_counts a).2 with ⟨hs, ht⟩ |
    ⟨pid, j, o, c, r, s', rfl, hp, -, hc, hx, hs, ht⟩
  · rw [hs] at hv
    refine htended.other hdrops ?_ hkey hv hlasting
    -- an `EXPIRE` that is run shows in the trace
    rintro pid c rfl seconds hp
    obtain ⟨r, s', hx⟩ := exec_expire_some key seconds c cfg.state
    have htrace : (step api cfg (.run pid c)).trace = ⟨pid, _, r⟩ :: cfg.trace := trace_run hp hx
    have hlength := congrArg List.length (ht.symm.trans htrace)
    rw [List.length_cons] at hlength
    omega
  · have hother (hne : ∀ seconds, o ≠ .expire key seconds) {v : RedisValue}
        (hv : cfg.state.redis key = some v) (hlasting : v.expireAt = none) :
        ∃ pid', (step api cfg (.run pid c)).pending pid' = some (.expire key 60) := by
      refine htended.other hdrops ?_ hkey hv hlasting
      rintro pid' c' heq seconds hp'
      cases heq
      rw [hp] at hp'
      exact hne seconds (Option.some.inj hp')
    rw [hs] at hv
    cases hc with
    | steady _ ho hfresh =>
        rw [exec_steady ho hx key hkey] at hv
        refine hother ?_ hv hlasting
        rintro seconds rfl
        cases ho
    | incr k hk hfresh =>
        rcases exec_incr hx with ⟨hsame, -, -⟩ | ⟨hfind, hput, hr⟩ | ⟨v', n, hfind, -, hput, -⟩
        · rw [hsame] at hv
          exact hother nofun hv hlasting
        · rw [hput] at hv
          by_cases hkk : key = k
          · subst hkk
            rcases hr with rfl | ⟨e, hf, rfl⟩
            · -- the first to count goes on to set the expiry
              refine ⟨pid, he.pending_run hp hx (fun _ o' hc' => ?_) fun _ hq => nomatch hq⟩
              cases hc' with
              | steady _ _ hs => cases hs
              | incr _ _ hs => cases hs
              | expire k' hs =>
                  cases hs
                  rfl
            · rw [dropsExpiry, hf, hp] at hdrops
              simp [Op.countsFirst, hfind] at hdrops
          · rw [Redis.put_ne _ _ hkk] at hv
            exact hother nofun hv hlasting
        · rw [hput] at hv
          by_cases hkk : key = k
          · subst hkk
            rw [Redis.put_self] at hv
            cases hv
            exact hother nofun (Redis.eq_of_find hfind) hlasting
          · rw [Redis.put_ne _ _ hkk] at hv
            exact hother nofun hv hlasting
    | expire k hfresh =>
        obtain ⟨-, v', hv', hlasting'⟩ := h.fresh pid k hfresh
        rcases exec_expire hx with ⟨⟨e, hf⟩, -⟩ | ⟨-, hredis⟩
        · rw [dropsExpiry, hf, hp] at hdrops
          cases hdrops
        · rw [hredis, Redis.expire, Redis.find_lasting c.now hv' hlasting', Option.map_some] at hv
          by_cases hkk : key = k
          · subst hkk
            rw [Redis.put_self] at hv
            cases hv
            cases hlasting
          · rw [Redis.put_ne _ _ hkk] at hv
            refine hother ?_ hv hlasting
            rintro seconds heq
            cases heq
            exact hkk rfl

/-- Nobody will set the expiry of a counter that nobody is fresh for. -/
theorem lost_of_stale (he : Counting cfg) {v : RedisValue} (hkey : isRateLimitKey key = true)
    (hv : cfg.state.redis key = some v) (hlasting : v.expireAt = none)
    (hstale : ∀ pid, freshCounter (own pid cfg.trace) = some key → cfg.pending pid = none) :
    Lost cfg key where
  keyed := hkey
  stored := ⟨v, hv, hlasting⟩
  nobody := by
    intro pid seconds hp
    have hnone := hstale pid (fresh_of_pending he hp).2
    rw [hp] at hnone
    cases hnone

/-- A drop loses a counter. -/
theorem lost_of_drops (he : Counting cfg) (h : Counted now cfg.state.redis cfg.trace)
    {a : Act Job Outcome} (hdrops : dropsExpiry cfg a = true) :
    ∃ key, Lost (step api cfg a) key := by
  have hnext := (he.act_cases body_counts a).1
  cases a with
  | spawn j => cases hdrops
  | crash pid =>
      obtain ⟨o, hp, ho⟩ := (Option.any_eq_true _ _).mp hdrops
      obtain ⟨key, seconds, rfl⟩ := setsExpiry_iff.mp ho
      have hfresh := (fresh_of_pending he hp).2
      obtain ⟨hkey, v, hv, hlasting⟩ := h.fresh pid key hfresh
      refine ⟨key, lost_of_stale hnext hkey hv hlasting fun pid' hfresh' => ?_⟩
      rw [h.one pid' pid key hfresh' hfresh]
      exact pending_crash pid
  | run pid c =>
      have hself (o : Op) (r : Reply o) (s' : Store) (hp : cfg.pending pid = some o)
          (hx : exec o c cfg.state = some (r, s')) :
          (step api cfg (.run pid c)).state = s' ∧
            (step api cfg (.run pid c)).trace = ⟨pid, o, r⟩ :: cfg.trace := by
        refine ⟨?_, trace_run hp hx⟩
        obtain ⟨j, k, hget⟩ := pending_eq_some hp
        show (step api cfg (.run pid c)).state = s'
        simp only [step, hget, api, hx]
      unfold dropsExpiry at hdrops
      dsimp only at hdrops
      cases hf : c.fault with
      | none =>
          rw [hf] at hdrops
          cases hdrops
      | refused e =>
          rw [hf] at hdrops
          obtain ⟨o, hp, ho⟩ := (Option.any_eq_true _ _).mp hdrops
          obtain ⟨key, seconds, rfl⟩ := setsExpiry_iff.mp ho
          have hx : exec (.expire key seconds) c cfg.state = some (.error e, cfg.state) := by
            simp [exec, hf, Op.isLocal]
          obtain ⟨hs, ht⟩ := hself _ _ _ hp hx
          have hfresh := (fresh_of_pending he hp).2
          obtain ⟨hkey, v, hv, hlasting⟩ := h.fresh pid key hfresh
          refine ⟨key, lost_of_stale hnext hkey (by rw [hs]; exact hv) hlasting ?_⟩
          intro pid' hfresh'
          rw [ht] at hfresh'
          rcases freshCounter_cons hfresh' with ⟨-, hnew⟩ | ⟨hne, hold⟩
          · cases hnew
          · exact absurd (h.one pid' pid key hold hfresh) hne
      | lost e =>
          rw [hf] at hdrops
          obtain ⟨o, hp, ho⟩ := (Option.any_eq_true _ _).mp hdrops
          cases o with
          | incr key =>
              have hfind : cfg.state.redis.find c.now key = none := Option.isNone_iff_eq_none.mp ho
              have hx : exec (.incr key) c cfg.state = some (.error e,
                  { cfg.state with redis := cfg.state.redis.put key (some ⟨"1", none⟩) }) := by
                simp [exec, hf, Op.isLocal, perform, Redis.incr, hfind]
              obtain ⟨hs, ht⟩ := hself _ _ _ hp hx
              obtain ⟨-, -, hc⟩ := he.issued hp
              have hkey : isRateLimitKey key = true := by
                cases hc with
                | steady _ ho => cases ho
                | incr _ hkey => exact hkey
              refine ⟨key, lost_of_stale hnext (v := ⟨"1", none⟩) hkey ?_ rfl ?_⟩
              · rw [hs]
                exact Redis.put_self _ _ _
              · intro pid' hfresh'
                rw [ht] at hfresh'
                rcases freshCounter_cons hfresh' with ⟨-, hnew⟩ | ⟨-, hold⟩
                · cases hnew
                · exact absurd hold (h.nobody hfind pid')
          | _ => cases ho

/-- A call that finds a counter without an expiry leaves it so, and does not start it again. -/
theorem lost_call {pid : Nat} {o : Op} {c : Outcome} {r : Reply o} {s s' : Store}
    {t : Trace Op Reply} (h : Counted now s.redis t) (hc : CountCall (own pid t) o)
    (hx : exec o c s = some (r, s')) (hkey : isRateLimitKey key = true) {v : RedisValue}
    (hv : s.redis key = some v) (hlasting : v.expireAt = none)
    (hnot : ∀ seconds, o ≠ .expire key seconds) :
    (∃ v', s'.redis key = some v' ∧ v'.expireAt = none) ∧
      freshCounter (⟨o, r⟩ :: own pid t) ≠ some key := by
  have hfound := Redis.find_lasting c.now hv hlasting
  cases hc with
  | steady _ ho hs =>
      rw [exec_steady ho hx key hkey]
      refine ⟨⟨v, hv, hlasting⟩, ?_⟩
      rw [noneFresh_cons (not_incr_of_steady ho) r]
      nofun
  | incr k hk hs =>
      by_cases hkk : k = key
      · subst hkk
        rcases exec_incr hx with ⟨hsame, ⟨e, rfl⟩, -⟩ | ⟨hfind, -, -⟩ | ⟨v', n, hfind, hn, hput, hr⟩
        · rw [hsame]
          exact ⟨⟨v, hv, hlasting⟩, nofun⟩
        · rw [hfound] at hfind
          cases hfind
        · rw [hfound] at hfind
          cases hfind
          refine ⟨⟨{ v with text := toString (n + 1) }, by rw [hput, Redis.put_self], hlasting⟩,
            fun hfresh => ?_⟩
          obtain ⟨n', hpos⟩ := h.positive k v hk hv
          rw [hn] at hpos
          cases hpos
          rcases hr with rfl | ⟨e, rfl⟩
          · have hmore : n' + 1 + 1 ≠ 1 := by omega
            rw [freshCounter, if_neg hmore] at hfresh
            cases hfresh
          · cases hfresh
      · have hsame : s'.redis key = s.redis key := by
          refine exec_unnamed hx nofun nofun ?_ nofun
          rintro heq
          cases heq
          exact hkk rfl
        refine ⟨⟨v, by rw [hsame]; exact hv, hlasting⟩, fun hfresh => ?_⟩
        unfold freshCounter at hfresh
        split at hfresh
        · rename_i k' count heq
          split_ifs at hfresh
          cases heq
          cases hfresh
          exact hkk rfl
        · cases hfresh
  | expire k hs =>
      have hsame : s'.redis key = s.redis key :=
        exec_unnamed hx nofun nofun nofun hnot
      exact ⟨⟨v, by rw [hsame]; exact hv, hlasting⟩, nofun⟩

/-- **A lost counter stays lost.** -/
theorem lost_step (hlost : Lost cfg key) (he : Counting cfg)
    (h : Counted now cfg.state.redis cfg.trace) (a : Act Job Outcome) :
    Lost (step api cfg a) key := by
  obtain ⟨hkey, ⟨v, hv, hlasting⟩, hnobody⟩ := hlost
  obtain ⟨hnext, hacts⟩ := he.act_cases body_counts a
  rcases hacts with ⟨hs, ht⟩ | ⟨pid, j, o, c, r, s', rfl, hp, -, hc, hx, hs, ht⟩
  · refine ⟨hkey, ⟨v, by rw [hs]; exact hv, hlasting⟩, fun pid seconds hp => ?_⟩
    rcases pending_of_step hp with hold | ⟨j, rfl, hpid⟩ | ⟨c, o, r, s', rfl, hold, hx⟩
    · exact hnobody pid seconds hold
    · -- a new process has no past
      have hfresh := (fresh_of_pending hnext hp).2
      rw [ht, own_eq_nil (hpid ▸ he.started)] at hfresh
      cases hfresh
    · have hlength := congrArg List.length (ht.symm.trans (trace_run hold hx))
      rw [List.length_cons] at hlength
      omega
  · have hnot (seconds : Nat) : o ≠ .expire key seconds := by
      rintro rfl
      exact hnobody pid seconds hp
    obtain ⟨hvalue, hstale⟩ := lost_call h hc hx hkey hv hlasting hnot
    refine ⟨hkey, by rw [hs]; exact hvalue, fun pid' seconds hp' => ?_⟩
    rcases pending_of_step hp' with hold | ⟨j, hact, -⟩ | ⟨c', o', r', s'', hact, -, -⟩
    · exact hnobody pid' seconds hold
    · cases hact
    · cases hact
      have hfresh := (fresh_of_pending hnext hp').2
      rw [ht, own_cons_self] at hfresh
      exact hstale hfresh

/-- A lost counter has no expiry, after any run. -/
theorem lost_run (sched : List (Act Job Outcome)) : ∀ cfg : Config Op Reply Job Store,
    Lost cfg key → Counting cfg → Counted now cfg.state.redis cfg.trace →
    (∀ a ∈ sched, ByNow now a) → ¬ CountersExpire (runSched api cfg sched).state.redis now := by
  induction sched with
  | nil =>
      intro cfg hlost he h hnow hexpire
      obtain ⟨hkey, ⟨v, hv, hlasting⟩, -⟩ := hlost
      obtain ⟨expiry, hexpiry, -⟩ := hexpire key v hkey hv
      rw [hlasting] at hexpiry
      cases hexpiry
  | cons a as ih =>
      intro cfg hlost he h hnow
      exact ih _ (lost_step hlost he h a) (he.act_cases body_counts a).1
        (counted_step he h (hnow a List.mem_cons_self))
        fun b hb => hnow b (List.mem_cons_of_mem _ hb)

theorem expire_run (sched : List (Act Job Outcome)) : ∀ cfg : Config Op Reply Job Store,
    Tended cfg → Counting cfg → Counted now cfg.state.redis cfg.trace →
    (∀ a ∈ sched, ByNow now a) →
    (CountersExpire (runSched api cfg sched).state.redis now ↔
      Heeds api (fun cfg a => dropsExpiry cfg a = false) cfg sched ∧
        ¬ ExpiryPending (runSched api cfg sched)) := by
  induction sched with
  | nil =>
      intro cfg htended he h hnow
      show CountersExpire cfg.state.redis now ↔ True ∧ ¬ ExpiryPending cfg
      rw [true_and]
      constructor
      · rintro hexpire ⟨pid, o, hp, ho⟩
        obtain ⟨key, seconds, rfl⟩ := setsExpiry_iff.mp ho
        obtain ⟨hkey, v, hv, hlasting⟩ := h.fresh pid key (fresh_of_pending he hp).2
        obtain ⟨expiry, hexpiry, -⟩ := hexpire key v hkey hv
        rw [hlasting] at hexpiry
        cases hexpiry
      · intro hnone key v hkey hv
        cases hexpiry : v.expireAt with
        | none =>
            obtain ⟨pid, hp⟩ := htended key v hkey hv hexpiry
            exact absurd ⟨pid, _, hp, rfl⟩ hnone
        | some expiry => exact ⟨expiry, rfl, h.bounded key v expiry hkey hv hexpiry⟩
  | cons a as ih =>
      intro cfg htended he h hnow
      have hnext := (he.act_cases body_counts a).1
      have hcounted := counted_step he h (hnow a List.mem_cons_self)
      have hlater : ∀ b ∈ as, ByNow now b := fun b hb => hnow b (List.mem_cons_of_mem _ hb)
      cases hdrops : dropsExpiry cfg a with
      | false =>
          rw [runSched, ih _ (tended_step htended he h hdrops) hnext hcounted hlater]
          show _ ↔ (dropsExpiry cfg a = false ∧ _) ∧ _
          rw [hdrops, and_assoc, eq_self, true_and]
      | true =>
          obtain ⟨key, hlost⟩ := lost_of_drops he h hdrops
          refine iff_of_false (lost_run as _ hlost hnext hcounted hlater) ?_
          rintro ⟨⟨hkept, -⟩, -⟩
          rw [hdrops] at hkept
          cases hkept

/-! ## The end of a window -/

/-- **Windows end**: a counter that is found more than a minute from now, after whatever else
happens, was started anew by an `INCR` that found none. -/
def WindowsEnd (cfg : Config Op Reply Job Store) (now : Nat) : Prop :=
  ∀ key more later v, isRateLimitKey key = true → now + 60000 < later →
    (runSched api cfg more).state.redis.find later key = some v →
    ∃ before pid c after, more = before ++ .run pid c :: after ∧
      (runSched api cfg before).pending pid = some (.incr key) ∧
      (runSched api cfg before).state.redis.find c.now key = none

/-- The counter, if it is there, expires by `limit`. -/
def ExpiresBy (limit : Nat) (redis : Redis) (key : String) : Prop :=
  ∀ v, redis key = some v → ∃ expiry, v.expireAt = some expiry ∧ expiry ≤ limit

theorem expiresBy_call {pid limit : Nat} {o : Op} {c : Outcome} {r : Reply o} {s s' : Store}
    {t : Trace Op Reply} (h : Counted now s.redis t) (hc : CountCall (own pid t) o)
    (hx : exec o c s = some (r, s')) (hkey : isRateLimitKey key = true)
    (hby : ExpiresBy limit s.redis key) (hstart : o = .incr key → s.redis.find c.now key ≠ none) :
    ExpiresBy limit s'.redis key := by
  intro v hv
  cases hc with
  | steady _ ho hs =>
      rw [exec_steady ho hx key hkey] at hv
      exact hby v hv
  | incr k hk hs =>
      by_cases hkk : key = k
      · subst hkk
        rcases exec_incr hx with ⟨hsame, -, -⟩ | ⟨hfind, -, -⟩ | ⟨v', n, hfind, -, hput, -⟩
        · rw [hsame] at hv
          exact hby v hv
        · exact absurd hfind (hstart rfl)
        · rw [hput, Redis.put_self] at hv
          cases hv
          exact hby v' (Redis.eq_of_find hfind)
      · have hsame : s'.redis key = s.redis key :=
          exec_unnamed hx nofun nofun (fun heq => hkk (Op.incr.inj heq).symm) nofun
        rw [hsame] at hv
        exact hby v hv
  | expire k hs =>
      by_cases hkk : key = k
      · -- who sets an expiry found none
        subst hkk
        obtain ⟨-, v', hv', hlasting⟩ := h.fresh pid key hs
        obtain ⟨expiry, hexpiry, -⟩ := hby v' hv'
        rw [hlasting] at hexpiry
        cases hexpiry
      · have hsame : s'.redis key = s.redis key :=
          exec_unnamed hx nofun nofun nofun fun _ heq => hkk (Op.expire.inj heq).1.symm
        rw [hsame] at hv
        exact hby v hv

theorem ByNow.later {a : Act Job Outcome} {limit : Nat} (h : ByNow now a) (hle : now ≤ limit) :
    ByNow limit a := by
  cases a with
  | run pid c => exact Nat.le_trans h hle
  | _ => trivial

theorem exists_byNow (a : Act Job Outcome) : ∃ limit, ByNow limit a := by
  cases a with
  | run pid c => exact ⟨c.now, Nat.le_refl _⟩
  | _ => exact ⟨0, trivial⟩

theorem exists_clock (sched : List (Act Job Outcome)) (now : Nat) :
    ∃ limit, now ≤ limit ∧ ∀ a ∈ sched, ByNow limit a := by
  induction sched with
  | nil => exact ⟨now, Nat.le_refl _, by simp⟩
  | cons a as ih =>
      obtain ⟨limit, hle, hlimit⟩ := ih
      obtain ⟨limit', ha⟩ := exists_byNow a
      exact ⟨max limit limit', Nat.le_trans hle (Nat.le_max_left _ _),
        List.forall_mem_cons.mpr ⟨ha.later (Nat.le_max_right _ _),
          fun b hb => (hlimit b hb).later (Nat.le_max_left _ _)⟩⟩

theorem Counted.later {redis : Redis} {t : Trace Op Reply} (h : Counted now redis t) {limit : Nat}
    (hle : now ≤ limit) : Counted limit redis t where
  positive := h.positive
  bounded key v expiry hkey hv hexpiry :=
    Nat.le_trans (h.bounded key v expiry hkey hv hexpiry) (by omega)
  fresh := h.fresh
  one := h.one

theorem started_of_found {limit later : Nat} {v : RedisValue} (hkey : isRateLimitKey key = true)
    (hlater : limit < later) (more : List (Act Job Outcome)) : ∀ cfg : Config Op Reply Job Store,
    Counting cfg → Counted now cfg.state.redis cfg.trace → (∀ a ∈ more, ByNow now a) →
    ExpiresBy limit cfg.state.redis key →
    (runSched api cfg more).state.redis.find later key = some v →
    ∃ before pid c after, more = before ++ .run pid c :: after ∧
      (runSched api cfg before).pending pid = some (.incr key) ∧
      (runSched api cfg before).state.redis.find c.now key = none := by
  induction more with
  | nil =>
      intro cfg he h hnow hby hfind
      have hfind' : cfg.state.redis.find later key = some v := hfind
      obtain ⟨expiry, hexpiry, hle⟩ := hby v (Redis.eq_of_find hfind')
      rw [Redis.find, Redis.eq_of_find hfind', Option.filter_some, hexpiry, Option.all_some,
        decide_eq_false (by omega)] at hfind'
      cases hfind'
  | cons a as ih =>
      intro cfg he h hnow hby hfind
      obtain ⟨hnext, hacts⟩ := he.act_cases body_counts a
      have hcounted := counted_step he h (hnow a List.mem_cons_self)
      by_cases hstart : ∃ pid c, a = .run pid c ∧ cfg.pending pid = some (.incr key) ∧
          cfg.state.redis.find c.now key = none
      · obtain ⟨pid, c, rfl, hp, hnone⟩ := hstart
        exact ⟨[], pid, c, as, rfl, hp, hnone⟩
      have hby' : ExpiresBy limit (step api cfg a).state.redis key := by
        rcases hacts with ⟨hs, -⟩ | ⟨pid, j, o, c, r, s', rfl, hp, -, hc, hx, hs, -⟩
        · rw [hs]
          exact hby
        · rw [hs]
          refine expiresBy_call h hc hx hkey hby ?_
          rintro rfl hnone
          exact hstart ⟨pid, c, rfl, hp, hnone⟩
      obtain ⟨before, pid, c, after, rfl, hp, hnone⟩ := ih _ hnext hcounted
        (fun b hb => hnow b (List.mem_cons_of_mem _ hb)) hby' hfind
      exact ⟨a :: before, pid, c, after, rfl, hp, hnone⟩

/-- Without a counter at first. -/
theorem counted_initial {m : Store} (hm : ∀ key, isRateLimitKey key = true → m.redis key = none) :
    Counted now m.redis [] where
  positive key v hkey hv := by
    rw [hm key hkey] at hv
    cases hv
  bounded key v expiry hkey hv := by
    rw [hm key hkey] at hv
    cases hv
  fresh pid key hfresh := nomatch hfresh
  one pid pid' key hfresh := nomatch hfresh

theorem counted_run (sched : List (Act Job Outcome)) : ∀ cfg : Config Op Reply Job Store,
    Counting cfg → Counted now cfg.state.redis cfg.trace → (∀ a ∈ sched, ByNow now a) →
    Counting (runSched api cfg sched) ∧
      Counted now (runSched api cfg sched).state.redis (runSched api cfg sched).trace := by
  induction sched with
  | nil => exact fun _ he h _ => ⟨he, h⟩
  | cons a as ih =>
      exact fun cfg he h hnow => ih _ (he.act_cases body_counts a).1
        (counted_step he h (hnow a List.mem_cons_self))
        fun b hb => hnow b (List.mem_cons_of_mem _ hb)

end

/-- **When the counters expire.** After a run without counters at first, every counter has an expiry
of at most a minute if and only if no act of the run dropped one and none is being set, and then
every window ends. -/
theorem counters_expire_iff (m : Store)
    (hm : ∀ key, isRateLimitKey key = true → m.redis key = none) (sched : List (Act Job Outcome))
    (now : Nat) (hnow : ∀ a ∈ sched, ByNow now a) :
    let cfg := runSched api (.initial m) sched
    (CountersExpire cfg.state.redis now ↔
      Heeds api (fun cfg a => dropsExpiry cfg a = false) (.initial m) sched ∧
        ¬ ExpiryPending cfg) ∧
    (CountersExpire cfg.state.redis now → WindowsEnd cfg now) := by
  have htended : Tended (.initial m) := by
    intro key v hkey hv
    have hv' : m.redis key = some v := hv
    rw [hm key hkey] at hv'
    cases hv'
  refine ⟨expire_run sched _ htended (.initial m) (counted_initial hm) hnow, ?_⟩
  intro hexpire key more later v hkey hlater hfind
  obtain ⟨he, h⟩ := counted_run sched _ (.initial m) (counted_initial hm) hnow
  obtain ⟨limit, hle, hlimit⟩ := exists_clock more now
  exact started_of_found hkey hlater more _ he (h.later hle) hlimit
    (fun v hv => hexpire key v hkey hv) hfind

/-- A nonce request from an address. -/
def addressedRequest : Request := { nonceRequest with ip := "192.0.2.1" }

/-- The nonce is issued. -/
def issueOne : List (Act Job Outcome) :=
  .spawn (.issueNonce clientNonceSettings addressedRequest) :: goOn 0 7

theorem issueOne_clock : ∀ a ∈ issueOne, ByNow 5 a := by
  intro a ha
  rcases ha with _ | ⟨_, ha⟩
  · trivial
  · rw [List.eq_of_mem_replicate ha]
    exact Nat.le_refl 5

theorem issued_counter_expires :
    CountersExpire (runSched api (.initial emptyStore) issueOne).state.redis 5 ∧
      WindowsEnd (runSched api (.initial emptyStore) issueOne) 5 := by
  have h := counters_expire_iff emptyStore (fun _ _ => rfl) issueOne 5 issueOne_clock
  have hquiet : (runSched api (.initial emptyStore) issueOne).Quiet := by decide +kernel
  have hexpire : CountersExpire (runSched api (.initial emptyStore) issueOne).state.redis 5 := by
    refine h.1.mpr ⟨by decide +kernel, ?_⟩
    rintro ⟨pid, o, hp, -⟩
    rw [hquiet pid] at hp
    cases hp
  exact ⟨hexpire, h.2 hexpire⟩

/-- The process crashes after the `INCR`. -/
def countAndCrash : List (Act Job Outcome) :=
  .spawn (.issueNonce clientNonceSettings addressedRequest) :: goOn 0 2 ++ [.crash 0]

/-- The counter stays, though nobody is going to set an expiry. -/
theorem counters_not_always_expire :
    ¬ ∀ (m : Store) (sched : List (Act Job Outcome)) (now : Nat),
      (∀ key, isRateLimitKey key = true → m.redis key = none) → (∀ a ∈ sched, ByNow now a) →
      ¬ ExpiryPending (runSched api (.initial m) sched) →
      CountersExpire (runSched api (.initial m) sched).state.redis now := by
  intro h
  have hquiet : (runSched api (.initial emptyStore) countAndCrash).Quiet := by decide +kernel
  have hclock : ∀ a ∈ countAndCrash, ByNow 5 a := by
    intro a ha
    rcases ha with _ | ⟨_, ha⟩
    · trivial
    rcases List.mem_append.mp ha with ha | ha
    · rw [List.eq_of_mem_replicate ha]
      exact Nat.le_refl 5
    · rw [List.mem_singleton.mp ha]
      trivial
  have hnone : ¬ ExpiryPending (runSched api (.initial emptyStore) countAndCrash) := by
    rintro ⟨pid, o, hp, -⟩
    rw [hquiet pid] at hp
    cases hp
  have hstored : (runSched api (.initial emptyStore) countAndCrash).state.redis
      "tg:authnonce:ip:192.0.2.1" = some ⟨"1", none⟩ := by decide +kernel
  obtain ⟨expiry, hexpiry, -⟩ := h emptyStore countAndCrash 5 (fun _ _ => rfl) hclock hnone _ _
    (by decide) hstored
  cases hexpiry

end TrustGate.Api
