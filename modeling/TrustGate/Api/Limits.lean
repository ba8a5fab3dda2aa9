import TrustGate.Api.Verdict

set_option autoImplicit false

/-! # The limit on failed signatures

More than ten failures with a key or thirty from an address within a minute are meant to lock the
key or the address out for the rest of the minute. Only `fail` counts, and only `fail` looks at the
counters: whoever is not refused anyway is not locked out. -/

namespace TrustGate.Api

open Market Resumption

/-! ## A minute -/

/-- The call is carried out within the minute that begins at `start`. -/
def Timely (start : Nat) (_ : Op) (c : Outcome) : Prop := start ≤ c.now ∧ c.now ≤ start + 60000

/-- The counters of failures are numbers, and none of them runs out within the minute. -/
def CountersLast (start : Nat) (redis : Redis) : Prop :=
  ∀ key v, isFailKey key = true → redis key = some v →
    (∃ n, decimal v.text = some n) ∧ ∀ expiry ∈ v.expireAt, start + 60000 ≤ expiry

/-- What the counter stands at. -/
def countOf (redis : Redis) (key : String) : Nat :=
  ((redis key).bind fun v => decimal v.text).getD 0

/-- No counter of failures has gone down. -/
def Grown (s s' : Store) : Prop :=
  ∀ key, isFailKey key = true → countOf s.redis key ≤ countOf s'.redis key

theorem Grown.trans {s s₁ s' : Store} (h : Grown s s₁) (h' : Grown s₁ s') : Grown s s' :=
  fun key hkey => (h key hkey).trans (h' key hkey)

theorem countOf_congr {s s' : Store} {key : String} (h : s'.redis key = s.redis key) :
    countOf s'.redis key = countOf s.redis key := by
  rw [countOf, h, countOf]

theorem SparesFails.grown {s s' : Store} (h : SparesFails s s') : Grown s s' :=
  fun key hkey => (countOf_congr (h key hkey)).ge

theorem SparesFails.last {s s' : Store} {start : Nat} (h : SparesFails s s')
    (hlast : CountersLast start s.redis) : CountersLast start s'.redis := by
  intro key v hkey hv
  rw [h key hkey] at hv
  exact hlast key v hkey hv

theorem redisAnswers_append {l l' : Record} :
    RedisAnswers (l ++ l') ↔ RedisAnswers l ∧ RedisAnswers l' := List.forall_mem_append

theorem redisAnswers_cons {e : Entry Op Reply Outcome} {l : Record} :
    RedisAnswers (e :: l) ↔ (e.op.isRedis = true → e.outcome.fault = .none) ∧ RedisAnswers l :=
  List.forall_mem_cons

section

variable {start now : Nat} {redis : Redis} {key : String}

/-- Within the minute a counter is found. -/
theorem CountersLast.find (h : CountersLast start redis) (hkey : isFailKey key = true)
    (hnow : now ≤ start + 60000) : redis.find now key = redis key := by
  unfold Redis.find
  cases hv : redis key with
  | none => rfl
  | some v =>
      rw [Option.filter_some, if_pos]
      rw [Option.all_eq_true]
      exact fun expiry hexpiry => decide_eq_true (hnow.trans ((h key v hkey hv).2 expiry hexpiry))

theorem CountersLast.put (h : CountersLast start redis) {v : RedisValue} {n : Nat}
    (hn : decimal v.text = some n) (hexpiry : ∀ expiry ∈ v.expireAt, start + 60000 ≤ expiry) :
    CountersLast start (redis.put key (some v)) := by
  intro k w hk hw
  by_cases hkk : k = key
  · subst hkk
    rw [Redis.put_self] at hw
    cases hw
    exact ⟨⟨n, hn⟩, hexpiry⟩
  · rw [Redis.put_ne _ _ hkk] at hw
    exact h k w hk hw

theorem put_put (redis : Redis) (key : String) (v w : Option RedisValue) :
    (redis.put key v).put key w = redis.put key w := by
  funext k
  by_cases hk : k = key
  · subst hk
    rw [Redis.put_self, Redis.put_self]
  · rw [Redis.put_ne _ _ hk, Redis.put_ne _ _ hk, Redis.put_ne _ _ hk]

/-- `INCR` counts one more. -/
theorem CountersLast.incr (h : CountersLast start redis) (hkey : isFailKey key = true)
    (hnow : now ≤ start + 60000) :
    ∃ v, redis.incr now key = (.ok (countOf redis key + 1), redis.put key (some v)) ∧
      decimal v.text = some (countOf redis key + 1) ∧
      ∀ expiry ∈ v.expireAt, start + 60000 ≤ expiry := by
  unfold Redis.incr
  rw [h.find hkey hnow]
  cases hv : redis key with
  | none =>
      have hzero : countOf redis key = 0 := by rw [countOf, hv]; rfl
      rw [hzero]
      exact ⟨⟨"1", none⟩, rfl, by decide, by simp⟩
  | some v =>
      obtain ⟨⟨n, hn⟩, hexpiry⟩ := h key v hkey hv
      have hcount : countOf redis key = n := by rw [countOf, hv, Option.bind_some, hn]; rfl
      rw [hcount]
      dsimp only
      rw [hn]
      exact ⟨_, rfl, decimal_toString _, hexpiry⟩

end

/-! ## One counter -/

/-- What counting in `key` does. -/
structure Tallied (start : Nat) (key : String) (s : Store) (log : Record) (r : Except JsError Nat)
    (s' : Store) : Prop where
  last : CountersLast start s'.redis
  others : ∀ k, k ≠ key → s'.redis k = s.redis k
  grows : countOf s.redis key ≤ countOf s'.redis key
  counted : RedisAnswers log →
    r = .ok (countOf s.redis key + 1) ∧ countOf s'.redis key = countOf s.redis key + 1
  failed : ¬ RedisAnswers log → ∃ e, r = .error e

section

variable {start : Nat} {key : String} {s : Store}

/-- Refused, an `INCR` changes nothing; lost or not, it counts one more. -/
theorem exec_tallies {c : Outcome} {r : Reply (.incr key)} {s₁ : Store}
    (hkey : isFailKey key = true) (hlast : CountersLast start s.redis)
    (ht : Timely start (.incr key) c) (hx : exec (.incr key) c s = some (r, s₁)) :
    (c.fault ≠ .none ∧ (∃ e, r = .error e) ∧ s₁.redis = s.redis) ∨
      ∃ v, s₁.redis = s.redis.put key (some v) ∧ decimal v.text = some (countOf s.redis key + 1) ∧
        (∀ expiry ∈ v.expireAt, start + 60000 ≤ expiry) ∧
        (c.fault = .none ∧ r = .ok (countOf s.redis key + 1) ∨ c.fault ≠ .none ∧ ∃ e, r = .error e) := by
  obtain ⟨v, hincr, hcount, hexpiry⟩ := hlast.incr hkey ht.2
  rcases exec_cases hx with ⟨e, hf, rfl, rfl⟩ | ⟨r₀, hp, hr⟩
  · exact .inl ⟨by simp [hf], ⟨e, rfl⟩, rfl⟩
  · simp only [perform, hincr, Option.some.injEq, Prod.mk.injEq] at hp
    obtain ⟨rfl, rfl⟩ := hp
    refine .inr ⟨v, rfl, hcount, hexpiry, ?_⟩
    rcases hr with ⟨hf, rfl⟩ | ⟨e, hf, rfl⟩
    · exact .inl ⟨hf, rfl⟩
    · exact .inr ⟨by simp [hf], e, rfl⟩

/-- The counter holds a value that lasts. -/
theorem Tallied.of_put {s' : Store} {v : RedisValue} {log : Record} {r : Except JsError Nat}
    (hlast : CountersLast start s.redis) (hput : s'.redis = s.redis.put key (some v))
    (hcount : decimal v.text = some (countOf s.redis key + 1))
    (hexpiry : ∀ expiry ∈ v.expireAt, start + 60000 ≤ expiry)
    (counted : RedisAnswers log → r = .ok (countOf s.redis key + 1))
    (failed : ¬ RedisAnswers log → ∃ e, r = .error e) : Tallied start key s log r s' := by
  have hnow : countOf s'.redis key = countOf s.redis key + 1 := by
    rw [hput, countOf, Redis.put_self, Option.bind_some, hcount]
    rfl
  refine ⟨hput ▸ hlast.put hcount hexpiry, fun k hk => ?_, by omega, fun h => ⟨counted h, hnow⟩,
    failed⟩
  rw [hput, Redis.put_ne _ _ hk]

theorem incrWithTtl_tallies (hkey : isFailKey key = true) (hlast : CountersLast start s.redis) :
    Solo exec (Timely start) (incrWithTtl key 60) s (Tallied start key s) := by
  unfold incrWithTtl
  rw [solo_call_bind]
  refine ⟨?_, ?_⟩
  swap
  · rintro c e s₁ ht hx
    have hno : RedisAnswers [⟨.incr key, c, .error e⟩] → c.fault = .none :=
      fun h => h _ List.mem_cons_self rfl
    rcases exec_tallies hkey hlast ht hx with ⟨hf, -, hsame⟩ | ⟨v, hput, hcount, hexpiry, hr⟩
    · exact ⟨hsame ▸ hlast, fun _ _ => by rw [hsame], by rw [hsame], fun h => absurd (hno h) hf,
        fun _ => ⟨e, rfl⟩⟩
    · rcases hr with ⟨-, hr⟩ | ⟨hf, -⟩
      · cases hr
      · exact .of_put hlast hput hcount hexpiry (fun h => absurd (hno h) hf) fun _ => ⟨e, rfl⟩
  rintro c count s₁ ht hx
  rcases exec_tallies hkey hlast ht hx with ⟨-, ⟨e, hr⟩, -⟩ | ⟨v, hput, hcount, hexpiry, hr⟩
  · cases hr
  rcases hr with ⟨hf, hr⟩ | ⟨-, e, hr⟩
  swap
  · cases hr
  cases hr
  split_ifs with hfirst
  swap
  · refine (solo_pure _).mpr (.of_put hlast hput hcount hexpiry (fun _ => rfl) fun h => absurd ?_ h)
    simp [RedisAnswers, hf]
  -- the first count sets the expiry
  have hexpire {c' : Outcome} {s₂ : Store} (ht' : Timely start (.expire key 60) c')
      (hs : s₂ = s₁ ∨ s₂.redis = s₁.redis.expire c'.now key 60) :
      ∃ w, s₂.redis = s.redis.put key (some w) ∧ decimal w.text = some (countOf s.redis key + 1) ∧
        ∀ expiry ∈ w.expireAt, start + 60000 ≤ expiry := by
    rcases hs with rfl | hs
    · exact ⟨v, hput, hcount, hexpiry⟩
    · refine ⟨{ v with expireAt := some (c'.now + 1000 * 60) }, ?_, hcount, ?_⟩
      · rw [hs, Redis.expire, hput, (hlast.put hcount hexpiry).find hkey ht'.2, Redis.put_self,
          put_put]
        rfl
      · intro expiry hw
        have hnow : c'.now + 1000 * 60 = expiry := Option.some.inj hw
        have := ht'.1
        omega
  rw [solo_call_bind]
  refine ⟨?_, ?_⟩
  · rintro c' u s₂ ht' hx'
    have hf' := fault_of_ok hx'
    rcases exec_expire hx' with ⟨⟨e, hrefused⟩, -⟩ | ⟨-, hs⟩
    · rw [hf'] at hrefused
      cases hrefused
    obtain ⟨w, hput', hcount', hexpiry'⟩ := hexpire ht' (.inr hs)
    refine (solo_pure _).mpr (.of_put hlast hput' hcount' hexpiry' (fun _ => rfl) fun h => absurd ?_ h)
    simp [RedisAnswers, hf, hf']
  · rintro c' e s₂ ht' hx'
    have hs : s₂ = s₁ ∨ s₂.redis = s₁.redis.expire c'.now key 60 :=
      (exec_expire hx').imp And.right And.right
    obtain ⟨w, hput', hcount', hexpiry'⟩ := hexpire ht' hs
    refine .of_put hlast hput' hcount' hexpiry' (fun h => ?_) fun _ => ⟨e, rfl⟩
    have hf' : c'.fault = .none := h ⟨.expire key 60, c', .error e⟩ (by simp) rfl
    rcases exec_answers hx' with ⟨-, hp⟩ | ⟨hne, -⟩
    · cases hp
    · exact absurd hf' hne

end

/-! ## fail -/

theorem isFailKey_append {kind : String} (h : isFailKey kind = true) (name : String) :
    isFailKey (kind ++ name) = true := by
  unfold isFailKey at *
  rw [List.isPrefixOf_iff_prefix] at *
  rw [String.toList_append]
  exact h.trans (List.prefix_append _ _)

/-- Addresses and keys are counted apart. -/
theorem ipKey_ne_pkKey (ip publicKey : String) :
    "tg:authfail:ip:" ++ ip ≠ "tg:authfail:pk:" ++ publicKey := by
  intro heq
  have hlist := congrArg String.toList heq
  simp only [String.toList_append] at hlist
  have h12 := congrArg (fun l => l[12]?) hlist
  simp at h12

/-- The failure is counted for the name, if there is one. -/
def CountedOnce (kind name : String) (s s' : Store) : Prop :=
  name ≠ "" → countOf s'.redis (kind ++ name) = countOf s.redis (kind ++ name) + 1

/-- The key or the address has failed as often as it may. -/
def Full (redis : Redis) (ip publicKey : String) : Prop :=
  ip ≠ "" ∧ 30 ≤ countOf redis ("tg:authfail:ip:" ++ ip) ∨
    publicKey ≠ "" ∧ 10 ≤ countOf redis ("tg:authfail:pk:" ++ publicKey)

theorem SparesFails.countOf_eq {s s' : Store} (h : SparesFails s s') {kind : String}
    (hkind : isFailKey kind = true) (name : String) :
    countOf s'.redis (kind ++ name) = countOf s.redis (kind ++ name) :=
  countOf_congr (h _ (isFailKey_append hkind name))

theorem SparesFails.full {s s' : Store} (h : SparesFails s s') (ip publicKey : String) :
    Full s'.redis ip publicKey ↔ Full s.redis ip publicKey := by
  rw [Full, h.countOf_eq (by decide), h.countOf_eq (by decide), Full]

theorem SparesFails.countedOnce {s s₁ s' : Store} (h : SparesFails s s₁) {kind name : String}
    (hkind : isFailKey kind = true) (honce : CountedOnce kind name s₁ s') :
    CountedOnce kind name s s' :=
  fun hname => by rw [honce hname, h.countOf_eq hkind]

section

variable {start : Nat} {s : Store}

theorem Tallied.grown {key : String} {log : Record} {r : Except JsError Nat} {s' : Store}
    (h : Tallied start key s log r s') : Grown s s' := by
  intro k _
  by_cases hk : k = key
  · subst hk
    exact h.grows
  · exact (countOf_congr (h.others k hk)).ge

/-- One failure is counted, or there is no name to count it for. -/
structure Noted (start : Nat) (kind name : String) (s : Store) (log : Record)
    (r : Except JsError Nat) (s' : Store) : Prop where
  last : CountersLast start s'.redis
  grown : Grown s s'
  others : ∀ k, k ≠ kind ++ name → s'.redis k = s.redis k
  counted : RedisAnswers log → CountedOnce kind name s s' ∧
    r = .ok (if name = "" then 0 else countOf s.redis (kind ++ name) + 1)
  failed : ¬ RedisAnswers log → ∃ e, r = .error e

theorem countFailure_notes {kind : String} (hkind : isFailKey kind = true) (name : String)
    (hlast : CountersLast start s.redis) :
    Solo exec (Timely start) (countFailure kind name) s (Noted start kind name s) := by
  unfold countFailure
  split_ifs with hname
  · refine (solo_pure 0).mpr ⟨hlast, fun _ _ => Nat.le_refl _, fun _ _ => rfl, fun _ => ?_,
      fun h => absurd (by simp [RedisAnswers]) h⟩
    exact ⟨fun hne => absurd hname hne, by rw [if_pos hname]⟩
  · refine (incrWithTtl_tallies (isFailKey_append hkind name) hlast).mono fun log r s' h => ?_
    refine ⟨h.last, h.grown, h.others, fun hanswers => ?_, h.failed⟩
    obtain ⟨hr, hcount⟩ := h.counted hanswers
    exact ⟨fun _ => hcount, by rw [hr, if_neg hname]⟩

/-- What `authFailLimited` does: both failures are counted, and the answer is whether the limit had
been reached before. -/
structure Weighed (start : Nat) (ip publicKey : String) (s : Store) (log : Record)
    (r : Except JsError Bool) (s' : Store) : Prop where
  last : CountersLast start s'.redis
  grown : Grown s s'
  counted : RedisAnswers log → CountedOnce "tg:authfail:ip:" ip s s' ∧
    CountedOnce "tg:authfail:pk:" publicKey s s' ∧
    ∃ limited, r = .ok limited ∧ (limited = true ↔ Full s.redis ip publicKey)
  failed : ¬ RedisAnswers log → ∃ e, r = .error e

theorem authFailLimited_weighs (ip publicKey : String) (hlast : CountersLast start s.redis) :
    Solo exec (Timely start) (authFailLimited ip publicKey) s (Weighed start ip publicKey s) := by
  unfold authFailLimited
  rw [solo_call_bind]
  refine ⟨?_, ?_⟩
  swap
  · rintro c e s₁ - hx
    obtain ⟨rfl, ⟨-, hr⟩ | ⟨hf, -⟩⟩ := spares_of_client hx
    · cases hr
    · refine ⟨hlast, fun _ _ => Nat.le_refl _, fun h => absurd ?_ hf, fun _ => ⟨e, rfl⟩⟩
      exact h ⟨.getRedisClient, c, .error e⟩ List.mem_cons_self rfl
  rintro c u s₁ - hx
  have hf := fault_of_ok hx
  obtain ⟨rfl, -⟩ := spares_of_client hx
  rw [solo_bind]
  intro ipLog ipCount s₂ hruns
  have hip := countFailure_notes (by decide) ip hlast ipLog ipCount s₂ hruns
  cases ipCount with
  | error e =>
      refine ⟨hip.last, hip.grown, fun h => ?_, fun _ => ⟨e, rfl⟩⟩
      have hr := (hip.counted (redisAnswers_cons.mp h).2).2
      cases hr
  | ok ipCount =>
      dsimp only
      rw [solo_bind]
      intro pkLog pkCount s₃ hruns'
      have hpk := countFailure_notes (by decide) publicKey hip.last pkLog pkCount s₃ hruns'
      have hgrown := hip.grown.trans hpk.grown
      cases pkCount with
      | error e =>
          refine ⟨hpk.last, hgrown, fun h => ?_, fun _ => ⟨e, rfl⟩⟩
          have hr := (hpk.counted (redisAnswers_append.mp (redisAnswers_cons.mp h).2).2).2
          cases hr
      | ok pkCount =>
          -- a count that was returned was counted
          have hanswers {kind name : String} {m m' : Store} {log : Record} {count : Nat}
              (h : Noted start kind name m log (.ok count) m') : RedisAnswers log := by
            by_contra hno
            obtain ⟨e, he⟩ := h.failed hno
            cases he
          obtain ⟨honce, hcount⟩ := hip.counted (hanswers hip)
          obtain ⟨honce', hcount'⟩ := hpk.counted (hanswers hpk)
          cases hcount
          cases hcount'
          have hne := ipKey_ne_pkKey ip publicKey
          have hkept := countOf_congr (hpk.others _ hne)
          have hkept' := countOf_congr (hip.others _ hne.symm)
          refine (solo_pure _).mpr ⟨hpk.last, hgrown, fun _ => ⟨?_, ?_, _, rfl, ?_⟩,
            fun h => absurd ?_ h⟩
          · exact fun hname => by rw [hkept, honce hname]
          · exact fun hname => by rw [honce' hname, hkept']
          · rw [hkept', Full, Bool.or_eq_true, decide_eq_true_eq, decide_eq_true_eq]
            split_ifs with hname hname' hname' <;> simp [hname, hname']
          · rw [List.append_nil, redisAnswers_cons, redisAnswers_append]
            exact ⟨fun _ => hf, hanswers hip, hanswers hpk⟩

/-- What `fail` does: it answers 429 where the limit had been reached and Redis answers. -/
structure Refusal (start : Nat) (ip publicKey : String) (s : Store) (log : Record)
    (r : Except JsError Unit) (s' : Store) : Prop where
  last : CountersLast start s'.redis
  grown : Grown s s'
  returned : r = .ok ()
  answered : ∃ l c response, log = l ++ [⟨.json response, c, .ok ()⟩] ∧
    (∀ e ∈ l, e.op.isRedis = true) ∧
    (response.status = 429 ∧ RedisAnswers l ∧ Full s.redis ip publicKey ∨
      response.status = 401 ∧ ¬ (RedisAnswers l ∧ Full s.redis ip publicKey))
  counted : RedisAnswers log →
    CountedOnce "tg:authfail:ip:" ip s s' ∧ CountedOnce "tg:authfail:pk:" publicKey s s'

theorem fail_refuses (ip publicKey error : String) (hlast : CountersLast start s.redis) :
    Solo exec (Timely start) (fail ip publicKey error) s (Refusal start ip publicKey s) := by
  have hredis : Only (fun o => o.isRedis = true) (authFailLimited ip publicKey) :=
    only_authFailLimited (T := fun o => o.isRedis = true) rfl (fun _ _ => rfl) (fun _ _ _ => rfl)
      ip publicKey
  have hanswer {l : Record} {limited : Except JsError Bool} {s₁ : Store} {response : Response}
      (hl : ∀ e ∈ l, e.op.isRedis = true) (h : Weighed start ip publicKey s l limited s₁)
      (hresponse : response.status = 429 ∧ RedisAnswers l ∧ Full s.redis ip publicKey ∨
        response.status = 401 ∧ ¬ (RedisAnswers l ∧ Full s.redis ip publicKey)) :
      Solo exec (Timely start) (respond response) s₁ fun log =>
        Refusal start ip publicKey s (l ++ log) := by
    refine solo_call.mpr fun c r s₂ _ hx => ?_
    rcases exec_answers hx with ⟨-, hp⟩ | ⟨-, hlocal, -⟩
    swap
    · cases hlocal
    cases hp
    refine ⟨h.last, h.grown, rfl, ⟨l, c, response, rfl, hl, hresponse⟩, fun hanswers => ?_⟩
    obtain ⟨hip, hpk, -⟩ := h.counted (redisAnswers_append.mp hanswers).1
    exact ⟨hip, hpk⟩
  unfold fail
  rw [solo_bind, solo_attempt]
  intro l limited s₁ hruns
  have h := authFailLimited_weighs ip publicKey hlast l limited s₁ hruns
  have hl : ∀ e ∈ l, e.op.isRedis = true := Only.log hredis l limited s₁ hruns
  dsimp only
  by_cases hanswers : RedisAnswers l
  · obtain ⟨-, -, b, rfl, hfull⟩ := h.counted hanswers
    cases b with
    | true => exact hanswer hl h (.inl ⟨rfl, hanswers, hfull.mp rfl⟩)
    | false => exact hanswer hl h (.inr ⟨rfl, fun ⟨_, hf⟩ => absurd (hfull.mpr hf) (by simp)⟩)
  · obtain ⟨e, rfl⟩ := h.failed hanswers
    exact hanswer hl h (.inr ⟨rfl, fun ⟨ha, _⟩ => hanswers ha⟩)

end

/-! ## The gate in front -/

theorem exec_dateNow {c : Outcome} {m m' : Store} {r : Reply (.market .dateNow)}
    (hx : exec (.market .dateNow) c m = some (r, m')) : r = .ok c.now ∧ m' = m := by
  rcases exec_answers hx with ⟨-, hp⟩ | ⟨-, hlocal, -⟩
  · cases hp
    exact ⟨rfl, rfl⟩
  · cases hlocal

theorem exec_respond {response : Response} {c : Outcome} {m m' : Store} {r : Reply (.json response)}
    (hx : exec (.json response) c m = some (r, m')) : r = .ok () ∧ m' = m := by
  rcases exec_answers hx with ⟨-, hp⟩ | ⟨-, hlocal, -⟩
  · cases hp
    exact ⟨rfl, rfl⟩
  · cases hlocal

theorem exec_gate {requester amount description : String} {c : Outcome} {m m' : Store}
    {r : Reply (.listingFeeGate requester amount description)}
    (hx : exec (.listingFeeGate requester amount description) c m = some (r, m')) : m' = m := by
  rcases exec_cases hx with ⟨-, -, -, rfl⟩ | ⟨r₀, hp, -⟩
  · rfl
  · cases hp
    rfl

/-- How the schema check and the payment gate go in front of `next`. -/
inductive Fronted (ok : Op → Outcome → Prop) (next : Js Unit) (s : Store) :
    Record → Except JsError Unit → Store → Prop
  | passed (c₀ c₁ : Outcome) (now : Reply (.market .dateNow)) (requester amount description : String)
      (rest : Record) (r : Except JsError Unit) (s' : Store) (run : Runs exec ok next.run s rest r s') :
      Fronted ok next s (⟨.market .dateNow, c₀, now⟩ ::
        ⟨.listingFeeGate requester amount description, c₁, .ok none⟩ :: rest) r s'
  | answered (c₀ c₁ c₂ : Outcome) (now : Reply (.market .dateNow))
      (requester amount description : String) (response : Response) :
      Fronted ok next s [⟨.market .dateNow, c₀, now⟩,
        ⟨.listingFeeGate requester amount description, c₁, .ok (some response)⟩,
        ⟨.json response, c₂, .ok ()⟩] (.ok ()) s
  | invalid (c₀ c₁ : Outcome) (now : Reply (.market .dateNow)) (detail : Json) :
      Fronted ok next s [⟨.market .dateNow, c₀, now⟩, ⟨.json (invalidRequest detail), c₁, .ok ()⟩]
        (.ok ()) s
  | unpriced (c₀ : Outcome) (now : Reply (.market .dateNow)) (e : JsError) :
      Fronted ok next s [⟨.market .dateNow, c₀, now⟩] (.error e) s
  | failed (c₀ c₁ : Outcome) (now : Reply (.market .dateNow))
      (requester amount description : String) (e : JsError) :
      Fronted ok next s [⟨.market .dateNow, c₀, now⟩,
        ⟨.listingFeeGate requester amount description, c₁, .error e⟩] (.error e) s

theorem listingFee_runs {cfg : Settings} {req : Request} {ok : Op → Outcome → Prop} {next : Js Unit}
    {s : Store} : Solo exec ok (listingFee cfg req next) s (Fronted ok next s) := by
  unfold listingFee
  rw [solo_call_bind]
  refine ⟨?_, ?_⟩
  swap
  · rintro c e s₁ - hx
    cases (exec_dateNow hx).1
  rintro c₀ now s₁ - hx
  obtain ⟨-, rfl⟩ := exec_dateNow hx
  cases parseCreateTask cfg (createTaskSchema cfg now) req.body with
  | error detail =>
      refine solo_call.mpr fun c r s₂ _ hx => ?_
      obtain ⟨rfl, rfl⟩ := exec_respond hx
      exact .invalid c₀ c _ detail
  | ok b =>
      dsimp only
      cases parseUsdcDecimalToStroops b.reservePrice with
      | error e => exact (solo_throw e).mpr (.unpriced c₀ _ e)
      | ok reservePriceStroops =>
          dsimp only
          rw [solo_call_bind]
          refine ⟨?_, ?_⟩
          · rintro c₁ answer s₂ - hx₁
            obtain rfl := exec_gate hx₁
            cases answer with
            | some response =>
                refine solo_call.mpr fun c r s₃ _ hx => ?_
                obtain ⟨rfl, rfl⟩ := exec_respond hx
                exact .answered c₀ c₁ c _ _ _ _ response
            | none => exact fun rest r s' hruns => .passed c₀ c₁ _ _ _ _ rest r s' hruns
          · rintro c₁ e s₂ - hx₁
            obtain rfl := exec_gate hx₁
            exact .failed c₀ c₁ _ _ _ _ e

/-! ## A request by itself -/

/-- The payment gate stands in front of `signatureAuth`. -/
def Route.gated (cfg : Settings) (route : Route) : Bool := route = .tasks && !cfg.configLocal

/-- What the payment gate replied. -/
def Op.gateReply : (o : Op) → Reply o → Option (Option Response)
  | .listingFeeGate _ _ _, .ok answer => some answer
  | _, _ => none

/-- What the payment gate replied, in the second call of the request. -/
def gateReply (log : Record) : Option (Option Response) :=
  log[1]?.bind fun e => e.op.gateReply e.reply

/-- The request is answered with this status. -/
def Op.isAnswer (status : Nat) : Op → Bool
  | .json response => response.status = status
  | _ => false

/-- The request goes on to its handler, or to the middleware in front of it. -/
def Op.handsOn : Op → Bool
  | .next .signatureAuth => true
  | _ => false

/-- A request to a signed route that was carried out by itself. -/
structure Visit where
  route : Route
  req : Request
  before : Store
  log : Record

namespace Visit

variable (cfg : Settings) (v : Visit)

/-- The request came to `signatureAuth`. -/
def Arrived : Prop := v.route.gated cfg = true → (gateReply v.log).any Option.isNone = true

def AnsweredWith (status : Nat) : Prop := ∃ e ∈ v.log, e.op.isAnswer status = true

def HandedOn : Prop := ∃ e ∈ v.log, e.op.handsOn = true

/-- The request failed authentication. -/
def Failed : Prop :=
  v.Arrived cfg ∧ (v.AnsweredWith 401 ∨ v.AnsweredWith 429) ∧ ¬ v.HandedOn

/-- The request was turned away for the limit. -/
def LockedOut : Prop := v.AnsweredWith 429 ∧ ¬ v.HandedOn

instance : Decidable (v.Arrived cfg) := inferInstanceAs (Decidable (_ → _))

instance (status : Nat) : Decidable (v.AnsweredWith status) :=
  inferInstanceAs (Decidable (∃ e ∈ v.log, _))

instance : Decidable v.HandedOn := inferInstanceAs (Decidable (∃ e ∈ v.log, _))

instance : Decidable (v.Failed cfg) := inferInstanceAs (Decidable (_ ∧ _))

instance : Decidable v.LockedOut := inferInstanceAs (Decidable (_ ∧ _))

/-- When the calls of `signatureAuth` were carried out. -/
def clock (i : Nat) : Nat := timeOf v.log (i + if v.route.gated cfg then 2 else 0)

/-- There is something wrong with the request itself. -/
def Objected : Prop := ∃ options error, v.route.auth cfg = some options ∧
  objection cfg options v.req v.before.redis (v.clock cfg) = .ok (some error)

/-- The payment gate itself answered 429. -/
def GateLimits : Prop := v.route.gated cfg = true ∧
  (gateReply v.log).any (fun answer => answer.any fun response => response.status = 429) = true

/-- **When a request is turned away for the limit**: the payment gate does it, or there is something
wrong with the request itself, a counter is full, and Redis answers. -/
def Refusable : Prop := v.GateLimits cfg ∨
  v.Arrived cfg ∧ RedisAnswers v.log ∧ v.Objected cfg ∧ Full v.before.redis v.req.ip v.req.publicKey

end Visit

theorem silent_of_isRedis {o : Op} (ho : o.isRedis = true) : o.silent = true := by
  cases o <;> first | rfl | cases ho

theorem answers_of_silent {o : Op} (ho : o.silent = true) :
    (∀ status, o.isAnswer status = false) ∧ o.handsOn = false := by
  cases o <;> first | exact ⟨fun _ => rfl, rfl⟩ | cases ho

/-- What is known of a request that was carried out by itself and left the store `s'`. -/
structure Visited (cfg : Settings) (start : Nat) (v : Visit) (s' : Store) : Prop where
  last : CountersLast start s'.redis
  grown : Grown v.before s'
  counted : v.Failed cfg → RedisAnswers v.log →
    CountedOnce "tg:authfail:ip:" v.req.ip v.before s' ∧
    CountedOnce "tg:authfail:pk:" v.req.publicKey v.before s'
  lockedOut_iff : v.LockedOut ↔ v.Refusable cfg

section

variable {cfg : Settings} {start : Nat} {v : Visit} {s' : Store}

/-- A request that leaves the counters alone and is answered neither 401 nor 429. -/
theorem Visited.of_spares (hlast : CountersLast start v.before.redis)
    (hspares : SparesFails v.before s') (hfailed : ¬ (v.AnsweredWith 401 ∧ ¬ v.HandedOn))
    (hlocked : ¬ v.LockedOut) (hrefusable : ¬ v.Refusable cfg) : Visited cfg start v s' := by
  refine ⟨hspares.last hlast, hspares.grown, fun h => absurd h.2 ?_,
    iff_of_false hlocked hrefusable⟩
  rintro ⟨hanswered | hanswered, hnext⟩
  · exact hfailed ⟨hanswered, hnext⟩
  · exact hlocked ⟨hanswered, hnext⟩

/-- A request that was answered once, with nothing else to be seen of it. -/
theorem Visit.answered_once {quiet : Record} {response : Response} {c : Outcome}
    (hlog : v.log = quiet ++ [⟨.json response, c, .ok ()⟩])
    (hquiet : ∀ e ∈ quiet, e.op.silent = true) :
    (∀ status, v.AnsweredWith status ↔ response.status = status) ∧ ¬ v.HandedOn := by
  have hcases {e : Entry Op Reply Outcome} (he : e ∈ v.log) :
      e.op.silent = true ∨ e = ⟨.json response, c, .ok ()⟩ := by
    rw [hlog, List.mem_append, List.mem_singleton] at he
    exact he.imp_left (hquiet e)
  refine ⟨fun status => ⟨?_, fun h => ?_⟩, ?_⟩
  · rintro ⟨e, he, hop⟩
    rcases hcases he with hs | rfl
    · rw [(answers_of_silent hs).1] at hop
      cases hop
    · simpa [Op.isAnswer] using hop
  · exact ⟨⟨.json response, c, .ok ()⟩, by rw [hlog]; simp, by simpa [Op.isAnswer] using h⟩
  · rintro ⟨e, he, hop⟩
    rcases hcases he with hs | rfl
    · rw [(answers_of_silent hs).2] at hop
      cases hop
    · cases hop

/-- What the error handler adds to a request that ended so. -/
def HandledError (r : Except JsError Unit) (tail : Record) : Prop :=
  r = .ok () ∧ tail = [] ∨
    ∃ e c, r = .error e ∧ tail = [⟨.json (internalServerError e), c, .ok ()⟩]

theorem tail_of_ok {tail : Record} (h : HandledError (.ok ()) tail) : tail = [] := by
  rcases h with ⟨-, rfl⟩ | ⟨e, c, hr, -⟩
  · rfl
  · cases hr

theorem tail_of_error {e : JsError} {tail : Record} (h : HandledError (.error e) tail) :
    ∃ c, tail = [⟨.json (internalServerError e), c, .ok ()⟩] := by
  rcases h with ⟨hr, -⟩ | ⟨e', c, hr, htail⟩
  · cases hr
  · cases hr
    exact ⟨c, htail⟩

/-- What the calls around those of `signatureAuth` are. -/
structure Around (cfg : Settings) (v : Visit) (front core tail : Record) (r : Except JsError Unit) :
    Prop where
  log : v.log = front ++ (core ++ tail)
  silent : ∀ e ∈ front, e.op.silent = true
  aside : RedisAnswers front
  offset : front.length = if v.route.gated cfg then 2 else 0
  arrived : v.Arrived cfg
  unlimited : ¬ v.GateLimits cfg
  handled : HandledError r tail

theorem Around.clock {front core tail : Record} {r : Except JsError Unit}
    (h : Around cfg v front core tail r) : v.clock cfg = timeOf (core ++ tail) := by
  funext i
  rw [Visit.clock, ← h.offset, h.log, timeOf, timeOf, List.getElem?_append_right (by omega),
    Nat.add_sub_cancel]

/-- A request that comes to `signatureAuth` is turned away only for its own faults. -/
theorem Around.refusable {front core tail : Record} {r : Except JsError Unit}
    (h : Around cfg v front core tail r) (hr : v.Refusable cfg) : RedisAnswers v.log ∧
      v.Objected cfg ∧ Full v.before.redis v.req.ip v.req.publicKey := by
  rcases hr with hgate | ⟨-, hrest⟩
  · exact absurd hgate h.unlimited
  · exact hrest

theorem Around.visited {front core tail : Record} {r : Except JsError Unit}
    {options : SignatureAuthOptions} (h : Around cfg v front core tail r)
    (hoptions : v.route.auth cfg = some options) (hlast : CountersLast start v.before.redis)
    (hserve : ∀ s, Solo exec (Timely start) (v.route.serve cfg v.req) s fun _ _ s' =>
      SparesFails s s')
    (hcore : Authenticates cfg options v.req (Timely start) (v.route.serve cfg v.req) v.before core
      r s') : Visited cfg start v s' := by
  have unobjected (result : Except JsError (Option String))
      (hjudged : objection cfg options v.req v.before.redis (v.clock cfg) = result)
      (hresult : ∀ error, result ≠ .ok (some error)) : ¬ v.Refusable cfg := by
    intro hr
    obtain ⟨-, ⟨options', error, hoptions', hobjected⟩, -⟩ := h.refusable hr
    rw [hoptions] at hoptions'
    cases hoptions'
    exact hresult error (hjudged.symm.trans hobjected)
  have unanswered (part : Record) (hpart : part ⊆ v.log) (hno : ¬ RedisAnswers part) :
      ¬ v.Refusable cfg := fun hr => hno fun e he => (h.refusable hr).1 e (hpart he)
  cases hcore with
  | through pre rest c s₁ _ _ silent spares judged run =>
      have hnext : v.HandedOn := ⟨⟨.next .signatureAuth, c, .ok ()⟩, by rw [h.log]; simp, rfl⟩
      refine .of_spares hlast (spares.trans (hserve s₁ _ _ _ run)) (fun ⟨_, hno⟩ => hno hnext)
        (fun ⟨_, hno⟩ => hno hnext) (unobjected (.ok none) ?_ (by simp))
      rw [h.clock, List.append_assoc]
      exact judged _
  | refused error pre log s₁ _ _ silent spares answers judged run =>
      have hrefusal := fail_refuses v.req.ip v.req.publicKey error (spares.last hlast) _ _ _ run
      obtain ⟨l, c, response, rfl, hl, hstatus⟩ := hrefusal.answered
      have hreturned := hrefusal.returned
      subst hreturned
      obtain rfl := tail_of_ok h.handled
      have hlog : v.log = (front ++ (pre ++ l)) ++ [⟨.json response, c, .ok ()⟩] := by
        rw [h.log]
        simp
      have hquiet : ∀ e ∈ front ++ (pre ++ l), e.op.silent = true := by
        simp only [List.mem_append]
        rintro e (he | he | he)
        · exact h.silent e he
        · exact silent e he
        · exact silent_of_isRedis (hl e he)
      obtain ⟨hanswered, hnext⟩ := Visit.answered_once hlog hquiet
      have hredis : RedisAnswers v.log ↔ RedisAnswers l := by
        rw [hlog, redisAnswers_append, redisAnswers_append, redisAnswers_append]
        have hjson : RedisAnswers [⟨.json response, c, .ok ()⟩] := by simp [RedisAnswers, Op.isRedis]
        simp [h.aside, answers, hjson]
      have hobjected : v.Objected cfg := by
        refine ⟨options, error, hoptions, ?_⟩
        rw [h.clock, List.append_assoc]
        exact judged _
      have hfull := spares.full v.req.ip v.req.publicKey
      refine ⟨hrefusal.last, spares.grown.trans hrefusal.grown, fun _ hredis' => ?_, ?_⟩
      · obtain ⟨hip, hpk⟩ := hrefusal.counted (by
          rw [hlog, List.append_assoc, List.append_assoc] at hredis'
          exact (redisAnswers_append.mp (redisAnswers_append.mp hredis').2).2)
        exact ⟨spares.countedOnce (by decide) hip, spares.countedOnce (by decide) hpk⟩
      · constructor
        · rintro ⟨h429, -⟩
          rw [hanswered] at h429
          rcases hstatus with ⟨-, hl, hf⟩ | ⟨h401, -⟩
          · exact .inr ⟨h.arrived, hredis.mpr hl, hobjected, hfull.mp hf⟩
          · rw [h401] at h429
            cases h429
        · intro hr
          obtain ⟨hl, -, hf⟩ := h.refusable hr
          rcases hstatus with ⟨h429, -⟩ | ⟨-, hno⟩
          · exact ⟨(hanswered 429).mpr h429, hnext⟩
          · exact absurd ⟨hredis.mp hl, hfull.mpr hf⟩ hno
  | down pre c _ silent spares answers =>
      obtain rfl := tail_of_ok h.handled
      have hlog : v.log = (front ++ pre) ++
          [⟨.json (errorResponse 503 "nonce store unavailable"), c, .ok ()⟩] := by
        rw [h.log]
        simp
      obtain ⟨hanswered, -⟩ := Visit.answered_once hlog
        (fun e he => (List.mem_append.mp he).elim (h.silent e) (silent e))
      refine .of_spares hlast spares (fun ⟨h401, _⟩ => ?_) (fun ⟨h429, _⟩ => ?_)
        (unanswered pre (fun e he => by rw [hlog]; simp [he]) answers)
      · exact absurd ((hanswered 401).mp h401) (by simp [errorResponse])
      · exact absurd ((hanswered 429).mp h429) (by simp [errorResponse])
  | thrown _ e _ silent spares why =>
      obtain ⟨c, rfl⟩ := tail_of_error h.handled
      have hlog : v.log = (front ++ core) ++ [⟨.json (internalServerError e), c, .ok ()⟩] := by
        rw [h.log, List.append_assoc]
      obtain ⟨hanswered, -⟩ := Visit.answered_once hlog
        (fun e he => (List.mem_append.mp he).elim (h.silent e) (silent e))
      refine .of_spares hlast spares (fun ⟨h401, _⟩ => ?_) (fun ⟨h429, _⟩ => ?_) ?_
      · exact absurd ((hanswered 401).mp h401) (by simp [internalServerError, failureResponse])
      · exact absurd ((hanswered 429).mp h429) (by simp [internalServerError, failureResponse])
      · rcases why with hno | hthrows
        · exact unanswered core (fun e he => by rw [hlog]; simp [he]) hno
        · obtain ⟨e', hjudged⟩ := hthrows [⟨.json (internalServerError e), c, .ok ()⟩]
          exact unobjected _ (h.clock ▸ hjudged) (by simp)

/-- A request that the payment gate did not let pass. -/
theorem visited_of_stopped (hlast : CountersLast start v.before.redis)
    (hgated : v.route.gated cfg = true) (quiet : Record) {response : Response} {c : Outcome}
    (hlog : v.log = quiet ++ [⟨.json response, c, .ok ()⟩])
    (hquiet : ∀ e ∈ quiet, e.op.silent = true) {reply : Option (Option Response)}
    (hreply : gateReply v.log = reply) (hclosed : reply.any Option.isNone = false)
    (hgate : response.status = 429 ↔
      reply.any (fun answer => answer.any fun response => response.status = 429) = true) :
    Visited cfg start v v.before := by
  subst hreply
  obtain ⟨hanswered, hnext⟩ := Visit.answered_once hlog hquiet
  have hstopped : ¬ v.Arrived cfg := by
    intro h
    rw [h hgated] at hclosed
    cases hclosed
  refine ⟨hlast, fun _ _ => Nat.le_refl _, fun h => absurd h.1 hstopped, ?_⟩
  constructor
  · exact fun h => .inl ⟨hgated, hgate.mp ((hanswered 429).mp h.1)⟩
  · rintro (⟨-, hlimits⟩ | ⟨harrived, -⟩)
    · exact ⟨(hanswered 429).mpr (hgate.mpr hlimits), hnext⟩
    · exact absurd harrived hstopped

/-- What follows `signatureAuth` leaves the counters alone. -/
theorem serve_spares (cfg : Settings) (route : Route) (req : Request) (start : Nat) (s : Store) :
    Solo exec (Timely start) (route.serve cfg req) s fun _ _ s' => SparesFails s s' := by
  have hredis : Only (fun o => o.isRedis = false) (route.serve cfg req) := by
    refine only_serve ((serves_handler cfg req route).mono fun o ho => ?_) (fun _ => rfl) rfl
      (fun _ => rfl) fun _ => rfl
    cases o <;> first | rfl | cases ho
  refine hredis.solo SparesFails .refl (fun _ _ _ h h' => h.trans h') ?_
  intro o c s r s₁ ho _ hx key _
  rw [(exec_frame hx).redis]
  all_goals
    intros
    rintro rfl
    cases ho

/-- What the error handler adds. -/
theorem errorHandler_adds {ok : Op → Outcome → Prop} {r : Except JsError Unit} {s : Store}
    {Q : Record → Except JsError Unit → Store → Prop}
    (h : ∀ tail : Record, HandledError r tail → Q tail (.ok ()) s) :
    Solo exec ok (errorHandler r) s Q := by
  cases r with
  | ok u => exact (solo_pure ()).mpr (h [] (.inl ⟨rfl, rfl⟩))
  | error e =>
      refine solo_call.mpr fun c r s' _ hx => ?_
      obtain ⟨rfl, rfl⟩ := exec_respond hx
      exact h _ (.inr ⟨e, c, rfl, rfl⟩)

/-- **One request by itself.** -/
theorem visit_visited {options : SignatureAuthOptions} (hoptions : v.route.auth cfg = some options)
    (hlast : CountersLast start v.before.redis) {r : Except JsError Unit}
    (hruns : Runs exec (Timely start) (v.route.run cfg v.req).run v.before v.log r s') :
    Visited cfg start v s' := by
  suffices Solo exec (Timely start) (v.route.run cfg v.req) v.before fun log _ s' =>
      v.log = log → Visited cfg start v s' from this _ _ _ hruns rfl
  have hadmin : v.route.admin = false := by
    revert hoptions
    cases v.route <;> simp [Route.auth, Route.admin]
  have hauthorized : v.route.authorized cfg v.req =
      signatureAuth cfg options v.req (v.route.serve cfg v.req) := by
    rw [Route.authorized, hoptions]
  have hserve := serve_spares cfg v.route v.req start
  unfold Route.run
  rw [solo_bind, solo_attempt]
  simp only [hadmin, Bool.false_eq_true, if_false]
  split_ifs with htasks
  swap
  · have hungated : v.route.gated cfg = false := by
      unfold Route.gated
      by_contra h
      exact htasks (by simpa using h)
    rw [hauthorized]
    intro core r s₁ hcore
    refine errorHandler_adds fun tail htail hlog => ?_
    have haround : Around cfg v [] core tail r := by
      refine ⟨hlog, by simp, by simp [RedisAnswers], by simp [hungated], fun h => ?_, fun h => ?_, htail⟩
      · exact absurd (hungated.symm.trans h) (by simp)
      · exact absurd (hungated.symm.trans h.1) (by simp)
    exact haround.visited hoptions hlast hserve (signatureAuth_runs core r s₁ hcore)
  have hgated : v.route.gated cfg = true := by simpa [Route.gated] using htasks
  rw [hauthorized]
  intro front r s₁ hfront
  have hruns := listingFee_runs front r s₁ hfront
  refine errorHandler_adds fun tail htail hlog => ?_
  cases hruns with
  | passed c₀ c₁ now requester amount description core r s₁ hcore =>
      have hreply : gateReply v.log = some none := by rw [hlog]; rfl
      have haround : Around cfg v [⟨.market .dateNow, c₀, now⟩,
          ⟨.listingFeeGate requester amount description, c₁, .ok none⟩] core tail r := by
        refine ⟨hlog, by simp [Op.silent], by simp [RedisAnswers, Op.isRedis], by simp [hgated],
          fun _ => by rw [hreply]; rfl, fun h => ?_, htail⟩
        have hlimits := h.2
        rw [hreply] at hlimits
        cases hlimits
      exact haround.visited hoptions hlast hserve (signatureAuth_runs core r s₁ hcore)
  | answered c₀ c₁ c₂ now requester amount description response =>
      obtain rfl := tail_of_ok htail
      rw [List.append_nil] at hlog
      have hreply : gateReply v.log = some (some response) := by rw [hlog]; rfl
      exact visited_of_stopped hlast hgated [⟨.market .dateNow, c₀, now⟩,
        ⟨.listingFeeGate requester amount description, c₁, .ok (some response)⟩] hlog
        (by simp [Op.silent]) hreply rfl (by simp)
  | invalid c₀ c₁ now detail =>
      obtain rfl := tail_of_ok htail
      rw [List.append_nil] at hlog
      have hreply : gateReply v.log = none := by rw [hlog]; rfl
      exact visited_of_stopped hlast hgated [⟨.market .dateNow, c₀, now⟩] hlog (by simp [Op.silent])
        hreply rfl (by simp [invalidRequest])
  | unpriced c₀ now e =>
      obtain ⟨c, rfl⟩ := tail_of_error htail
      have hreply : gateReply v.log = none := by rw [hlog]; rfl
      exact visited_of_stopped hlast hgated [⟨.market .dateNow, c₀, now⟩] hlog (by simp [Op.silent])
        hreply rfl (by simp [internalServerError, failureResponse])
  | failed c₀ c₁ now requester amount description e =>
      obtain ⟨c, rfl⟩ := tail_of_error htail
      have hreply : gateReply v.log = none := by rw [hlog]; rfl
      exact visited_of_stopped hlast hgated [⟨.market .dateNow, c₀, now⟩,
        ⟨.listingFeeGate requester amount description, c₁, .error e⟩] hlog (by simp [Op.silent])
        hreply rfl (by simp [internalServerError, failureResponse])

end

end TrustGate.Api
