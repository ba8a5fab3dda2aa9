import TrustGate.Api.Calls
import TrustGate.Market.Identity

set_option autoImplicit false

/-! # What an operation leaves and answers

Which part of the store an operation of the API can change, and what the nonce store answers. -/

namespace TrustGate.Api

open Market Resumption

section

variable {o : Op} {c : Outcome} {m m' : Store} {r : Reply o}

/-- A call is refused, or it is carried out and its answer arrives or is lost. -/
theorem exec_cases (hx : exec o c m = some (r, m')) :
    (∃ e, c.fault = .refused e ∧ r = .error e ∧ m' = m) ∨
    ∃ r₀, perform c m o = some (r₀, m') ∧
      (c.fault = .none ∧ r = r₀ ∨ ∃ e, c.fault = .lost e ∧ r = .error e) := by
  unfold exec at hx
  cases hf : c.fault with
  | none =>
      rw [hf] at hx
      exact .inr ⟨r, hx, .inl ⟨rfl, rfl⟩⟩
  | refused e =>
      rw [hf] at hx
      dsimp only at hx
      split_ifs at hx
      cases hx
      exact .inl ⟨e, rfl, rfl, rfl⟩
  | lost e =>
      rw [hf] at hx
      dsimp only at hx
      split_ifs at hx
      obtain ⟨⟨r₀, s⟩, hp, heq⟩ := Option.map_eq_some_iff.mp hx
      cases heq
      exact .inr ⟨r₀, hp, .inr ⟨e, rfl, rfl⟩⟩

/-- What an operation leaves alone. -/
structure Frame (o : Op) (m m' : Store) : Prop where
  market : (∀ o', o ≠ .market o') → m'.market = m.market
  records : (∀ record, o ≠ .insertRecord record) → m'.records = m.records
  executors : (∀ record, o ≠ .saveExecutor record) → m'.executors = m.executors
  redis : (∀ key, o ≠ .getDel key) → (∀ key value seconds, o ≠ .setNx key value seconds) →
    (∀ key, o ≠ .incr key) → (∀ key seconds, o ≠ .expire key seconds) → m'.redis = m.redis

theorem Frame.refl : Frame o m m := ⟨fun _ => rfl, fun _ => rfl, fun _ => rfl, fun _ _ _ _ => rfl⟩

theorem perform_frame {r : Reply o} (hp : perform c m o = some (r, m')) : Frame o m m' := by
  cases o with
  | market o =>
      obtain ⟨rs, -, heq⟩ := Option.map_eq_some_iff.mp hp
      cases heq
      constructor <;> simp
  | insertRecord record =>
      simp only [perform, Store.insertRecord, Option.some.injEq] at hp
      split_ifs at hp
      · cases hp
        exact Frame.refl
      · cases hp
        constructor <;> simp
  | _ =>
      cases hp
      constructor <;> simp [Store.saveExecutor]

theorem exec_frame (hx : exec o c m = some (r, m')) : Frame o m m' := by
  rcases exec_cases hx with ⟨e, -, -, rfl⟩ | ⟨r₀, hp, -⟩
  · exact Frame.refl
  · exact perform_frame hp

/-- A key that the operation does not name keeps its value. -/
theorem exec_unnamed (hx : exec o c m = some (r, m')) {key : String} (hget : o ≠ .getDel key)
    (hset : ∀ value seconds, o ≠ .setNx key value seconds) (hincr : o ≠ .incr key)
    (hexpire : ∀ seconds, o ≠ .expire key seconds) : m'.redis key = m.redis key := by
  rcases exec_cases hx with ⟨e, -, -, rfl⟩ | ⟨r₀, hp, -⟩
  · rfl
  cases o with
  | getDel k =>
      cases hp
      exact Redis.put_ne _ _ fun h => hget (h ▸ rfl)
  | setNx k value seconds =>
      cases hp
      show (m.redis.setNx c.now k value seconds).2 key = _
      unfold Redis.setNx
      split
      · rfl
      · exact Redis.put_ne _ _ fun h => hset value seconds (h ▸ rfl)
  | incr k =>
      cases hp
      have hne : key ≠ k := fun h => hincr (h ▸ rfl)
      show (m.redis.incr c.now k).2 key = _
      unfold Redis.incr
      split
      · exact Redis.put_ne _ _ hne
      · split
        · rfl
        · exact Redis.put_ne _ _ hne
  | expire k seconds =>
      cases hp
      exact Redis.put_ne _ _ fun h => hexpire seconds (h ▸ rfl)
  | _ => exact congrFun ((perform_frame hp).redis nofun nofun nofun nofun) key

/-- What a call does to a key that is no counter: nothing, unless it is about this key. -/
theorem exec_key (hx : exec o c m = some (r, m')) (hcount : o.countsOnly = true) {key : String}
    (hkey : isCounterKey key = false) :
    m'.redis key = m.redis key ∨ (o = .getDel key ∧ m'.redis key = none) ∨
      ∃ value seconds, o = .setNx key value seconds ∧ m.redis.find c.now key = none ∧
        m'.redis key = some ⟨value, some (c.now + 1000 * seconds)⟩ := by
  have hne {k : String} (hk : isCounterKey k = true) : k ≠ key := by
    rintro rfl
    rw [hk] at hkey
    cases hkey
  have hincr : o ≠ .incr key := by
    rintro rfl
    exact hne hcount rfl
  have hexpire (seconds : Nat) : o ≠ .expire key seconds := by
    rintro rfl
    exact hne hcount rfl
  by_cases hget : o = .getDel key
  · subst hget
    rcases exec_cases hx with ⟨e, -, -, rfl⟩ | ⟨r₀, hp, -⟩
    · exact .inl rfl
    · cases hp
      exact .inr (.inl ⟨rfl, Redis.put_self _ _ _⟩)
  by_cases hset : ∃ value seconds, o = .setNx key value seconds
  swap
  · rw [not_exists] at hset
    exact .inl (exec_unnamed hx hget (fun value seconds h => hset value ⟨seconds, h⟩) hincr hexpire)
  obtain ⟨value, seconds, rfl⟩ := hset
  rcases exec_cases hx with ⟨e, -, -, rfl⟩ | ⟨r₀, hp, -⟩
  · exact .inl rfl
  cases hp
  show (m.redis.setNx c.now key value seconds).2 key = _ ∨ _
  unfold Redis.setNx
  cases hfind : m.redis.find c.now key with
  | some v => exact .inl rfl
  | none => exact .inr (.inr ⟨value, seconds, rfl, rfl, Redis.put_self _ _ _⟩)

end

section

variable {c : Outcome} {m m' : Store} {key : String}

/-- After `GETDEL` the key is gone. -/
theorem exec_getDel {stored : Option String}
    (hx : exec (.getDel key) c m = some (.ok stored, m')) :
    (m.redis.find c.now key).map RedisValue.text = stored ∧ m'.redis key = none := by
  rcases exec_cases hx with ⟨e, -, he, -⟩ | ⟨r₀, hp, ⟨-, rfl⟩ | ⟨e, -, he⟩⟩
  · cases he
  · simp only [perform, Redis.getDel, Option.some.injEq, Prod.mk.injEq, Except.ok.injEq] at hp
    obtain ⟨hv, rfl⟩ := hp
    exact ⟨hv, Redis.put_self _ _ _⟩
  · cases he

/-- A value that `GETDEL` returned was there. -/
theorem exec_getDel_some {text : String}
    (hx : exec (.getDel key) c m = some (.ok (some text), m')) :
    ∃ v, m.redis key = some v ∧ v.text = text := by
  obtain ⟨v, hv, rfl⟩ := Option.map_eq_some_iff.mp (exec_getDel hx).1
  exact ⟨v, Redis.eq_of_find hv, rfl⟩

/-- `SET NX` answers `OK` exactly where it finds nothing. -/
theorem exec_setNx {value : String} {seconds : Nat} {set : Bool}
    (hx : exec (.setNx key value seconds) c m = some (.ok set, m')) :
    set = (m.redis.find c.now key).isNone ∧
      (set = true → m'.redis key = some ⟨value, some (c.now + 1000 * seconds)⟩) := by
  rcases exec_cases hx with ⟨e, -, he, -⟩ | ⟨r₀, hp, ⟨-, rfl⟩ | ⟨e, -, he⟩⟩
  · cases he
  · simp only [perform, Redis.setNx, Option.some.injEq, Prod.mk.injEq, Except.ok.injEq] at hp
    obtain ⟨rfl, rfl⟩ := hp
    cases hfind : m.redis.find c.now key with
    | some v => exact ⟨rfl, by simp⟩
    | none => exact ⟨rfl, fun _ => Redis.put_self _ _ _⟩
  · cases he

/-- `INCR` is refused, or starts the counter, or raises it. -/
theorem exec_incr {r : Reply (.incr key)} (hx : exec (.incr key) c m = some (r, m')) :
    (m'.redis = m.redis ∧ (∃ e, r = .error e) ∧
      ((∃ e, c.fault = .refused e) ∨ m.redis.find c.now key ≠ none)) ∨
    (m.redis.find c.now key = none ∧ m'.redis = m.redis.put key (some ⟨"1", none⟩) ∧
      (r = .ok 1 ∨ ∃ e, c.fault = .lost e ∧ r = .error e)) ∨
    ∃ v n, m.redis.find c.now key = some v ∧ decimal v.text = some n ∧
      m'.redis = m.redis.put key (some { v with text := toString (n + 1) }) ∧
      (r = .ok (n + 1) ∨ ∃ e, r = .error e) := by
  rcases exec_cases hx with ⟨e, hf, rfl, rfl⟩ | ⟨r₀, hp, hr⟩
  · exact .inl ⟨rfl, ⟨e, rfl⟩, .inl ⟨e, hf⟩⟩
  simp only [perform, Redis.incr, Option.some.injEq, Prod.mk.injEq] at hp
  cases hfind : m.redis.find c.now key with
  | none =>
      rw [hfind] at hp
      obtain ⟨rfl, rfl⟩ := hp
      exact .inr (.inl ⟨rfl, rfl, hr.imp_left And.right⟩)
  | some v =>
      rw [hfind] at hp
      cases hn : decimal v.text with
      | none =>
          simp only [hn] at hp
          obtain ⟨rfl, rfl⟩ := hp
          refine .inl ⟨rfl, ?_, .inr (Option.some_ne_none v)⟩
          rcases hr with ⟨-, rfl⟩ | ⟨e, -, rfl⟩
          · exact ⟨_, rfl⟩
          · exact ⟨e, rfl⟩
      | some n =>
          simp only [hn] at hp
          obtain ⟨rfl, rfl⟩ := hp
          refine .inr (.inr ⟨v, n, rfl, hn, rfl, ?_⟩)
          rcases hr with ⟨-, rfl⟩ | ⟨e, -, rfl⟩
          · exact .inl rfl
          · exact .inr ⟨e, rfl⟩

/-- `EXPIRE` is refused, or gives the key its time. -/
theorem exec_expire {seconds : Nat} {r : Reply (.expire key seconds)}
    (hx : exec (.expire key seconds) c m = some (r, m')) :
    ((∃ e, c.fault = .refused e) ∧ m' = m) ∨
      ((∀ e, c.fault ≠ .refused e) ∧ m'.redis = m.redis.expire c.now key seconds) := by
  rcases exec_cases hx with ⟨e, hf, -, rfl⟩ | ⟨r₀, hp, hr⟩
  · exact .inl ⟨⟨e, hf⟩, rfl⟩
  · cases hp
    refine .inr ⟨?_, rfl⟩
    rintro e' hf
    rcases hr with ⟨hnone, -⟩ | ⟨e, hlost, -⟩
    · rw [hf] at hnone
      cases hnone
    · rw [hf] at hlost
      cases hlost

/-- A UUID is handed out once. -/
theorem exec_randomUUID {id : String}
    (hx : exec (.market .randomUUID) c m = some (.ok id, m')) :
    id ∉ m.market.issued ∧ id ∈ m'.market.issued := by
  rw [exec_market] at hx
  obtain ⟨⟨r, s⟩, hm, heq⟩ := Option.map_eq_some_iff.mp hx
  cases heq
  have hp := exec_ok hm
  simp only [Market.perform] at hp
  split_ifs at hp with hfresh
  cases hp
  exact ⟨hfresh, List.mem_cons_self⟩

theorem exec_issued {o : Op} {r : Reply o} (hx : exec o c m = some (r, m')) {id : String}
    (hid : id ∈ m.market.issued) : id ∈ m'.market.issued := by
  by_cases ho : ∃ o', o = .market o'
  · obtain ⟨o', rfl⟩ := ho
    rw [exec_market] at hx
    obtain ⟨⟨r', s⟩, hm, heq⟩ := Option.map_eq_some_iff.mp hx
    cases heq
    exact Identified.issued_exec hm hid
  · rw [(exec_frame hx).market fun o' heq => ho ⟨o', heq⟩]
    exact hid

end

end TrustGate.Api
