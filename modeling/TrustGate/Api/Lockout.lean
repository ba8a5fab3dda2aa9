import TrustGate.Api.Limits

set_option autoImplicit false

/-! # A minute of failed signatures

Requests to signed routes that are carried out one after the other within a minute. Once a key or an
address is over the limit its counter is full; `signatureAuth` then turns away what it would refuse
anyway, and lets the rest through. -/

namespace TrustGate.Api

open Market Resumption

/-! ## Requests one after the other -/

/-- The requests, newest first, are carried out one after the other from the store `m` to the store
`s`, within the minute that begins at `start`. -/
def Sequence (cfg : Settings) (start : Nat) (m : Store) : List Visit → Store → Prop
  | [], s => s = m
  | v :: earlier, s => (v.route.auth cfg).isSome = true ∧ Sequence cfg start m earlier v.before ∧
      ∃ r, Runs exec (Timely start) (v.route.run cfg v.req).run v.before v.log r s

/-- More than ten earlier requests with this key, or thirty from this address, failed. -/
def OverLimit (cfg : Settings) (earlier : List Visit) (v : Visit) : Prop :=
  v.req.publicKey ≠ "" ∧
      10 < earlier.countP (fun u => u.req.publicKey = v.req.publicKey ∧ u.Failed cfg) ∨
    v.req.ip ≠ "" ∧ 30 < earlier.countP (fun u => u.req.ip = v.req.ip ∧ u.Failed cfg)

instance (cfg : Settings) (earlier : List Visit) (v : Visit) : Decidable (OverLimit cfg earlier v) :=
  inferInstanceAs (Decidable (_ ∨ _))

section

variable {cfg : Settings} {start : Nat} {m : Store}

theorem Sequence.last (hlast : CountersLast start m.redis) {vs : List Visit} {s : Store}
    (h : Sequence cfg start m vs s) : CountersLast start s.redis := by
  induction vs generalizing s with
  | nil =>
      subst h
      exact hlast
  | cons v earlier ih =>
      obtain ⟨hsigned, hearlier, r, hruns⟩ := h
      obtain ⟨options, hoptions⟩ := Option.isSome_iff_exists.mp hsigned
      exact (visit_visited hoptions (ih hearlier) hruns).last

/-- A request of the sequence comes after a sequence of its own. -/
theorem Sequence.at {vs : List Visit} {s : Store} (h : Sequence cfg start m vs s) {v : Visit}
    {earlier : List Visit} (hv : v :: earlier <:+ vs) :
    ∃ s', Sequence cfg start m (v :: earlier) s' := by
  induction vs generalizing s with
  | nil => cases List.suffix_nil.mp hv
  | cons u us ih =>
      rcases List.suffix_cons_iff.mp hv with heq | hv
      · exact ⟨s, heq ▸ h⟩
      · obtain ⟨-, hearlier, -⟩ := h
        exact ih hearlier hv

/-- What is known of a request of the sequence. -/
theorem Sequence.visited (hlast : CountersLast start m.redis) {v : Visit} {earlier : List Visit}
    {s : Store} (h : Sequence cfg start m (v :: earlier) s) : Visited cfg start v s := by
  obtain ⟨hsigned, hearlier, r, hruns⟩ := h
  obtain ⟨options, hoptions⟩ := Option.isSome_iff_exists.mp hsigned
  exact visit_visited hoptions (hearlier.last hlast) hruns

/-- While Redis answers, every failure with a name has been counted for it. -/
theorem Sequence.counts (kind : String) {name : String} (hkind : isFailKey kind = true) (hname : name ≠ "")
    (named : Visit → String) (hlast : CountersLast start m.redis)
    (hcounted : ∀ v s, Visited cfg start v s → v.Failed cfg → RedisAnswers v.log →
      CountedOnce kind (named v) v.before s) {vs : List Visit} {s : Store}
    (h : Sequence cfg start m vs s) (hanswers : ∀ v ∈ vs, RedisAnswers v.log) :
    vs.countP (fun u => named u = name ∧ u.Failed cfg) ≤ countOf s.redis (kind ++ name) := by
  induction vs generalizing s with
  | nil => exact Nat.zero_le _
  | cons v earlier ih =>
      have hvisited := h.visited hlast
      obtain ⟨-, hearlier, -⟩ := h
      have hbefore := ih hearlier fun u hu => hanswers u (List.mem_cons_of_mem v hu)
      have hgrown := hvisited.grown (kind ++ name) (isFailKey_append hkind name)
      rw [List.countP_cons]
      split_ifs with hcount
      · obtain ⟨rfl, hfailed⟩ := of_decide_eq_true hcount
        have honce := hcounted v s hvisited hfailed (hanswers v List.mem_cons_self) hname
        omega
      · omega

/-- Over the limit, the counter is full. -/
theorem Sequence.full (hlast : CountersLast start m.redis) {v : Visit} {earlier : List Visit}
    {s : Store} (h : Sequence cfg start m (v :: earlier) s)
    (hanswers : ∀ u ∈ earlier, RedisAnswers u.log) (hover : OverLimit cfg earlier v) :
    Full v.before.redis v.req.ip v.req.publicKey := by
  obtain ⟨-, hearlier, -⟩ := h
  rcases hover with ⟨hname, hover⟩ | ⟨hname, hover⟩
  · have hcount := hearlier.counts "tg:authfail:pk:" (by decide) hname
      (fun u => u.req.publicKey) hlast (fun _ _ hu hfailed hredis => (hu.counted hfailed hredis).2)
      hanswers
    exact .inr ⟨hname, by omega⟩
  · have hcount := hearlier.counts "tg:authfail:ip:" (by decide) hname
      (fun u => u.req.ip) hlast (fun _ _ hu hfailed hredis => (hu.counted hfailed hredis).1)
      hanswers
    exact .inl ⟨hname, by omega⟩

end

/-- **When the keys and addresses over the limit are locked out**: exactly if each of their further
requests is one that is turned away by itself. While Redis answers, that is each request to which
the payment gate answers 429, or that comes to `signatureAuth` with something wrong with it. -/
theorem lockedOut_iff (cfg : Settings) (start : Nat) (m : Store)
    (hlast : CountersLast start m.redis) (vs : List Visit) (s : Store)
    (hvs : Sequence cfg start m vs s) :
    ((∀ v earlier, v :: earlier <:+ vs → OverLimit cfg earlier v → v.LockedOut) ↔
      ∀ v earlier, v :: earlier <:+ vs → OverLimit cfg earlier v → v.Refusable cfg) ∧
    ((∀ v ∈ vs, RedisAnswers v.log) → ∀ v earlier, v :: earlier <:+ vs → OverLimit cfg earlier v →
      (v.LockedOut ↔ v.GateLimits cfg ∨ v.Arrived cfg ∧ v.Objected cfg)) := by
  have hvisited {v : Visit} {earlier : List Visit} (hv : v :: earlier <:+ vs) :
      v.LockedOut ↔ v.Refusable cfg := by
    obtain ⟨s', hs'⟩ := hvs.at hv
    exact (hs'.visited hlast).lockedOut_iff
  refine ⟨⟨?_, ?_⟩, ?_⟩
  · exact fun h v earlier hv hover => (hvisited hv).mp (h v earlier hv hover)
  · exact fun h v earlier hv hover => (hvisited hv).mpr (h v earlier hv hover)
  · intro hanswers v earlier hv hover
    obtain ⟨s', hs'⟩ := hvs.at hv
    have hmem {u : Visit} (hu : u ∈ v :: earlier) : RedisAnswers u.log :=
      hanswers u (hv.subset hu)
    have hfull := hs'.full hlast (fun u hu => hmem (List.mem_cons_of_mem v hu)) hover
    rw [hvisited hv, Visit.Refusable]
    refine or_congr Iff.rfl ⟨?_, ?_⟩
    · exact fun ⟨harrived, _, hobjected, _⟩ => ⟨harrived, hobjected⟩
    · exact fun ⟨harrived, hobjected⟩ => ⟨harrived, hmem List.mem_cons_self, hobjected, hfull⟩

/-! ## Twelve requests -/

/-- Carry the requests out one after the other, each with its outcomes; the newest stands first. -/
def visitAll (cfg : Settings) : List (Route × Request × List Outcome) → Store →
    Option (List Visit × Store)
  | [], m => some ([], m)
  | (route, req, cs) :: earlier, m =>
    (visitAll cfg earlier m).bind fun (vs, s) =>
      (Resumption.replay exec cs (route.run cfg req).run s).map fun (log, _, s') =>
        (⟨route, req, s, log⟩ :: vs, s')

theorem sequence_of_visitAll {cfg : Settings} {start : Nat} {m : Store}
    {xs : List (Route × Request × List Outcome)} {vs : List Visit} {s : Store}
    (h : visitAll cfg xs m = some (vs, s))
    (hsigned : ∀ x ∈ xs, (x.1.auth cfg).isSome = true)
    (htimely : ∀ x ∈ xs, ∀ c ∈ x.2.2, start ≤ c.now ∧ c.now ≤ start + 60000) :
    Sequence cfg start m vs s := by
  induction xs generalizing vs s with
  | nil =>
      cases h
      rfl
  | cons x earlier ih =>
      obtain ⟨route, req, cs⟩ := x
      obtain ⟨⟨us, s₁⟩, hearlier, hx⟩ := Option.bind_eq_some_iff.mp h
      obtain ⟨⟨log, r, s'⟩, hreplay, heq⟩ := Option.map_eq_some_iff.mp hx
      cases heq
      refine ⟨hsigned _ List.mem_cons_self, ih hearlier ?_ ?_, r, runs_of_replay hreplay ?_⟩
      · exact fun x hx => hsigned x (List.mem_cons_of_mem _ hx)
      · exact fun x hx => htimely x (List.mem_cons_of_mem _ hx)
      · exact fun e he => htimely _ List.mem_cons_self _ (mem_of_replay hreplay e he)

/-- A request with no more than a key. -/
def keyRequest : Request := { smokeRequest with headers := [("x-tg-public-key", smokeKey)] }

def atFive (n : Nat) : List Outcome := List.replicate n { now := 5, text := "n" }

/-- Eleven requests with no more than a key; the first one sets the expiry of the counter. -/
def elevenFailures : List (Route × Request × List Outcome) :=
  List.replicate 10 (.signedSmoke, keyRequest, atFive 3) ++ [(.signedSmoke, keyRequest, atFive 4)]

/-- Eleven failures, and then this request, carried out with these outcomes. -/
def afterEleven (req : Request) (cs : List Outcome) : List Visit × Store :=
  (visitAll clientNonceSettings ((.signedSmoke, req, cs) :: elevenFailures) emptyStore).getD
    ([], emptyStore)

theorem afterEleven_sequence {req : Request} {cs : List Outcome}
    (hall : (visitAll clientNonceSettings ((.signedSmoke, req, cs) :: elevenFailures)
      emptyStore).isSome = true) (htimely : ∀ c ∈ cs, 5 ≤ c.now ∧ c.now ≤ 5 + 60000) :
    Sequence clientNonceSettings 5 emptyStore (afterEleven req cs).1 (afterEleven req cs).2 := by
  obtain ⟨⟨vs, s⟩, hvs⟩ := Option.isSome_iff_exists.mp hall
  have hpair : afterEleven req cs = (vs, s) := by rw [afterEleven, hvs, Option.getD_some]
  rw [hpair]
  refine sequence_of_visitAll hvs ?_ ?_
  · rintro x (_ | ⟨_, hx⟩)
    · rfl
    · revert x
      decide
  · rintro x (_ | ⟨_, hx⟩)
    · exact htimely
    · revert x
      decide

/-- The newest request was made over the limit, and `p` is true of it. -/
def newestOver (p : Visit → Bool) : List Visit → Bool
  | v :: earlier => OverLimit clientNonceSettings earlier v && p v
  | [] => false

theorem exists_of_newestOver {p : Visit → Bool} {vs : List Visit} (h : newestOver p vs = true) :
    ∃ v earlier, vs = v :: earlier ∧ OverLimit clientNonceSettings earlier v ∧ p v = true := by
  cases vs with
  | nil => cases h
  | cons v earlier =>
      obtain ⟨hover, hp⟩ := (Bool.and_eq_true _ _).mp h
      exact ⟨v, earlier, rfl, of_decide_eq_true hover, hp⟩

theorem emptyStore_last (start : Nat) : CountersLast start emptyStore.redis :=
  fun _ _ _ hv => (nomatch hv)

/-- Twelve failures: the last one is turned away for the limit. -/
theorem twelfth_failure_lockedOut : ∃ v ∈ (afterEleven keyRequest (atFive 3)).1, v.LockedOut := by
  have hover : newestOver (fun v => v.route = .signedSmoke ∧ v.req.nonce = "")
      (afterEleven keyRequest (atFive 3)).1 = true := by decide +kernel
  have hanswers : ∀ v ∈ (afterEleven keyRequest (atFive 3)).1, RedisAnswers v.log := by
    unfold RedisAnswers
    decide +kernel
  obtain ⟨v, earlier, hvs, hover, hv⟩ := exists_of_newestOver hover
  obtain ⟨hroute, hnonce⟩ := of_decide_eq_true hv
  have harrived : v.Arrived clientNonceSettings := by
    intro hgated
    rw [Route.gated, hroute] at hgated
    cases hgated
  have hobjected : v.Objected clientNonceSettings := by
    refine ⟨{ enforceInLocal := true, matchBodyField := some "publicKey" },
      "missing signature headers", ?_, ?_⟩
    · rw [hroute]
      rfl
    · rw [objection, if_neg (by decide), if_pos (.inr (.inr (.inl hnonce)))]
      rfl
  have hlockedOut := (lockedOut_iff clientNonceSettings 5 emptyStore (emptyStore_last 5) _ _
    (afterEleven_sequence (by decide +kernel) (by decide))).2 hanswers v earlier
    (hvs ▸ List.suffix_refl _) hover
  exact ⟨v, by rw [hvs]; exact List.mem_cons_self, hlockedOut.mpr (.inr ⟨harrived, hobjected⟩)⟩

/-- Eleven failures with a key do not keep out a request with that key that is signed as it should
be. -/
theorem signed_not_lockedOut :
    ¬ ∀ (cfg : Settings) (start : Nat) (m : Store) (vs : List Visit) (s : Store),
      CountersLast start m.redis → Sequence cfg start m vs s → ∀ v earlier, v :: earlier <:+ vs →
      OverLimit cfg earlier v → v.LockedOut := by
  intro h
  have hover : newestOver (fun v => decide v.HandedOn) (afterEleven smokeRequest (atFive 6)).1 =
      true := by decide +kernel
  obtain ⟨v, earlier, hvs, hover, hv⟩ := exists_of_newestOver hover
  have hsequence : Sequence clientNonceSettings 5 emptyStore (afterEleven smokeRequest (atFive 6)).1
      (afterEleven smokeRequest (atFive 6)).2 := afterEleven_sequence (by decide +kernel) (by decide)
  have hlockedOut := h clientNonceSettings 5 emptyStore _ _ (emptyStore_last 5) hsequence v earlier
    (hvs ▸ List.suffix_refl _) hover
  exact hlockedOut.2 (of_decide_eq_true hv)

end TrustGate.Api
