import TrustGate.Lib.StableSort
import TrustGate.Market.Attempts
import TrustGate.Market.Requested

set_option autoImplicit false

/-! # Dead-lettered events and retries

A due-retry pass lists the 25 rows that have been due for longest and asks `tryStart` about each.
Rows whose attempts are used up stay `FAILED` and due for good, and are listed like any other: a row
with attempts left is retried if fewer than 25 due rows come before it. -/

namespace TrustGate.Market

open Resumption StableSort

/-! ## Due rows -/

/-- The failed rows of a handler whose retry is due. -/
def dueRows (m : Store) (handlerName : String) (now : Nat) : List EventConsumptionRecord :=
  m.consumptions.filter fun r =>
    r.handlerName = handlerName && r.status = .failed && r.nextRetryAt.all fun at_ => at_ ≤ now

/-- `coalesce(next_retry_at, updated_at)`. -/
def dueSince (r : EventConsumptionRecord) : Nat := r.nextRetryAt.getD r.updatedAt

/-- Some failed row of the handler is due and has attempts left. -/
def HasLiveRetry (m : Store) (handlerName : String) (maxAttempts now : Nat) : Prop :=
  ∃ r ∈ dueRows m handlerName now, r.attempts < maxAttempts

instance (m : Store) (handlerName : String) (maxAttempts now : Nat) :
    Decidable (HasLiveRetry m handlerName maxAttempts now) :=
  inferInstanceAs (Decidable (∃ r ∈ dueRows m handlerName now, _))

/-- A due row with attempts left has fewer than `limit` due rows before it, which have been due for
longer, or as long with an earlier place in the table. -/
def LiveInReach (m : Store) (handlerName : String) (limit maxAttempts now : Nat) : Prop :=
  ∃ before r behind, dueRows m handlerName now = before ++ r :: behind ∧ r.attempts < maxAttempts ∧
    before.countP (fun b => dueSince b ≤ dueSince r) +
      behind.countP (fun b => dueSince b < dueSince r) < limit

/-- The query is a `tryStart` that has started a due row with attempts left. -/
def startsLive (m : Store) (handlerName : String) (maxAttempts now : Nat) (q : Query) : Bool :=
  (dueRows m handlerName now).any fun r => r.attempts < maxAttempts &&
    flight q.done = some (some (r.handlerName, r.eventId))

theorem mem_listDueRetries {m : Store} {handlerName : String} {limit now : Nat}
    {r : EventConsumptionRecord} : r ∈ m.listDueRetries handlerName limit now ↔
      ∃ before behind, dueRows m handlerName now = before ++ r :: behind ∧
        before.countP (fun b => dueSince b ≤ dueSince r) +
          behind.countP (fun b => dueSince b < dueSince r) < limit :=
  mem_take_sorted dueSince

theorem liveInReach_iff {m : Store} {handlerName : String} {limit maxAttempts now : Nat} :
    LiveInReach m handlerName limit maxAttempts now ↔
      ∃ r ∈ m.listDueRetries handlerName limit now, r.attempts < maxAttempts := by
  constructor
  · rintro ⟨before, r, behind, hsplit, hlive, hlt⟩
    exact ⟨r, mem_listDueRetries.mpr ⟨before, behind, hsplit, hlt⟩, hlive⟩
  · rintro ⟨r, hr, hlive⟩
    obtain ⟨before, behind, hsplit, hlt⟩ := mem_listDueRetries.mp hr
    exact ⟨before, r, behind, hsplit, hlive, hlt⟩

theorem mem_dueRows_of_listed {m : Store} {handlerName : String} {limit now : Nat}
    {r : EventConsumptionRecord} (hr : r ∈ m.listDueRetries handlerName limit now) :
    r ∈ dueRows m handlerName now := by
  obtain ⟨before, behind, hsplit, -⟩ := mem_listDueRetries.mp hr
  rw [hsplit]
  simp

/-- Where the primary key holds, a row is found under its key. -/
theorem Store.row_of_mem {m : Store} (unique : m.RowsUnique) {r : EventConsumptionRecord}
    (hr : r ∈ m.consumptions) : m.row (r.handlerName, r.eventId) = some r := by
  cases hrow : m.row (r.handlerName, r.eventId) with
  | none =>
      have := Store.row_eq_none.mp hrow
      exact absurd (List.mem_map_of_mem hr) this
  | some r' =>
      have hmem : r' ∈ m.consumptions := List.mem_of_find?_eq_some hrow
      have hkey : r'.handlerName = r.handlerName ∧ r'.eventId = r.eventId := by
        simpa [EventConsumptionRecord.isFor] using List.find?_some hrow
      rw [List.inj_on_of_nodup_map unique hmem hr (Prod.ext hkey.1 hkey.2)]

/-! ## A pass by itself -/

/-- Nothing fails, and the clock goes on. -/
structure Undisturbed (cs : List Outcome) : Prop where
  calm : ∀ c ∈ cs, c.fault = .none
  clock : cs.Pairwise fun c c' => c.now ≤ c'.now

instance (cs : List Outcome) : Decidable (Undisturbed cs) :=
  decidable_of_iff ((∀ c ∈ cs, c.fault = .none) ∧ cs.Pairwise fun c c' => c.now ≤ c'.now)
    ⟨fun h => ⟨h.1, h.2⟩, fun h => ⟨h.calm, h.clock⟩⟩

/-- A query stays on record. -/
theorem alone_keeps {q : Query} (cs : List Outcome) : ∀ (p : Prog Op Reply Unit) (m : Store)
    (l : List Query), q ∈ l → q ∈ (alone cs p m l).1 := by
  induction cs with
  | nil => exact fun _ _ _ hq => hq
  | cons c cs ih =>
      intro p m l hq
      cases p with
      | ret a => exact hq
      | await o k =>
          unfold alone
          cases exec o c m with
          | none => exact ih _ m l hq
          | some rm => exact ih _ rm.2 _ (List.mem_cons_of_mem _ hq)

/-- What a pass over `r :: rs` does first: it asks for `r`, and goes on if that is refused. -/
theorem retry_cons (cfg : Settings) (r : EventConsumptionRecord) (rs : List EventConsumptionRecord) :
    ∃ k, toEnd (forEach (retryRecord cfg) (r :: rs)) =
        .await (.tryStart ⟨r.handlerName, r.eventId, none, cfg.maxAttempts⟩) k ∧
      ∀ s : Started, s.started = false → k (.ok s) = toEnd (forEach (retryRecord cfg) rs) := by
  refine ⟨_, rfl, fun s hs => ?_⟩
  obtain ⟨started, record⟩ := s
  cases hs
  rfl

section

variable {cfg : Settings} {m : Store} {handlerName : String}

/-- A `tryStart` about a listed row. -/
theorem exec_retry (unique : m.RowsUnique) {r : EventConsumptionRecord} (hr : r ∈ m.consumptions)
    (N : Nat) {c : Outcome} (calm : c.fault = .none) :
    (Store.refuses c.now N r = true ∧
      exec (.tryStart ⟨r.handlerName, r.eventId, none, N⟩) c m = some (.ok ⟨false, r⟩, m)) ∨
    (Store.refuses c.now N r = false ∧ ∃ s m', s.started = true ∧
      exec (.tryStart ⟨r.handlerName, r.eventId, none, N⟩) c m = some (.ok s, m')) := by
  have hrow := Store.row_of_mem unique hr
  let args : StartArgs := ⟨r.handlerName, r.eventId, none, N⟩
  have hexec : exec (.tryStart args) c m =
      some (.ok (m.tryStart args c.now).1, (m.tryStart args c.now).2) := by
    unfold exec
    rw [calm]
    rfl
  rcases m.tryStart_cases args c.now with ⟨hnone, -⟩ | ⟨r', hr', href, heq⟩ | ⟨r', hr', href, heq⟩
  · cases hnone.symm.trans hrow
  · cases hr'.symm.trans hrow
    exact .inl ⟨href, by rw [hexec, heq]⟩
  · cases hr'.symm.trans hrow
    exact .inr ⟨href, _, _, rfl, by rw [hexec, heq]⟩

/-- **Exhausted rows are skipped.** A pass that begins with such rows comes to the rest of its list
with the table as it was. -/
theorem pass_skips (unique : m.RowsUnique) (rest : List EventConsumptionRecord)
    (exhausted : List EventConsumptionRecord) : ∀ (cs : List Outcome) (l : List Query),
      (∀ c ∈ cs, c.fault = .none) →
      (∀ r ∈ exhausted, r ∈ m.consumptions ∧ cfg.maxAttempts ≤ r.attempts) →
      crashed (alone cs (toEnd (forEach (retryRecord cfg) (exhausted ++ rest))) m l).2 = false →
      ∃ cs' l', cs' <:+ cs ∧ (∀ q ∈ l', q ∈ l ∨ flight q.done = none) ∧
        alone cs (toEnd (forEach (retryRecord cfg) (exhausted ++ rest))) m l =
          alone cs' (toEnd (forEach (retryRecord cfg) rest)) m l' := by
  induction exhausted with
  | nil => exact fun cs l _ _ _ => ⟨cs, l, List.suffix_rfl, fun _ hq => .inl hq, rfl⟩
  | cons r exhausted ih =>
      intro cs l calm hrows hends
      obtain ⟨k, hp, hk⟩ := retry_cons cfg r (exhausted ++ rest)
      rw [List.cons_append, hp] at hends ⊢
      cases cs with
      | nil => cases hends
      | cons c cs =>
          obtain ⟨hmem, hmax⟩ := hrows r List.mem_cons_self
          -- `tryStart` refuses a row whose attempts are used up, and the loop goes on
          rcases exec_retry unique hmem cfg.maxAttempts (calm c List.mem_cons_self) with
            ⟨-, hx⟩ | ⟨hdue, -⟩
          · simp only [alone, hx] at hends ⊢
            rw [hk _ rfl] at hends ⊢
            obtain ⟨cs', l', hsuffix, hl', heq⟩ := ih cs _
              (fun c hc => calm c (List.mem_cons_of_mem _ hc))
              (fun r hr => hrows r (List.mem_cons_of_mem _ hr)) hends
            refine ⟨cs', l', hsuffix.trans (List.suffix_cons _ _), fun q hq => ?_, heq⟩
            rcases hl' q hq with hq | hq
            · rcases List.mem_cons.mp hq with rfl | hq
              · exact .inr rfl
              · exact .inl hq
            · exact .inr hq
          · simp [Store.refuses, hmax] at hdue

/-- A pass over rows that are all exhausted starts nothing. -/
theorem pass_over_exhausted (unique : m.RowsUnique) {due : List EventConsumptionRecord}
    {cs : List Outcome} {l : List Query} (calm : ∀ c ∈ cs, c.fault = .none)
    (hrows : ∀ r ∈ due, r ∈ m.consumptions ∧ cfg.maxAttempts ≤ r.attempts)
    (hends : crashed (alone cs (toEnd (forEach (retryRecord cfg) due)) m l).2 = false) :
    ∀ q ∈ (alone cs (toEnd (forEach (retryRecord cfg) due)) m l).1, q ∈ l ∨ flight q.done = none := by
  rw [← List.append_nil due] at hends ⊢
  obtain ⟨cs', l', -, hl', heq⟩ := pass_skips unique [] due cs l calm hrows hends
  rw [heq]
  have hdone : alone cs' (toEnd (forEach (retryRecord cfg) [])) m l' = (l', .ret ()) := by
    cases cs' <;> rfl
  rw [hdone]
  exact hl'

/-- A pass that comes to a row that is due and has attempts left starts it. -/
theorem pass_starts (unique : m.RowsUnique) {exhausted rest : List EventConsumptionRecord}
    {r : EventConsumptionRecord} {now : Nat} {cs : List Outcome} {l : List Query}
    (calm : ∀ c ∈ cs, c.fault = .none) (clock : ∀ c ∈ cs, now ≤ c.now)
    (hrows : ∀ r ∈ exhausted, r ∈ m.consumptions ∧ cfg.maxAttempts ≤ r.attempts)
    (hdue : r ∈ dueRows m handlerName now) (hlive : r.attempts < cfg.maxAttempts)
    (hends : crashed
      (alone cs (toEnd (forEach (retryRecord cfg) (exhausted ++ r :: rest))) m l).2 = false) :
    ∃ q ∈ (alone cs (toEnd (forEach (retryRecord cfg) (exhausted ++ r :: rest))) m l).1,
      startsLive m handlerName cfg.maxAttempts now q = true := by
  obtain ⟨cs', l', hsuffix, -, heq⟩ := pass_skips unique (r :: rest) exhausted cs l calm hrows hends
  rw [heq] at hends ⊢
  obtain ⟨k, hp, -⟩ := retry_cons cfg r rest
  rw [hp] at hends ⊢
  cases cs' with
  | nil => cases hends
  | cons c cs' =>
      have hc : c ∈ cs := hsuffix.subset List.mem_cons_self
      obtain ⟨hmem, hfailed⟩ := List.mem_filter.mp hdue
      simp only [Bool.and_eq_true, decide_eq_true_eq] at hfailed
      rcases exec_retry unique hmem cfg.maxAttempts (calm c hc) with ⟨hrefuses, -⟩ | ⟨-, s, m', hs, hx⟩
      · -- the row has failed, has attempts left, and was due at `now` already
        simp only [Store.refuses, hfailed.1.2, Bool.or_eq_true, decide_eq_true_eq] at hrefuses
        rcases hrefuses with (hstatus | hmax) | hlater
        · cases hstatus
        · omega
        · cases hnext : r.nextRetryAt with
          | none =>
              rw [hnext] at hlater
              cases hlater
          | some at_ =>
              have hnow := clock c hc
              simp only [hnext, Option.any_some, Option.all_some, decide_eq_true_eq] at hlater hfailed
              omega
      · simp only [alone, hx]
        refine ⟨_, alone_keeps cs' _ _ _ List.mem_cons_self, ?_⟩
        refine List.any_eq_true.mpr ⟨r, hdue, ?_⟩
        simp [hlive, flight, hs]

end

/-- The pass starts a due row with attempts left, if there is one. -/
def SparesLive (m : Store) (handlerName : String) (maxAttempts now : Nat) (l : List Query) : Prop :=
  HasLiveRetry m handlerName maxAttempts now →
    ∃ q ∈ l, startsLive m handlerName maxAttempts now q = true

/-- **When dead-lettered events do not starve retries.** A due-retry pass that nothing disturbs starts
a due row with attempts left, if there is one, exactly if one of those has fewer than 25 due rows
before it. -/
theorem live_retry_started (cfg : Settings) (handlerName : String) (m : Store)
    (unique : m.RowsUnique) (c : Outcome) (cs : List Outcome) (undisturbed : Undisturbed (c :: cs))
    (ends : crashed (alone (c :: cs) (toEnd (retryDue cfg handlerName)) m []).2 = false) :
    SparesLive m handlerName cfg.maxAttempts c.now
        (alone (c :: cs) (toEnd (retryDue cfg handlerName)) m []).1 ↔
      (HasLiveRetry m handlerName cfg.maxAttempts c.now →
        LiveInReach m handlerName 25 cfg.maxAttempts c.now) := by
  let due := m.listDueRetries handlerName 25 c.now
  let first : Query := ⟨⟨.listDueRetries handlerName 25, .ok due⟩, true⟩
  have hfirst : alone (c :: cs) (toEnd (retryDue cfg handlerName)) m [] =
      alone cs (toEnd (forEach (retryRecord cfg) due)) m [first] := by
    have hx : exec (.listDueRetries handlerName 25) c m = some (.ok due, m) := by
      unfold exec
      rw [undisturbed.calm c List.mem_cons_self]
      rfl
    have hp : ∃ k, toEnd (retryDue cfg handlerName) = .await (.listDueRetries handlerName 25) k ∧
        k (.ok due) = toEnd (forEach (retryRecord cfg) due) := ⟨_, rfl, rfl⟩
    obtain ⟨k, hp, hk⟩ := hp
    have happlies : c.fault.applies = true := by
      rw [undisturbed.calm c List.mem_cons_self]
      rfl
    rw [hp]
    simp only [alone, hx, hk, happlies]
    rfl
  rw [hfirst] at ends ⊢
  have calm : ∀ c ∈ cs, c.fault = .none := fun c' hc => undisturbed.calm c' (List.mem_cons_of_mem _ hc)
  have clock : ∀ c' ∈ cs, c.now ≤ c'.now := (List.pairwise_cons.mp undisturbed.clock).1
  refine forall_congr' fun _ => ⟨fun hstarted => ?_, fun hreach => ?_⟩
  · -- otherwise all listed rows are exhausted
    rw [liveInReach_iff]
    by_contra hnone
    obtain ⟨q, hq, hlive⟩ := hstarted
    have hflight := pass_over_exhausted unique calm (fun r hr =>
      ⟨List.mem_of_mem_filter (mem_dueRows_of_listed hr),
        Nat.le_of_not_lt fun hlt => hnone ⟨r, hr, hlt⟩⟩) ends q hq
    obtain ⟨r, -, hr⟩ := List.any_eq_true.mp hlive
    simp only [Bool.and_eq_true, decide_eq_true_eq] at hr
    rcases hflight with hq | hidle
    · rw [List.mem_singleton.mp hq] at hr
      cases hr.2
    · cases hidle.symm.trans hr.2
  · obtain ⟨r, hr, hlive⟩ := liveInReach_iff.mp hreach
    -- the first one of the list with attempts left
    obtain ⟨r, hfind⟩ : ∃ r, due.find? (fun r => r.attempts < cfg.maxAttempts) = some r := by
      rw [← Option.isSome_iff_exists, List.find?_isSome]
      exact ⟨r, hr, by simpa using hlive⟩
    obtain ⟨hlive, exhausted, rest, hsplit, hexhausted⟩ := List.find?_eq_some_iff_append.mp hfind
    have hmem : ∀ r ∈ due, r ∈ dueRows m handlerName c.now := fun r hr => mem_dueRows_of_listed hr
    rw [hsplit] at ends hmem ⊢
    refine pass_starts unique calm clock (fun b hb => ⟨?_, ?_⟩)
      (hmem r (List.mem_append_right _ List.mem_cons_self)) (by simpa using hlive) ends
    · exact List.mem_of_mem_filter (hmem b (List.mem_append_left _ hb))
    · simpa using hexhausted b hb

instance (m : Store) (handlerName : String) (maxAttempts now : Nat) (l : List Query) :
    Decidable (SparesLive m handlerName maxAttempts now l) :=
  inferInstanceAs (Decidable (_ → _))

/-- A failed row of the webhook handler, due since `due`. -/
def failedRow (eventId : String) (attempts due : Nat) : EventConsumptionRecord where
  handlerName := "event:result_published"
  eventId := eventId
  streamEntryId := none
  status := .failed
  attempts := attempts
  lastError := some "timeout"
  nextRetryAt := some due
  createdAt := 0
  updatedAt := 0

/-- `dead` events have used up their ten attempts at the time 0, one has failed once. -/
def deadLetters (dead : Nat) : Store :=
  { emptyStore with
    consumptions := (List.range dead).map (fun n => failedRow ("dead" ++ toString n) 10 0) ++
      [failedRow "v" 1 5] }

/-- A pass at the time 10. -/
def passOver (dead n : Nat) : List Query × Prog Op Reply Unit :=
  alone (List.replicate n { now := 10 }) (toEnd (retryDue {} "event:result_published"))
    (deadLetters dead) []

theorem two_dead_letters_pass :
    SparesLive (deadLetters 2) "event:result_published" 10 10 (passOver 2 8).1 :=
  (live_retry_started {} "event:result_published" (deadLetters 2) (by decide +kernel) { now := 10 }
    (List.replicate 7 { now := 10 }) (by decide +kernel) (by decide +kernel)).mpr
    fun _ => ⟨[failedRow "dead0" 10 0, failedRow "dead1" 10 0], failedRow "v" 1 5, [],
      by decide +kernel, by decide, by decide +kernel⟩

/-- Behind 25 dead letters, the live event is never listed. -/
theorem dead_letters_starve_retry :
    (deadLetters 25).RowsUnique ∧ crashed (passOver 25 27).2 = false ∧
      ¬ SparesLive (deadLetters 25) "event:result_published" 10 10 (passOver 25 27).1 := by
  decide +kernel

end TrustGate.Market
