import TrustGate.Api.Records
import TrustGate.Api.Replays

set_option autoImplicit false

/-! # One handling for each idempotency key

The look-up of a key, the handler and the insertion of the record are separate steps, so that two
requests with one key can both find it free. Where a request finds the key free only when nobody
else is at work on it or has been answered under it, the handler answers below 500 once, and the
middleware gives all these requests the same answer. -/

namespace TrustGate.Api

open Market Resumption

/-! ## Requests with one key -/

/-- A request with the key, to a route whose middleware has the scope. -/
def Job.carries (scope key : String) : Job → Bool
  | .request cfg route req =>
      (route.idempotent cfg).any (fun options => options.scope = scope) &&
        req.idempotencyKey = key && key ≠ ""
  | _ => false

/-- The operation's idempotency key, where it looks one up. -/
def Op.lookup : Op → Option String
  | .findRecord key => some key
  | _ => none

def answerOf (pid : Nat) : Call Op Reply → Option Response
  | ⟨p, .json response, _⟩ => if p = pid then some response else none
  | _ => none

/-- What the process has answered. -/
def answers (t : Trace Op Reply) (pid : Nat) : List Response := t.filterMap (answerOf pid)

def findsFree (key : String) (pid : Nat) : Call Op Reply → Bool
  | ⟨p, .findRecord k, .ok none⟩ => p = pid && k = key
  | _ => false

/-- The process has looked the key up and found nothing. -/
def FoundFree (t : Trace Op Reply) (key : String) (pid : Nat) : Prop :=
  t.any (findsFree key pid) = true

section

variable (c : Config Op Reply Job Store) (scope key : String)

def Carries (pid : Nat) : Prop := (c.jobOf pid).any (Job.carries scope key) = true

/-- The process has failed with a 5xx, or it will never answer. -/
def Spent (pid : Nat) : Prop :=
  (∃ response ∈ answers c.trace pid, 500 ≤ response.status) ∨
    ((c.pending pid).isNone = true ∧ (answers c.trace pid).isEmpty = true)

/-- What a run must heed: a request finds the key free only when every other that has found it
free is spent. -/
def Alone : Act Job Outcome → Prop
  | .run pid _ => (c.pending pid).bind Op.lookup = some key → Carries c scope key pid →
      (c.state.findRecord key).isNone = true → ∀ pid' < c.procs.length, pid' ≠ pid →
        Carries c scope key pid' → FoundFree c.trace key pid' → Spent c pid'
  | _ => True

/-- The handler was entered, and its answer was below 500. -/
structure Handled (pid : Nat) (response : Response) : Prop where
  entered : ∃ r, ⟨pid, .next .idempotency, r⟩ ∈ c.trace
  answered : response ∈ answers c.trace pid
  status : response.status < 500

/-- Neither 409 nor 5xx. -/
def Conclusive (response : Response) : Prop := response.status ≠ 409 ∧ response.status < 500

/-- The handler runs to an answer below 500 at most once. -/
def HandledOnce : Prop :=
  ∀ pid pid' response response', Carries c scope key pid → Carries c scope key pid' →
    Handled c pid response → Handled c pid' response' → pid = pid'

/-- The requests get the same answer, apart from those that get a 409 or a 5xx. -/
def SameAnswer : Prop :=
  ∀ pid pid', Carries c scope key pid → Carries c scope key pid' →
    ∀ response ∈ answers c.trace pid, ∀ response' ∈ answers c.trace pid',
    Conclusive response → Conclusive response' → response = response'

/-- No request is turned away before it comes to the middleware, other than with 409 or 5xx. -/
def AllReach : Prop :=
  ∀ pid, Carries c scope key pid → ∀ response ∈ answers c.trace pid, Conclusive response →
    ∃ r, ⟨pid, .findRecord key, r⟩ ∈ c.trace

end

instance (t : Trace Op Reply) (key : String) (pid : Nat) : Decidable (FoundFree t key pid) :=
  inferInstanceAs (Decidable (_ = true))

section

variable (c : Config Op Reply Job Store) (scope key : String)

instance (pid : Nat) : Decidable (Carries c scope key pid) :=
  inferInstanceAs (Decidable (_ = true))

instance (pid : Nat) : Decidable (Spent c pid) := inferInstanceAs (Decidable (_ ∨ _))

instance : DecidablePred (Alone c scope key)
  | .spawn _ => .isTrue trivial
  | .crash _ => .isTrue trivial
  | .run pid _ => inferInstanceAs (Decidable ((c.pending pid).bind Op.lookup = some key →
      Carries c scope key pid → (c.state.findRecord key).isNone = true →
      ∀ pid' < c.procs.length, pid' ≠ pid → Carries c scope key pid' →
        FoundFree c.trace key pid' → Spent c pid'))

end

/-! ## What the trace says -/

theorem mem_answers {t : Trace Op Reply} {pid : Nat} {response : Response} :
    response ∈ answers t pid ↔ ∃ r, ⟨pid, .json response, r⟩ ∈ t := by
  unfold answers
  rw [List.mem_filterMap]
  constructor
  · rintro ⟨call, hcall, heq⟩
    unfold answerOf at heq
    split at heq
    · split_ifs at heq with hp
      cases heq
      subst hp
      exact ⟨_, hcall⟩
    · cases heq
  · rintro ⟨r, hmem⟩
    exact ⟨_, hmem, if_pos rfl⟩

theorem answers_cons_ne {t : Trace Op Reply} {pid : Nat} {call : Call Op Reply}
    (hne : call.pid ≠ pid) : answers (call :: t) pid = answers t pid := by
  unfold answers
  rw [List.filterMap_cons_none]
  unfold answerOf
  split
  · exact if_neg hne
  · rfl

theorem foundFree_iff {t : Trace Op Reply} {key : String} {pid : Nat} :
    FoundFree t key pid ↔ ⟨pid, .findRecord key, .ok none⟩ ∈ t := by
  unfold FoundFree
  rw [List.any_eq_true]
  constructor
  · rintro ⟨call, hcall, hfree⟩
    unfold findsFree at hfree
    split at hfree
    · simp only [Bool.and_eq_true, decide_eq_true_eq] at hfree
      obtain ⟨rfl, rfl⟩ := hfree
      exact hcall
    · cases hfree
  · exact fun hmem => ⟨_, hmem, by simp [findsFree]⟩

section

variable {c : Config Op Reply Job Store} {scope key : String} {pid : Nat}

/-- Who carries the key. -/
theorem Carries.job (h : Carries c scope key pid) :
    ∃ cfg route req, c.jobOf pid = some (.request cfg route req) ∧ req.idempotencyKey = key ∧
      ∀ options ∈ route.idempotent cfg, options.scope = scope := by
  obtain ⟨j, hj, hcarries⟩ := (Option.any_eq_true _ _).mp h
  cases j with
  | issueNonce cfg req => cases hcarries
  | service job => cases hcarries
  | request cfg route req =>
      simp only [Job.carries, Bool.and_eq_true, decide_eq_true_eq] at hcarries
      obtain ⟨⟨hscope, hkey⟩, -⟩ := hcarries
      refine ⟨cfg, route, req, hj, hkey, fun options hmw => ?_⟩
      rw [Option.mem_def] at hmw
      rw [hmw] at hscope
      simpa using hscope

theorem carries_of_job {cfg : Settings} {route : Route} {req : Request}
    {options : IdempotencyOptions} (hjob : c.jobOf pid = some (.request cfg route req))
    (hmw : options ∈ route.idempotent cfg) (hscope : options.scope = scope)
    (hkey : req.idempotencyKey = key) (hne : key ≠ "") : Carries c scope key pid := by
  unfold Carries
  rw [hjob, Option.any_some, Job.carries, hmw]
  simp [hscope, hkey, hne]

end

/-! ## One request at a time -/

/-- What holds in a run that heeds the guard. -/
structure Served (scope key : String) (c : Config Op Reply Job Store) : Prop where
  filed : Filed c.jobOf c.state c.trace
  single : ∀ pid pid', Carries c scope key pid → Carries c scope key pid' →
    FoundFree c.trace key pid → FoundFree c.trace key pid' → ¬ Spent c pid → ¬ Spent c pid' →
      pid = pid'

section

variable {c : Config Op Reply Job Store} {scope key : String} {a : Act Job Outcome}

/-- Who is spent stays so. -/
theorem Spent.step {pid : Nat} {j : Job} (h : Spent c pid)
    (he : Explained (.any : Regime Op Reply Job Outcome Store) Job.Answers Job.Ends c)
    (hj : c.jobOf pid = some j) : Spent (step api c a) pid := by
  obtain ⟨-, ⟨-, ht⟩ | ⟨pid₁, j₁, o, out, r, s', rfl, hpending, -, -, -, -, ht⟩⟩ :=
    he.act_cases (Q := Job.Ends) body_answers a
  · rcases h with hfailed | ⟨hidle, hnone⟩
    · exact .inl (by rw [ht]; exact hfailed)
    · refine .inr ⟨?_, by rw [ht]; exact hnone⟩
      rw [pending_step hj (Option.isNone_iff_eq_none.mp hidle) a]
      rfl
  · rcases h with ⟨response, hmem, hstatus⟩ | ⟨hidle, hnone⟩
    · refine .inl ⟨response, ?_, hstatus⟩
      obtain ⟨r', hold⟩ := mem_answers.mp hmem
      rw [ht]
      exact mem_answers.mpr ⟨r', List.mem_cons_of_mem _ hold⟩
    · have hidle' := Option.isNone_iff_eq_none.mp hidle
      have hne : pid₁ ≠ pid := by
        rintro rfl
        rw [hpending] at hidle'
        cases hidle'
      refine .inr ⟨?_, ?_⟩
      · rw [pending_step hj hidle' _]
        rfl
      · rw [ht, answers_cons_ne hne]
        exact hnone

theorem Carries.of_step {pid : Nat} {j : Job} (h : Carries (step api c a) scope key pid)
    (hj : c.jobOf pid = some j) : Carries c scope key pid := by
  unfold Carries at h ⊢
  rwa [jobOf_step hj a, ← hj] at h

/-- By the guard, who finds the key free finds the others spent. -/
theorem Alone.others_spent {pid pid' : Nat} {out : Outcome} {s' : Store}
    (hG : Alone c scope key (.run pid out)) (hpending : c.pending pid = some (.findRecord key))
    (hx : exec (.findRecord key) out c.state = some (.ok none, s'))
    (hcarries : Carries c scope key pid) (hne : pid' ≠ pid) (hlt : pid' < c.procs.length)
    (hcarries' : Carries c scope key pid') (hfree' : FoundFree c.trace key pid') :
    Spent c pid' := by
  refine hG ?_ hcarries ?_ pid' hlt hne hcarries' hfree'
  · rw [hpending]
    rfl
  · rw [← exec_findRecord hx]
    rfl

theorem Served.step (h : Served scope key c)
    (he : Explained (.any : Regime Op Reply Job Outcome Store) Job.Answers Job.Ends c)
    (hG : Alone c scope key a) : Served scope key (step api c a) := by
  obtain ⟨-, hcases⟩ := he.act_cases (Q := Job.Ends) body_answers a
  -- what is said of a process that had found the key free before the act
  have hbefore {pid : Nat} (hfree : ⟨pid, .findRecord key, .ok none⟩ ∈ c.trace)
      (hcarries : Carries (Resumption.step api c a) scope key pid) :
      pid < c.procs.length ∧ Carries c scope key pid ∧
        (Spent c pid → Spent (Resumption.step api c a) pid) := by
    obtain ⟨j, hj⟩ : ∃ j, c.jobOf pid = some j := by
      obtain ⟨j, -, hj, -⟩ := h.filed.explained.of_mem hfree
      exact ⟨j, hj⟩
    exact ⟨he.started _ hfree, hcarries.of_step hj, fun hspent => hspent.step he hj⟩
  rcases hcases with ⟨hs, ht⟩ | ⟨pid, j, o, out, r, s', rfl, hpending, hj, hc, hx, hs, ht⟩
  · refine ⟨?_, ?_⟩
    · rw [hs, ht]
      exact h.filed.mono fun pid j hj => jobOf_step hj a
    · rw [ht]
      intro pid pid' hcarries hcarries' hfree hfree' hspent hspent'
      obtain ⟨-, hc, hs⟩ := hbefore (foundFree_iff.mp hfree) hcarries
      obtain ⟨-, hc', hs'⟩ := hbefore (foundFree_iff.mp hfree') hcarries'
      exact h.single pid pid' hc hc' hfree hfree' (mt hs hspent) (mt hs' hspent')
  refine ⟨?_, ?_⟩
  · rw [hs, ht]
    exact (h.filed.mono fun pid j hj => jobOf_step hj _).call (jobOf_step hj _) hc hx
  rw [ht]
  intro pid₁ pid₂ hcarries₁ hcarries₂ hfree₁ hfree₂ hspent₁ hspent₂
  by_cases hsame : pid₁ = pid₂
  · exact hsame
  exfalso
  rcases List.mem_cons.mp (foundFree_iff.mp hfree₁) with heq₁ | hold₁ <;>
    rcases List.mem_cons.mp (foundFree_iff.mp hfree₂) with heq₂ | hold₂
  · cases heq₁; cases heq₂
    exact hsame rfl
  · cases heq₁
    obtain ⟨hlt, hc₂, hs₂⟩ := hbefore hold₂ hcarries₂
    exact hspent₂ (hs₂ (hG.others_spent hpending hx (hcarries₁.of_step hj) (Ne.symm hsame) hlt hc₂
      (foundFree_iff.mpr hold₂)))
  · cases heq₂
    obtain ⟨hlt, hc₁, hs₁⟩ := hbefore hold₁ hcarries₁
    exact hspent₁ (hs₁ (hG.others_spent hpending hx (hcarries₂.of_step hj) hsame hlt hc₁
      (foundFree_iff.mpr hold₁)))
  · obtain ⟨-, hc₁, hs₁⟩ := hbefore hold₁ hcarries₁
    obtain ⟨-, hc₂, hs₂⟩ := hbefore hold₂ hcarries₂
    exact hsame (h.single pid₁ pid₂ hc₁ hc₂ (foundFree_iff.mpr hold₁) (foundFree_iff.mpr hold₂)
      (mt hs₁ hspent₁) (mt hs₂ hspent₂))

end

/-! ## Who answers -/

section

variable {c : Config Op Reply Job Store} {scope key : String}

/-- A process that answered below 500 is not spent. -/
theorem Filed.not_spent (h : Filed c.jobOf c.state c.trace) {pid : Nat} {response : Response}
    (hcarries : Carries c scope key pid) (hmem : response ∈ answers c.trace pid)
    (hstatus : response.status < 500) : ¬ Spent c pid := by
  rintro (⟨response', hmem', hstatus'⟩ | ⟨-, hnone⟩)
  · obtain ⟨cfg, route, req, hjob, -⟩ := hcarries.job
    obtain ⟨r, hcall⟩ := mem_answers.mp hmem
    obtain ⟨r', hcall'⟩ := mem_answers.mp hmem'
    have heq := h.answered_once hjob hcall hcall'
    subst heq
    omega
  · rw [List.isEmpty_iff] at hnone
    rw [hnone] at hmem
    cases hmem

/-- The answer stems from a handler that found the key free. -/
structure Source (c : Config Op Reply Job Store) (scope key : String) (pid : Nat)
    (response : Response) : Prop where
  carries : Carries c scope key pid
  free : FoundFree c.trace key pid
  answered : response ∈ answers c.trace pid
  status : response.status < 500

theorem Filed.source_of_record (h : Filed c.jobOf c.state c.trace) {record : IdempotencyRecord}
    (hinserted : Inserted c.trace record) :
    ∃ pid, Source c record.scope record.key pid ⟨record.responseCode, record.responseBody⟩ := by
  obtain ⟨pid, r, hmem⟩ := hinserted
  obtain ⟨cfg, route, req, response, options, hmw, past, l, hjob, rfl, hstatus, hne, -,
    hsuffix⟩ := h.inserter hmem
  refine ⟨pid, carries_of_job hjob hmw rfl rfl hne, ?_, ?_, hstatus⟩
  · exact foundFree_iff.mpr (mem_of_past hsuffix (mem_entered l))
  · exact mem_answers.mpr ⟨_, mem_own.mp (hsuffix.subset List.mem_cons_self)⟩

/-- What a replay answers is conclusive only where scope, owner and request agree. -/
theorem replay_conclusive {record : IdempotencyRecord} {scope : String} {publicKey : Option String}
    {requestHash : String} (h : Conclusive (replay record scope publicKey requestHash)) :
    record.scope = scope ∧ record.publicKey = publicKey ∧ record.requestHash = requestHash ∧
      replay record scope publicKey requestHash = ⟨record.responseCode, record.responseBody⟩ := by
  unfold replay at h ⊢
  split_ifs at h ⊢ with hscope howner hhash
  · exact absurd rfl h.1
  · exact absurd rfl h.1
  · exact absurd rfl h.1
  · exact ⟨not_not.mp hscope, not_not.mp howner, not_not.mp hhash, rfl⟩

/-- Who was answered before the middleware never looks a key up. -/
theorem Filed.not_looked_up (h : Filed c.jobOf c.state c.trace) {pid : Nat} {cfg : Settings}
    {route : Route} {req : Request} {past : Hist} {response : Response}
    (hjob : c.jobOf pid = some (.request cfg route req)) (aside : Aside past)
    (hsuffix : ⟨.json response, .ok ()⟩ :: past <:+ own pid c.trace) {key : String}
    {r : Reply (.findRecord key)} : ⟨pid, .findRecord key, r⟩ ∉ c.trace := by
  intro hmem
  obtain ⟨past', -, hsuffix'⟩ := h.request hjob hmem
  rcases suffix_cons_cases hsuffix hsuffix' with ⟨heq, -⟩ | hle | hle
  · cases heq
  · cases (h.lookup_reached hjob hsuffix').aside _ (hle.subset List.mem_cons_self)
  · cases aside _ (hle.subset List.mem_cons_self)

/-- A conclusive answer behind the middleware has a source. -/
theorem Filed.source (h : Filed c.jobOf c.state c.trace) {pid : Nat} {response : Response}
    (hcarries : Carries c scope key pid) (hmem : response ∈ answers c.trace pid)
    (hconclusive : Conclusive response) (hreach : ∃ r, ⟨pid, .findRecord key, r⟩ ∈ c.trace) :
    ∃ pid', Source c scope key pid' response := by
  obtain ⟨cfg, route, req, hjob, hkey, hscope⟩ := hcarries.job
  obtain ⟨r, hcall⟩ := mem_answers.mp hmem
  obtain rfl := h.sent _ _ _ hcall
  obtain ⟨past, hc, hsuffix⟩ := h.request hjob hcall
  cases hc with
  | aside _ _ _ ho => cases ho
  | direct _ aside =>
      obtain ⟨r', hfind⟩ := hreach
      exact absurd hfind (h.not_looked_up hjob aside hsuffix)
  | replay past' reached options mw existing =>
      obtain ⟨hscope', -, -, heq⟩ := replay_conclusive hconclusive
      obtain ⟨hkey', hinserted⟩ := h.found_of_mem (mem_of_past hsuffix List.mem_cons_self)
      have hrecordKey : existing.key = key := hkey'.trans hkey
      obtain ⟨pid', hsource⟩ := h.source_of_record hinserted
      rw [hrecordKey, hscope', hscope options mw] at hsource
      exact ⟨pid', by rw [replayOf, heq]; exact hsource⟩
  | answer past' reached l aside =>
      refine ⟨pid, hcarries, ?_, hmem, hconclusive.2⟩
      rw [← hkey]
      exact foundFree_iff.mpr (mem_of_past hsuffix (mem_entered l))
  | thrown _ unanswered e => exact absurd hconclusive.2 (Nat.lt_irrefl 500)

end

/-- **One handling and one answer for each key**, in every run in which a request finds its key free
only when all others that have found it free have failed. The answers compared are those of requests
that come to the middleware. -/
theorem idempotent_alone (s : Store) (scope key : String) (sched : List (Act Job Outcome))
    (heeds : Heeds api (Alone · scope key) (.initial { s with records := [] }) sched) :
    let c := runSched api (.initial { s with records := [] }) sched
    HandledOnce c scope key ∧ (AllReach c scope key → SameAnswer c scope key) := by
  intro c
  have h : Served scope key c := by
    refine runSched_heeds (P := Job.Answers) (Q := Job.Ends) body_answers
      (fun c a he h hG => h.step he hG) sched _ ?_ (.initial _) heeds
    exact ⟨.initial s _, fun _ _ _ _ hfree => nomatch foundFree_iff.mp hfree⟩
  have hsource {pid pid' : Nat} {response response' : Response}
      (hs : Source c scope key pid response) (hs' : Source c scope key pid' response') :
      pid = pid' :=
    h.single pid pid' hs.carries hs'.carries hs.free hs'.free
      (h.filed.not_spent hs.carries hs.answered hs.status)
      (h.filed.not_spent hs'.carries hs'.answered hs'.status)
  refine ⟨?_, ?_⟩
  · have hfree {pid : Nat} {response : Response} (hcarries : Carries c scope key pid)
        (hhandled : Handled c pid response) : Source c scope key pid response := by
      obtain ⟨cfg, route, req, hjob, rfl, -⟩ := hcarries.job
      obtain ⟨r, hentered⟩ := hhandled.entered
      exact ⟨hcarries, foundFree_iff.mpr (h.filed.entered hjob hentered), hhandled.answered,
        hhandled.status⟩
    intro pid pid' response response' hcarries hcarries' hhandled hhandled'
    exact hsource (hfree hcarries hhandled) (hfree hcarries' hhandled')
  · intro hreach pid pid' hcarries hcarries' response hmem response' hmem' hconclusive hconclusive'
    obtain ⟨pid₁, hs⟩ := h.filed.source hcarries hmem hconclusive
      (hreach pid hcarries response hmem hconclusive)
    obtain ⟨pid₂, hs'⟩ := h.filed.source hcarries' hmem' hconclusive'
      (hreach pid' hcarries' response' hmem' hconclusive')
    obtain rfl := hsource hs hs'
    obtain ⟨cfg, route, req, hjob, -, -⟩ := hs.carries.job
    obtain ⟨r, hcall⟩ := mem_answers.mp hs.answered
    obtain ⟨r', hcall'⟩ := mem_answers.mp hs'.answered
    exact h.filed.answered_once hjob hcall hcall'

/-! ## Two runs -/

def localSettings : Settings :=
  { toPlatform := echoPlatform, networkLocal := true, publicKeyOf := fun _ => some smokeKey }

/-- A request to `POST /executors/register` with the idempotency key `k`. -/
def registerRequest : Request where
  method := "POST"
  method_known := post_known
  originalUrl := "/executors/register"
  ip := ""
  headers := [("idempotency-key", "k")]
  rawBody := some (bufferOf "{}")
  body := some (.obj [("secret", .str "S"), ("metadataUri", .str "u")])
  rawBody_of_body := fun _ => rfl

def emptyDatabase : Store :=
  { emptyStore with market := { emptyStore.market with backend := .postgres } }

def registerTwice (sched : List (Act Job Outcome)) : Config Op Reply Job Store :=
  runSched api (.initial { emptyDatabase with records := [] })
    (.spawn (.request localSettings .register registerRequest) ::
      .spawn (.request localSettings .register registerRequest) :: sched)

/-- The second request waits for the first. -/
theorem register_one_after_the_other :
    HandledOnce (registerTwice (goOn 0 8 ++ goOn 1 3)) "executor_register" "k" ∧
      (AllReach (registerTwice (goOn 0 8 ++ goOn 1 3)) "executor_register" "k" →
        SameAnswer (registerTwice (goOn 0 8 ++ goOn 1 3)) "executor_register" "k") :=
  idempotent_alone emptyDatabase "executor_register" "k" _ (by decide +kernel)

/-- Both requests look the key up before either has left its record. -/
def registerRace : Config Op Reply Job Store :=
  registerTwice (goOn 0 2 ++ goOn 1 2 ++ goOn 0 6 ++ goOn 1 6)

def answersBelow500 (pid : Nat) : Bool :=
  (answers registerRace.trace pid).any fun response => response.status < 500

def entersHandler (pid : Nat) : Call Op Reply → Bool
  | ⟨p, .next .idempotency, _⟩ => p = pid
  | _ => false

theorem registerRace_handled {pid : Nat}
    (hentered : registerRace.trace.any (entersHandler pid) = true)
    (hanswered : answersBelow500 pid = true) : ∃ response, Handled registerRace pid response := by
  obtain ⟨call, hcall, henters⟩ := List.any_eq_true.mp hentered
  obtain ⟨response, hmem, hstatus⟩ := List.any_eq_true.mp hanswered
  refine ⟨response, ?_, hmem, of_decide_eq_true hstatus⟩
  unfold entersHandler at henters
  split at henters
  · rw [decide_eq_true_eq] at henters
    subst henters
    exact ⟨_, hcall⟩
  · cases henters

/-- The executor is registered twice under one key. -/
theorem register_race_handled_twice :
    ¬ ∀ (s : Store) (scope key : String) (sched : List (Act Job Outcome)),
      HandledOnce (runSched api (.initial { s with records := [] }) sched) scope key ∧
        SameAnswer (runSched api (.initial { s with records := [] }) sched) scope key := by
  intro h
  have hfirst : ∃ response, Handled registerRace 0 response :=
    registerRace_handled (by decide +kernel) (by decide +kernel)
  have hsecond : ∃ response, Handled registerRace 1 response :=
    registerRace_handled (by decide +kernel) (by decide +kernel)
  obtain ⟨response, hfirst⟩ := hfirst
  obtain ⟨response', hsecond⟩ := hsecond
  have honce : HandledOnce registerRace "executor_register" "k" := (h emptyDatabase _ _ _).1
  have heq := honce 0 1 response response' (by decide +kernel) (by decide +kernel) hfirst hsecond
  exact absurd heq (by decide)

end TrustGate.Api
