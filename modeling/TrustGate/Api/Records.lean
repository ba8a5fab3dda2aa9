import TrustGate.Api.Answers
import TrustGate.Api.Effects

set_option autoImplicit false

/-! # Where records come from

What is known of answers and of the table `idempotency_keys` in every run: a request is answered
once, and a record that a look-up finds was inserted by a request that its handler had answered,
under the same key. -/

namespace TrustGate.Api

open Market Resumption

/-! ## What operations answer -/

section

variable {c : Outcome} {m m' : Store}

/-- An answer goes out. -/
theorem exec_json {response : Response} {r : Reply (.json response)}
    (hx : exec (.json response) c m = some (r, m')) : r = .ok () := by
  unfold exec at hx
  split at hx
  · cases hx
    rfl
  · cases hx
  · cases hx

theorem exec_findRecord {key : String} {existing : Option IdempotencyRecord}
    (hx : exec (.findRecord key) c m = some (.ok existing, m')) :
    existing = m.findRecord key := by
  rcases exec_cases hx with ⟨e, -, he, -⟩ | ⟨r₀, hp, ⟨-, rfl⟩ | ⟨e, -, he⟩⟩
  · cases he
  · cases hp
    rfl
  · cases he

theorem findRecord_some {key : String} {record : IdempotencyRecord}
    (h : m.findRecord key = some record) : record ∈ m.records ∧ record.key = key :=
  ⟨List.mem_of_find?_eq_some h, by simpa using List.find?_some h⟩

/-- A record that was not there before is the one that was inserted. -/
theorem exec_records {o : Op} {r : Reply o} (hx : exec o c m = some (r, m'))
    {record : IdempotencyRecord} (hmem : record ∈ m'.records) :
    record ∈ m.records ∨ o = .insertRecord record := by
  by_cases ho : ∃ new, o = .insertRecord new
  swap
  · rw [(exec_frame hx).records fun new heq => ho ⟨new, heq⟩] at hmem
    exact .inl hmem
  obtain ⟨new, rfl⟩ := ho
  rcases exec_cases hx with ⟨e, -, -, rfl⟩ | ⟨r₀, hp, -⟩
  · exact .inl hmem
  · simp only [perform, Store.insertRecord, Option.some.injEq] at hp
    split_ifs at hp
    · cases hp
      exact .inl hmem
    · cases hp
      rcases List.mem_append.mp hmem with hold | hnew
      · exact .inl hold
      · rw [List.mem_singleton.mp hnew]
        exact .inr rfl

theorem insertRecord_ok {record : IdempotencyRecord}
    (h : m.insertRecord record = (.ok (), m')) : m'.findRecord record.key = some record := by
  unfold Store.insertRecord at h
  split_ifs at h with hfound
  · cases h
  · cases h
    rw [Bool.not_eq_true, Option.isSome_eq_false_iff, Option.isNone_iff_eq_none] at hfound
    unfold Store.findRecord at hfound ⊢
    rw [List.find?_append, hfound]
    simp

theorem exec_insertRecord {record : IdempotencyRecord}
    (hx : exec (.insertRecord record) c m = some (.ok (), m')) :
    m'.findRecord record.key = some record := by
  rcases exec_cases hx with ⟨e, -, he, -⟩ | ⟨r₀, hp, ⟨-, rfl⟩ | ⟨e, -, he⟩⟩
  · cases he
  · exact insertRecord_ok (Option.some.inj hp)
  · cases he

/-- Records stay as they are. -/
theorem exec_found {o : Op} {r : Reply o} (hx : exec o c m = some (r, m')) {key : String}
    {record : IdempotencyRecord} (h : m.findRecord key = some record) :
    m'.findRecord key = some record := by
  by_cases ho : ∃ new, o = .insertRecord new
  swap
  · unfold Store.findRecord at h ⊢
    rwa [(exec_frame hx).records fun new heq => ho ⟨new, heq⟩]
  obtain ⟨new, rfl⟩ := ho
  rcases exec_cases hx with ⟨e, -, -, rfl⟩ | ⟨r₀, hp, -⟩
  · exact h
  · simp only [perform, Store.insertRecord, Option.some.injEq] at hp
    split_ifs at hp
    · cases hp
      exact h
    · cases hp
      unfold Store.findRecord at h ⊢
      rw [List.find?_append, h]
      rfl

end

/-! ## The invariant -/

/-- Somebody went to insert the record. -/
def Inserted (t : Trace Op Reply) (record : IdempotencyRecord) : Prop :=
  ∃ pid r, ⟨pid, .insertRecord record, r⟩ ∈ t

structure Filed (jobs : Nat → Option Job) (s : Store) (t : Trace Op Reply) : Prop where
  explained : EachCall (fun earlier c => ∃ j, jobs c.pid = some j ∧
    j.Answers (own c.pid earlier) c.op) t
  sent : ∀ pid response r, ⟨pid, .json response, r⟩ ∈ t → r = .ok ()
  records : ∀ record ∈ s.records, Inserted t record
  found : ∀ pid key record earlier, ⟨pid, .findRecord key, .ok (some record)⟩ :: earlier <:+ t →
    record.key = key ∧ Inserted earlier record
  /-- A record that was inserted is there to stay. -/
  kept : ∀ pid record, ⟨pid, .insertRecord record, .ok ()⟩ ∈ t → s.findRecord record.key = some record
  seen : ∀ pid pid' record existing earlier,
    ⟨pid', .findRecord record.key, .ok existing⟩ :: earlier <:+ t →
    ⟨pid, .insertRecord record, .ok ()⟩ ∈ earlier → existing = some record

theorem Inserted.cons {t : Trace Op Reply} {record : IdempotencyRecord} (hi : Inserted t record)
    (call : Call Op Reply) : Inserted (call :: t) record := by
  obtain ⟨pid, r, hmem⟩ := hi
  exact ⟨pid, r, List.mem_cons_of_mem _ hmem⟩

namespace Filed

variable {jobs jobs' : Nat → Option Job} {s s' : Store} {t : Trace Op Reply}

theorem initial (s : Store) (jobs : Nat → Option Job) : Filed jobs { s with records := [] } [] where
  explained := trivial
  sent := fun _ _ _ hmem => nomatch hmem
  records := fun _ hmem => nomatch hmem
  found := fun _ _ _ _ hs => nomatch List.suffix_nil.mp hs
  kept := fun _ _ hmem => nomatch hmem
  seen := fun _ _ _ _ _ hs => nomatch List.suffix_nil.mp hs

theorem mono (h : Filed jobs s t) (hjobs : ∀ pid j, jobs pid = some j → jobs' pid = some j) :
    Filed jobs' s t :=
  { h with explained := h.explained.more hjobs }

/-- What a call of a process of the API keeps. -/
theorem call (h : Filed jobs s t) {pid : Nat} {j : Job} {o : Op} {c : Outcome} {r : Reply o}
    (hj : jobs pid = some j) (hc : j.Answers (own pid t) o) (hx : exec o c s = some (r, s')) :
    Filed jobs s' (⟨pid, o, r⟩ :: t) := by
  refine ⟨⟨⟨j, hj, hc⟩, h.explained⟩, ?_, ?_, ?_, ?_, ?_⟩
  · intro pid' response r' hmem
    rcases List.mem_cons.mp hmem with heq | hold
    · cases heq
      exact exec_json hx
    · exact h.sent _ _ _ hold
  · intro record hmem
    rcases exec_records hx hmem with hold | rfl
    · exact (h.records record hold).cons _
    · exact ⟨pid, r, List.mem_cons_self⟩
  · intro pid' key record earlier hs
    rcases List.suffix_cons_iff.mp hs with heq | hold
    · cases heq
      obtain ⟨hrecord, hkey⟩ := findRecord_some (exec_findRecord hx).symm
      exact ⟨hkey, h.records record hrecord⟩
    · exact h.found _ _ _ _ hold
  · intro pid' record hmem
    rcases List.mem_cons.mp hmem with heq | hold
    · cases heq
      exact exec_insertRecord hx
    · exact exec_found hx (h.kept _ _ hold)
  · intro pid₁ pid₂ record existing earlier hs hmem
    rcases List.suffix_cons_iff.mp hs with heq | hold
    · cases heq
      rw [exec_findRecord hx, h.kept _ _ hmem]
    · exact h.seen _ _ _ _ _ hold hmem

end Filed

/-- Every run keeps track of its records, from an empty table. -/
theorem filed_run (s : Store) (sched : List (Act Job Outcome)) :
    let cfg := runSched api (.initial { s with records := [] }) sched
    Filed cfg.jobOf cfg.state cfg.trace := by
  refine (runSched_authored (R := .any) (I := Filed) (Q := Job.Ends)
    (fun j _ => body_answers j) (fun _ _ _ _ hjobs h => h.mono hjobs) ?_ sched
    (.initial { s with records := [] }) (.initial s _) (.initial _) (meets_any _ _ _)).1
  exact fun jobs s t pid j o c r s' h hj _ hc _ hx => h.call hj hc hx

/-! ## Answers -/

section

variable {jobs : Nat → Option Job} {s : Store} {t : Trace Op Reply} {pid : Nat}
  {cfg : Settings} {route : Route} {req : Request}

/-- A call of a request, and what the request did before it. -/
theorem Filed.request (h : Filed jobs s t) (hjob : jobs pid = some (.request cfg route req))
    {o : Op} {r : Reply o} (hmem : ⟨pid, o, r⟩ ∈ t) :
    ∃ past, AnswerCall cfg route req past o ∧ ⟨o, r⟩ :: past <:+ own pid t := by
  obtain ⟨j, past, hj, hc, hsuffix⟩ := h.explained.of_mem hmem
  rw [hjob] at hj
  cases hj
  exact ⟨past, hc, hsuffix⟩

/-- What a request did before one of its calls stands in the trace. -/
theorem mem_of_past {past : Hist} {d d' : Done Op Reply} (hsuffix : d :: past <:+ own pid t)
    (hd : d' ∈ past) : (⟨pid, d'.op, d'.reply⟩ : Call Op Reply) ∈ t :=
  mem_own.mp (hsuffix.subset (List.mem_cons_of_mem _ hd))

/-- A request is answered once. -/
theorem Filed.answered_once (h : Filed jobs s t) (hjob : jobs pid = some (.request cfg route req))
    {response response' : Response} {r : Reply (.json response)} {r' : Reply (.json response')}
    (hmem : ⟨pid, .json response, r⟩ ∈ t) (hmem' : ⟨pid, .json response', r'⟩ ∈ t) :
    response = response' := by
  have hr := h.sent _ _ _ hmem
  have hr' := h.sent _ _ _ hmem'
  subst hr hr'
  obtain ⟨past, hc, hsuffix⟩ := h.request hjob hmem
  obtain ⟨past', hc', hsuffix'⟩ := h.request hjob hmem'
  rcases suffix_cons_cases hsuffix hsuffix' with ⟨heq, -⟩ | hle | hle
  · cases heq
    rfl
  · exact absurd (hle.subset List.mem_cons_self) (hc'.unanswered response)
  · exact absurd (hle.subset List.mem_cons_self) (hc.unanswered response')

/-- A record that a look-up found was inserted. -/
theorem Filed.found_of_mem (h : Filed jobs s t) {key : String} {record : IdempotencyRecord}
    (hmem : ⟨pid, .findRecord key, .ok (some record)⟩ ∈ t) :
    record.key = key ∧ Inserted t record := by
  obtain ⟨newer, earlier, ht⟩ := List.append_of_mem hmem
  obtain ⟨hkey, pid', r, hinsert⟩ := h.found _ _ _ earlier ⟨newer, ht.symm⟩
  refine ⟨hkey, pid', r, ?_⟩
  rw [ht]
  exact List.mem_append_right _ (List.mem_cons_of_mem _ hinsert)

/-- A record is the account of a request that found its key free, was handled, and was answered
below 500. -/
theorem Filed.inserter (h : Filed jobs s t) {record : IdempotencyRecord}
    {r : Reply (.insertRecord record)} (hmem : ⟨pid, .insertRecord record, r⟩ ∈ t) :
    ∃ cfg route req response, ∃ options ∈ route.idempotent cfg, ∃ past l,
      jobs pid = some (.request cfg route req) ∧ record = recordOf cfg options req response ∧
      response.status < 500 ∧ req.idempotencyKey ≠ "" ∧ Reached cfg route past ∧
      ⟨.json response, .ok ()⟩ :: (l ++ entered req past) <:+ own pid t := by
  obtain ⟨j, h', hj, hc, hsuffix⟩ := h.explained.of_mem hmem
  cases j with
  | issueNonce cfg req =>
      rcases hc with ho | ⟨response, heq⟩
      · cases ho
      · cases heq
  | service job => cases hc
  | request cfg route req =>
      cases hc with
      | aside _ _ _ ho => cases ho
      | insert past reached keyed l aside options mw response recorded =>
          exact ⟨cfg, route, req, response, options, mw, past, l, hj, rfl, recorded, keyed,
            reached, (List.suffix_cons _ _).trans hsuffix⟩

/-- Who looks its key up has come to the middleware. -/
theorem Filed.lookup_reached (h : Filed jobs s t) (hjob : jobs pid = some (.request cfg route req))
    {key : String} {r : Reply (.findRecord key)} {past : Hist}
    (hs : ⟨.findRecord key, r⟩ :: past <:+ own pid t) : Reached cfg route past := by
  obtain ⟨j, hj, hc⟩ := h.explained.of_own hs
  rw [hjob] at hj
  cases hj
  cases hc with
  | aside _ _ _ ho => cases ho
  | find _ reached => exact reached

/-- A request that found a record is answered from it. -/
theorem Filed.answered_from (h : Filed jobs s t) (hjob : jobs pid = some (.request cfg route req))
    {key : String} {record : IdempotencyRecord} {past : Hist} {response : Response}
    {r : Reply (.json response)}
    (hs : ⟨.findRecord key, .ok (some record)⟩ :: past <:+ own pid t)
    (hmem : ⟨pid, .json response, r⟩ ∈ t) :
    ∃ options ∈ route.idempotent cfg, response = replayOf cfg options req record := by
  -- whatever the request did next was to answer
  have hnext {o : Op} {r : Reply o}
      (hn : ⟨o, r⟩ :: ⟨.findRecord key, .ok (some record)⟩ :: past <:+ own pid t) :
      ∃ options ∈ route.idempotent cfg, o = .json (replayOf cfg options req record) := by
    obtain ⟨j, hj, hc⟩ := h.explained.of_own hn
    rw [hjob] at hj
    cases hj
    exact hc.after_found
  rcases suffix_eq_or_next hs with hlast | ⟨⟨o, r'⟩, hn⟩
  · have hold : (⟨.json response, r⟩ : Done Op Reply) ∈ own pid t := mem_own.mpr hmem
    rw [← hlast] at hold
    rcases hold with _ | ⟨_, hold⟩
    cases (h.lookup_reached hjob hs).aside _ hold
  · obtain ⟨options, hmw, rfl⟩ := hnext hn
    have hanswer := mem_own.mp (hn.subset List.mem_cons_self)
    exact ⟨options, hmw, h.answered_once hjob hmem hanswer⟩

/-- A handler that was entered had found the key free. -/
theorem Filed.entered (h : Filed jobs s t) (hjob : jobs pid = some (.request cfg route req))
    {r : Reply (.next .idempotency)} (hmem : ⟨pid, .next .idempotency, r⟩ ∈ t) :
    ⟨pid, .findRecord req.idempotencyKey, .ok none⟩ ∈ t := by
  obtain ⟨past, hc, hsuffix⟩ := h.request hjob hmem
  cases hc with
  | aside _ _ _ ho => cases ho
  | enter past' => exact mem_of_past hsuffix List.mem_cons_self

end

end TrustGate.Api
