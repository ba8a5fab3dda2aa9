import TrustGate.Market.Payouts
import TrustGate.Market.Rows

set_option autoImplicit false

/-! # A handler succeeds once for each event

`tryStart`, the dispatch and the mark that ends it are separate steps, and a `PROCESSING` row does
not keep anybody else from starting. If nobody starts a dispatch while another one for the same
handler and event is in flight, the first success is the last dispatch. -/

namespace TrustGate.Market

open Resumption

/-! ## The row of a handler and an event -/

namespace Store

/-- The row of `x` has succeeded. -/
def Succeeded (m : Store) (x : String × String) : Prop :=
  ∃ r, m.findConsumption x.1 x.2 = some r ∧ r.status = .succeeded

/-- There is a row for `x`. -/
def Tried (m : Store) (x : String × String) : Prop := (m.findConsumption x.1 x.2).isSome

end Store

/-! ## Calls and rows -/

section

variable {o : Op} {c : Outcome} {m m' : Store} {r : Reply o}

/-- A row stays, and only `markFailed` takes a success back. -/
theorem rows_exec (hx : exec o c m = some (r, m')) (x : String × String) :
    (m.Tried x → m'.Tried x) ∧
    ((∀ error at_, o ≠ .markFailed x.1 x.2 error at_) → m.Succeeded x → m'.Succeeded x) := by
  have tried : ∀ row, m'.row x = some row → m'.Tried x := fun row hrow => by
    show (m'.row x).isSome = true
    rw [hrow]
    rfl
  cases rowStep hx x with
  | same _ row =>
      refine ⟨fun ht => ?_, fun _ ⟨r, hr, hs⟩ => ⟨r, row.trans hr, hs⟩⟩
      show (m'.row x).isSome = true
      rw [row]
      exact ht
  | first args key absent row =>
      exact ⟨fun _ => tried _ row, fun _ ⟨r, hr, _⟩ => nomatch absent.symm.trans hr⟩
  | again args r key found due row =>
      refine ⟨fun _ => tried _ row, fun _ ⟨r', hr', hs⟩ => ?_⟩
      cases found.symm.trans hr'
      simp [Store.refuses, hs] at due
  | succeeded row =>
      refine ⟨fun ht => ?_, fun _ ⟨r, hr, _⟩ => ⟨r.succeed c.now, ?_, rfl⟩⟩
      · obtain ⟨r, hr⟩ := Option.isSome_iff_exists.mp ht
        exact tried (r.succeed c.now) (row.trans (congrArg (Option.map _) hr))
      · exact row.trans (congrArg (Option.map _) hr)
  | failed error nextRetryAt row =>
      refine ⟨fun ht => ?_, fun hne => absurd rfl (hne error nextRetryAt)⟩
      obtain ⟨r, hr⟩ := Option.isSome_iff_exists.mp ht
      exact tried (r.fail error nextRetryAt c.now) (row.trans (congrArg (Option.map _) hr))

/-- The mark of a success makes it one. -/
theorem succeeded_of_mark {h e : String} (ht : m.Tried (h, e)) :
    (m.markSucceeded h e c.now).Succeeded (h, e) := by
  obtain ⟨r, hr⟩ := Option.isSome_iff_exists.mp ht
  refine ⟨r.succeed c.now, ?_, rfl⟩
  exact (m.row_markSucceeded (h, e) c.now).trans (congrArg (Option.map _) hr)

end

/-- A dispatch of `x` has completed: the call records its success. -/
def marks (x : String × String) (c : Call Op Reply) : Bool :=
  match c.op with
  | .markSucceeded h e => (h, e) = x
  | _ => false

/-- The call has started a dispatch of `x`. -/
def starts (x : String × String) (c : Call Op Reply) : Bool :=
  flight ⟨c.op, c.reply⟩ = some (some x)

theorem inFlight_call (pid pid' : Nat) (o : Op) (r : Reply o) (t : Trace Op Reply) :
    inFlight (own pid' (⟨pid, o, r⟩ :: t)) =
      if pid = pid' then (flight ⟨o, r⟩).getD (inFlight (own pid t)) else inFlight (own pid' t) := by
  split_ifs with hp
  · subst hp
    rw [own_cons_self, inFlight]
  · rw [own_cons_ne hp]

/-- A process without calls has nothing in flight. -/
theorem not_inFlight {x : String × String} {t : Trace Op Reply}
    (h : ∀ c ∈ t, inFlight (own c.pid t) ≠ some x) (pid : Nat) : inFlight (own pid t) ≠ some x := by
  intro hf
  have hne : own pid t ≠ [] := by
    intro hown
    rw [hown] at hf
    cases hf
  obtain ⟨call, hmem, rfl⟩ := exists_call_of_ne_nil hne
  exact h call hmem hf

/-! ## Starting alone -/

/-- `tryStart` does not start a dispatch while one for the same handler and event is in flight,
and the mark of a success goes through. -/
def StartsAlone (m : Store) (t : Trace Op Reply) (_ : Nat) (o : Op) (c : Outcome) : Prop :=
  match o with
  | .tryStart args =>
      c.fault = .none →
        (∀ r ∈ m.findConsumption args.handlerName args.eventId,
          Store.refuses c.now args.maxAttempts r = false) →
        ∀ call ∈ t, inFlight (own call.pid t) ≠ some (args.handlerName, args.eventId)
  | .markSucceeded _ _ => c.fault = .none
  | _ => True

instance (m : Store) (t : Trace Op Reply) (pid : Nat) (o : Op) (c : Outcome) :
    Decidable (StartsAlone m t pid o c) := by
  apply Op.casesOn (motive := fun o => Decidable (StartsAlone m t pid o c)) o <;> intros <;>
    unfold StartsAlone <;> infer_instance

def Job.ticks : Job → Bool
  | .tick _ _ => true
  | _ => false

/-- Workers that start alone; whatever else they call may fail, and they may crash. -/
abbrev exclusive : Regime Op Reply Job Outcome Store :=
  ⟨fun j => j.ticks = true, StartsAlone, True⟩

/-- Where the handling of `x` stands: no success yet and at most one dispatch in flight, or one
success, on record, and no dispatch in flight. -/
inductive Phase (x : String × String) (m : Store) (t : Trace Op Reply) : Prop
  | running (none : t.countP (marks x) = 0)
      (alone : ∀ pid pid', inFlight (own pid t) = some x → inFlight (own pid' t) = some x →
        pid = pid')
      (tried : ∀ pid, inFlight (own pid t) = some x → m.Tried x)
  | succeeded (once : t.countP (marks x) = 1) (idle : ∀ pid, inFlight (own pid t) ≠ some x)
      (row : m.Succeeded x)

theorem Phase.initial (x : String × String) (m : Store) : Phase x m [] :=
  .running rfl (fun _ _ h => nomatch h) (fun _ h => nomatch h)

section

variable {x : String × String} {m m' : Store} {t : Trace Op Reply} {pid : Nat} {o : Op}
  {c : Outcome} {r : Reply o} {j : Job}

/-- A dispatch in flight: there was no success yet. -/
theorem Phase.of_inFlight (h : Phase x m t) (hf : inFlight (own pid t) = some x) :
    t.countP (marks x) = 0 ∧ (∀ pid', inFlight (own pid' t) = some x → pid' = pid) ∧
      m.Tried x := by
  cases h with
  | running none alone tried => exact ⟨none, fun pid' hf' => alone pid' pid hf' hf, tried pid hf⟩
  | succeeded once idle row => exact absurd hf (idle pid)

/-- A call that starts no dispatch of `x` and records no success leaves the phase. -/
theorem Phase.frame (h : Phase x m t) (hmark : marks x ⟨pid, o, r⟩ = false)
    (hflight : ∀ pid', inFlight (own pid' (⟨pid, o, r⟩ :: t)) = some x →
      inFlight (own pid' t) = some x)
    (htried : m.Tried x → m'.Tried x)
    (hrow : (∀ pid, inFlight (own pid t) ≠ some x) → m.Succeeded x → m'.Succeeded x) :
    Phase x m' (⟨pid, o, r⟩ :: t) := by
  have hcount : (⟨pid, o, r⟩ :: t : Trace Op Reply).countP (marks x) = t.countP (marks x) := by
    rw [List.countP_cons, hmark]
    rfl
  cases h with
  | running none alone tried =>
      refine .running (hcount.trans none) ?_ ?_
      · exact fun p p' hp hp' => alone p p' (hflight p hp) (hflight p' hp')
      · exact fun p hp => htried (tried p (hflight p hp))
  | succeeded once idle row =>
      exact .succeeded (hcount.trans once) (fun p hp => idle p (hflight p hp)) (hrow idle row)

/-- A mark belongs to the dispatch in flight. -/
theorem Job.marks_inFlight {h : Hist} {hn e : String} :
    (j.Calls h (.markSucceeded hn e) → inFlight h = some (hn, e)) ∧
    ∀ error at_, j.Calls h (.markFailed hn e error at_) → inFlight h = some (hn, e) := by
  refine ⟨fun hc => ?_, fun error at_ hc => ?_⟩
  · obtain ⟨cfg, cursor, -, hc⟩ := Job.tick_of_worker hc rfl
    cases hc with
    | succeeded _ _ _ running => exact running
    | dispatch _ _ x hc => exact nomatch hc.2.worker rfl
  · obtain ⟨cfg, cursor, -, hc⟩ := Job.tick_of_worker hc rfl
    cases hc with
    | failed _ _ _ _ _ running => exact running
    | dispatch _ _ x hc => exact nomatch hc.2.worker rfl

theorem Phase.tryStart {args : StartArgs} {r : Reply (.tryStart args)} (h : Phase x m t)
    (hcall : StartsAlone m t pid (.tryStart args) c)
    (hx : exec (.tryStart args) c m = some (r, m')) :
    Phase x m' (⟨pid, .tryStart args, r⟩ :: t) ∧
      (starts x ⟨pid, .tryStart args, r⟩ = true → t.countP (marks x) = 0) := by
  have hrows := rows_exec hx x
  by_cases hstart : starts x ⟨pid, .tryStart args, r⟩ = true
  · -- a dispatch of `x` starts: the row did not refuse, so there is no success
    have hflight : flight ⟨.tryStart args, r⟩ = some (some x) := by
      simpa [starts] using hstart
    cases r with
    | error _ => cases hflight
    | ok s =>
        have hkey : s.started = true ∧ (args.handlerName, args.eventId) = x := by
          simp only [flight] at hflight
          split_ifs at hflight with hs
          exact ⟨hs, Option.some.inj (Option.some.inj hflight)⟩
        obtain ⟨hrow, hdue⟩ := started_cases hx hkey.1
        have hopen : ∀ r ∈ m.row args.key, Store.refuses c.now args.maxAttempts r = false := by
          intro r hr
          rcases hdue with ⟨hnone, -⟩ | ⟨r', hr', hdue, -⟩
          · cases hnone.symm.trans hr
          · cases hr'.symm.trans hr
            exact hdue
        have hidle := hcall (fault_of_ok hx) hopen
        rw [hkey.2] at hidle
        cases h with
        | succeeded once idle row =>
            obtain ⟨row, hfind, hs⟩ := row
            rw [← hkey.2] at hfind
            have := hopen row hfind
            simp [Store.refuses, hs] at this
        -- nobody is dispatching `x`, so the caller is the only one that does now
        | running none alone tried =>
            refine ⟨.running ?_ ?_ ?_, fun _ => none⟩
            · rw [List.countP_cons, none]
              rfl
            · have hother : ∀ p, inFlight (own p (⟨pid, .tryStart args, .ok s⟩ :: t)) = some x →
                  pid = p := by
                intro p hp'
                rw [inFlight_call] at hp'
                split_ifs at hp' with heq
                · exact heq
                · exact absurd hp' (not_inFlight hidle p)
              exact fun p p' hp' hp'' => (hother p hp').symm.trans (hother p' hp'')
            · rw [← hkey.2]
              exact fun _ _ => Option.isSome_iff_exists.mpr ⟨_, hrow⟩
  · refine ⟨h.frame rfl ?_ hrows.1 fun _ => hrows.2 (by simp), fun hs => absurd hs hstart⟩
    intro p hp'
    rw [inFlight_call] at hp'
    split_ifs at hp' with heq
    · subst heq
      cases hfl : flight ⟨.tryStart args, r⟩ with
      | none => rwa [hfl] at hp'
      | some y =>
          rw [hfl, Option.getD_some] at hp'
          subst hp'
          exact absurd (by simp [starts, hfl]) hstart
    · exact hp'

theorem Phase.markSucceeded {hn e : String} {r : Reply (.markSucceeded hn e)} (h : Phase x m t)
    (hmine : inFlight (own pid t) = some (hn, e)) (hfault : c.fault = .none)
    (hx : exec (.markSucceeded hn e) c m = some (r, m')) :
    Phase x m' (⟨pid, .markSucceeded hn e, r⟩ :: t) := by
  have hrows := rows_exec hx x
  obtain ⟨v, -, rfl⟩ := exec_calm hx hfault
  have hother : ∀ p y, inFlight (own p (⟨pid, .markSucceeded hn e, .ok ()⟩ :: t)) = some y →
      pid ≠ p ∧ inFlight (own p t) = some y := by
    intro p y hp
    rw [inFlight_call] at hp
    split_ifs at hp with heq
    · cases hp
    · exact ⟨heq, hp⟩
  by_cases hkey : (hn, e) = x
  -- the marker was the only one dispatching `x`, and no longer is
  · subst hkey
    obtain ⟨hnone, halone, htried⟩ := h.of_inFlight hmine
    refine .succeeded ?_ ?_ ?_
    · rw [List.countP_cons, hnone]
      simp [marks]
    · intro p hp
      obtain ⟨hne, hp⟩ := hother p _ hp
      exact hne (halone p hp).symm
    · cases exec_ok hx
      exact succeeded_of_mark htried
  · refine h.frame (by simp [marks, hkey]) (fun p hp => (hother p x hp).2) hrows.1 fun _ => ?_
    exact hrows.2 (by simp)

theorem Phase.markFailed {hn e error : String} {at_ : Nat} {r : Reply (.markFailed hn e error at_)}
    (h : Phase x m t) (hmine : inFlight (own pid t) = some (hn, e))
    (hx : exec (.markFailed hn e error at_) c m = some (r, m')) :
    Phase x m' (⟨pid, .markFailed hn e error at_, r⟩ :: t) := by
  have hrows := rows_exec hx x
  refine h.frame rfl ?_ hrows.1 fun hidle => hrows.2 ?_
  · intro p hp
    rw [inFlight_call] at hp
    split_ifs at hp with heq
    · cases r <;> cases hp
    · exact hp
  · -- a dispatch that is marked failed was in flight, so nothing has succeeded
    rintro error' at' heq
    cases heq
    exact hidle pid hmine

/-- **One call of a worker that starts alone.** -/
theorem Phase.call (h : Phase x m t) (hc : j.Calls (own pid t) o)
    (hcall : StartsAlone m t pid o c) (hx : exec o c m = some (r, m')) :
    Phase x m' (⟨pid, o, r⟩ :: t) ∧ (starts x ⟨pid, o, r⟩ = true → t.countP (marks x) = 0) := by
  cases o with
  | tryStart args => exact h.tryStart hcall hx
  | markSucceeded hn e =>
      refine ⟨h.markSucceeded (Job.marks_inFlight.1 hc) hcall hx, ?_⟩
      cases r <;> intro hs <;> simp [starts, flight] at hs
  | markFailed hn e error at_ =>
      refine ⟨h.markFailed (Job.marks_inFlight.2 error at_ hc) hx, ?_⟩
      cases r <;> intro hs <;> simp [starts, flight] at hs
  | _ =>
      have hrows := rows_exec hx x
      refine ⟨h.frame rfl ?_ hrows.1 fun _ => hrows.2 (by simp), ?_⟩
      · intro p hp
        rw [inFlight_call] at hp
        split_ifs at hp with heq
        · exact heq ▸ hp
        · exact hp
      · intro hs
        simp [starts, flight] at hs

end

/-! ## Runs -/

/-- **A handler succeeds at most once for each event**, and starts no dispatch after that, in a
run of workers that start alone: of the dispatches of `x` at most one was marked succeeded or is
about to be. -/
theorem handled_once (m : Store) (sched : List (Act Job Outcome))
    (alone : Meets market exclusive (.initial m) sched) (x : String × String) :
    let cfg := runSched market (.initial m) sched
    cfg.trace.countP (marks x) ≤ 1 ∧
    (∀ pid, cfg.pending pid = some (.markSucceeded x.1 x.2) → cfg.trace.countP (marks x) = 0 ∧
      ∀ pid', cfg.pending pid' = some (.markSucceeded x.1 x.2) → pid' = pid) ∧
    cfg.trace.Pairwise fun later earlier => marks x earlier = true → starts x later = false := by
  intro cfg
  have hrun := runSched_rule
    (I := fun m t => Phase x m t ∧
      t.Pairwise fun later earlier => marks x earlier = true → starts x later = false)
    (P := Job.Calls) (Q := Job.Ended) (R := exclusive) (fun j _ => body_follows j) ?_ sched
    (.initial m) ⟨.initial x m, .nil⟩ (.initial m) alone
  · obtain ⟨⟨hphase, hfinal⟩, he⟩ := hrun
    -- who is about to mark is in flight, and the phase says who may be
    have hpoised : ∀ pid, cfg.pending pid = some (.markSucceeded x.1 x.2) →
        inFlight (own pid cfg.trace) = some x := by
      intro pid hp
      obtain ⟨j, hj, hc⟩ := he.issued hp
      exact Job.marks_inFlight.1 hc
    refine ⟨?_, ?_, hfinal⟩
    · cases hphase with
      | running none alone tried => exact none.le.trans (Nat.zero_le 1)
      | succeeded once idle row => exact once.le
    · intro pid hp
      obtain ⟨hnone, halone, -⟩ := hphase.of_inFlight (hpoised pid hp)
      exact ⟨hnone, fun pid' hp' => halone pid' (hpoised pid' hp')⟩
  · rintro m t pid j o c r m' ⟨hphase, hfinal⟩ - hc hcall hx
    obtain ⟨hphase', hstart⟩ := hphase.call hc hcall hx
    refine ⟨hphase', List.pairwise_cons.mpr ⟨?_, hfinal⟩⟩
    intro earlier hmem hmark
    rw [Bool.eq_false_iff]
    intro hs
    have := List.countP_eq_zero.mp (hstart hs) earlier hmem
    exact this hmark

/-! ## Two workers on one entry -/

/-- A published result waits in the stream. -/
def publishedStore : Store where
  backend := .postgres
  tasks := [lateTask]
  bids := lateStore.bids
  results := []
  outbox := []
  consumptions := []
  stream := {
    entries := [⟨1, "v", "result_published", "task", "t", .obj [("taskId", .str "t"),
      ("executorPublicKey", .str "E"), ("payloadHash", .str "h"), ("publishedAt", .str "now")]⟩]
    lastId := 1
    lastDelivered := 0
    pending := [] }
  issued := ["t", "b", "v"]

def webhookTick : Job := .tick { webhookUrl := some "url" } 0

theorem published_result_handled_once :
    let cfg := runSched market (.initial publishedStore)
      (.spawn webhookTick :: List.replicate 7 (goes 0))
    cfg.trace.countP (marks ("event:result_published", "v")) ≤ 1 ∧
    (∀ pid, cfg.pending pid = some (.markSucceeded "event:result_published" "v") →
      cfg.trace.countP (marks ("event:result_published", "v")) = 0 ∧
        ∀ pid', cfg.pending pid' = some (.markSucceeded "event:result_published" "v") →
          pid' = pid) ∧
    cfg.trace.Pairwise fun later earlier =>
      marks ("event:result_published", "v") earlier = true →
        starts ("event:result_published", "v") later = false :=
  handled_once publishedStore _ (by decide +kernel) ("event:result_published", "v")

/-- While the first worker waits for the webhook, the second one claims the entry and starts over:
both dispatches complete. -/
theorem claimed_entry_handled_twice :
    ¬ (runSched market (.initial publishedStore)
      (.spawn webhookTick :: List.replicate 4 (goes 0) ++ .spawn webhookTick :: goes 1 ::
        .run 1 { idle := [1] } :: List.replicate 3 (goes 1) ++ [goes 0, goes 0])).trace.countP
        (marks ("event:result_published", "v")) ≤ 1 := by
  decide +kernel

end TrustGate.Market
