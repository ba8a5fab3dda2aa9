import TrustGate.Lib.Memo
import TrustGate.Market.Authors

set_option autoImplicit false

/-! # What is loaded once

The gate before a result (`createResultPaymentGate`, `src/src/config/x402.ts`), the gate before a task
(`getMppx`, `src/src/config/mppCharge.ts`) and the escrow client (`getClient`,
`src/src/services/escrowService.ts`) each keep the promise of something slow in a variable. Only the
first empties its variable when the promise is rejected. Here the variables are the shared state;
everything else that is awaited may be replied anything. -/

namespace TrustGate.Gates

open Resumption Market

/-- The variables that hold a promise. -/
inductive Variable where
  | initPromise | mppxPromise | clientPromise
  deriving DecidableEq, Repr

/-- `.catch((err) => { initPromise = undefined; throw err; })` stands in one place only. -/
def Variable.resets : Variable → Bool
  | .initPromise => true
  | .mppxPromise => false
  | .clientPromise => false

/-- The Trustless Work client of an `EscrowService`. -/
inductive Client where
  | injected | loaded
  deriving DecidableEq

inductive GateOp where
  /-- `if (!v) v = …`, and the promise that is then in the variable. -/
  | start (v : Variable)
  | settled (v : Variable) (attempt : Nat)
  /-- An attempt ends, without anybody's doing here. -/
  | ends (v : Variable) (attempt : Nat)
  /-- Whether it called `next`. -/
  | x402Middleware
  /-- The handler that `mppx.stellar.charge` returns, and whether it called `next`. -/
  | charge (amount description : String)
  | client (client : Client) (o : Op)
  | market (o : Op)
  | respond (response : Response)

abbrev GateValue : GateOp → Type
  | .start _ => Nat
  | .x402Middleware => Bool
  | .charge _ _ => Bool
  | .client _ o => Value o
  | .market o => Value o
  | _ => Unit

abbrev GateReply (o : GateOp) := Except JsError (GateValue o)

abbrev Gated := Fallible GateOp GateValue JsError

abbrev await (o : GateOp) : Gated (GateValue o) := call o

/-- Calls of the market, made from here. -/
def lift {α : Type} : Prog Op Reply α → Prog GateOp GateReply α
  | .ret a => .ret a
  | .await o k => .await (.market o) fun r => lift (k r)

def inMarket {α : Type} (x : Js α) : Gated α := ExceptT.mk (lift x.run)

/-! ## Programs -/

/-- The handler that `createResultPaymentGate` returns. -/
def resultPaymentGate (next : Gated Unit) : Gated Unit := do
  let initPromise ← await (.start .initPromise)
  let answered ← attempt do
    await (.settled .initPromise initPromise)
    await .x402Middleware
  match answered with
  | .ok true => next
  | .ok false => return ()
  | .error err => await (.respond (failureResponse 503 "payment gate unavailable" err))

/-- `GET /executor/tasks/:taskId/result`. -/
def fetchResult (taskId : String) : Gated Unit :=
  resultPaymentGate do
    let response ← inMarket (getResult taskId)
    await (.respond response)

def getMppx : Gated Unit := do
  let mppxPromise ← await (.start .mppxPromise)
  await (.settled .mppxPromise mppxPromise)

/-- The gate that `createListingFeeGateFactory` makes for one request. -/
def listingFeeGate (amount description : String) (next : Gated Unit) : Gated Unit := do
  getMppx
  if ← await (.charge amount description) then next else return ()

def loadClient : Gated Unit := do
  let clientPromise ← await (.start .clientPromise)
  await (.settled .clientPromise clientPromise)

def getClient (injectedClient : Bool) : Gated Client := do
  if injectedClient then return .injected
  else
    loadClient
    return .loaded

/-- `createEscrow`, `releaseMilestone` and `confiscate` first get the client. -/
def viaClient (injectedClient : Bool) (o : Op) : Gated Unit := do
  let client ← getClient injectedClient
  let _ ← await (.client client o)

/-! ## The running system -/

/-- What the world replies. -/
abbrev Replies := (o : GateOp) → GateReply o

abbrev Variables := Variable → Memo.Slot JsError Unit

def exec (o : GateOp) (c : Replies) (s : Variables) : Option (GateReply o × Variables) :=
  match o with
  | .start v => some (.ok (s v).join.1, Function.update s v (s v).join.2)
  | .settled v attempt => ((s v).result attempt).map fun r => (r, s)
  | .ends v attempt =>
      ((s v).settle v.resets attempt (c (.ends v attempt))).map fun slot =>
        (c (.ends v attempt), Function.update s v slot)
  | o => some (c o, s)

/-- Requests, calls of the escrow service, and the ends of what was started. -/
inductive GateJob where
  | fetchResult (taskId : String)
  | createTask (amount description : String)
  | escrow (injectedClient : Bool) (o : Op)
  | ends (v : Variable) (attempt : Nat)

/-- Run a program to its end, whatever comes of it. -/
def settled {α : Type} (x : Gated α) : Prog GateOp GateReply Unit := x.run >>= fun _ => pure ()

def GateJob.body : GateJob → Prog GateOp GateReply Unit
  | .fetchResult taskId => settled (Gates.fetchResult taskId)
  | .createTask amount description => settled (listingFeeGate amount description (pure ()))
  | .escrow injectedClient o => settled (viaClient injectedClient o)
  | .ends v attempt => settled (await (.ends v attempt))

def gates : System GateOp GateReply GateJob Replies Variables := ⟨GateJob.body, exec⟩

/-- Nothing has been loaded. -/
def unloaded : Variables := fun _ => .empty

/-! ## The variables of a run -/

/-- What a call tells of the variable. -/
def event (v : Variable) (c : Call GateOp GateReply) : Option (Memo.Event JsError Unit) :=
  match c with
  | ⟨_, .start v', .ok i⟩ => if v' = v then some (.joined i) else none
  | ⟨_, .settled v' i, r⟩ => if v' = v then some (.saw i r) else none
  | ⟨_, .ends v' i, r⟩ => if v' = v then some (.settled i r) else none
  | _ => none

theorem event_start (v : Variable) (pid i : Nat) : event v ⟨pid, .start v, .ok i⟩ = some (.joined i) :=
  if_pos rfl

theorem event_settled (v : Variable) (pid i : Nat) (r : Except JsError Unit) :
    event v ⟨pid, .settled v i, r⟩ = some (.saw i r) :=
  if_pos rfl

theorem event_ends (v : Variable) (pid i : Nat) (r : Except JsError Unit) :
    event v ⟨pid, .ends v i, r⟩ = some (.settled i r) :=
  if_pos rfl

def events (v : Variable) (t : Trace GateOp GateReply) : List (Memo.Event JsError Unit) :=
  t.filterMap (event v)

section

variable {o : GateOp} {c : Replies} {s s' : Variables} {r : GateReply o}
  {t : Trace GateOp GateReply} {pid : Nat}

/-- **One call** on a variable is a step of that variable, and of no other. -/
theorem run_exec (v : Variable) (h : Memo.Run v.resets (events v t) (s v))
    (hx : exec o c s = some (r, s')) : Memo.Run v.resets (events v (⟨pid, o, r⟩ :: t)) (s' v) := by
  have other (hevent : event v ⟨pid, o, r⟩ = none) (hs : s' v = s v) :
      Memo.Run v.resets (events v (⟨pid, o, r⟩ :: t)) (s' v) := by
    rw [events, List.filterMap_cons_none hevent, hs]
    exact h
  cases o with
  | start v' =>
      cases hx
      by_cases hv : v' = v
      · subst hv
        rw [events, List.filterMap_cons_some (event_start v' pid _), Function.update_self]
        exact .join h
      · exact other (by simp [event, hv]) (Function.update_of_ne (Ne.symm hv) _ _)
  | settled v' i =>
      obtain ⟨r', hr, heq⟩ := Option.map_eq_some_iff.mp hx
      cases heq
      by_cases hv : v' = v
      · subst hv
        rw [events, List.filterMap_cons_some (event_settled v' pid i r)]
        exact .saw h hr
      · exact other (by simp [event, hv]) rfl
  | ends v' i =>
      obtain ⟨slot, hslot, heq⟩ := Option.map_eq_some_iff.mp hx
      cases heq
      by_cases hv : v' = v
      · subst hv
        rw [events, List.filterMap_cons_some (event_ends v' pid i _), Function.update_self]
        exact .settle h hslot
      · exact other (by simp [event, hv]) (Function.update_of_ne (Ne.symm hv) _ _)
  | _ =>
      cases hx
      exact other rfl rfl

end

/-! ## Who goes through -/

/-- What has happened to the process before it does something. -/
def Passed (h : Past GateOp GateReply) : GateOp → Prop
  | .settled v attempt => ⟨.start v, .ok attempt⟩ ∈ h
  | .x402Middleware => ∃ attempt, ⟨.settled .initPromise attempt, .ok ()⟩ ∈ h
  | .charge _ _ => ∃ attempt, ⟨.settled .mppxPromise attempt, .ok ()⟩ ∈ h
  | .client .loaded _ => ∃ attempt, ⟨.settled .clientPromise attempt, .ok ()⟩ ∈ h
  | .market _ => ⟨.x402Middleware, .ok true⟩ ∈ h
  | .respond response => ⟨.x402Middleware, .ok true⟩ ∈ h ∨
      ∃ err, response = failureResponse 503 "payment gate unavailable" err ∧
        (⟨.x402Middleware, .error err⟩ ∈ h ∨ ∃ attempt, ⟨.start .initPromise, .ok attempt⟩ ∈ h ∧
          ⟨.settled .initPromise attempt, .error err⟩ ∈ h)
  | _ => True

/-- What happens behind the result gate. -/
theorem inMarket_passed {α : Type} (x : Js α) {f : α → Gated Unit} {h : Past GateOp GateReply}
    (hpassed : ⟨.x402Middleware, .ok true⟩ ∈ h)
    (hf : ∀ a h', ⟨.x402Middleware, .ok true⟩ ∈ h' → Ensures Passed (fun _ _ => True) (f a) h') :
    Ensures Passed (fun _ _ => True) (inMarket x >>= f) h := by
  rw [ensures_bind]
  unfold inMarket Ensures
  change Follows _ _ (lift x.run) h
  generalize x.run = p
  induction p generalizing h with
  | ret r =>
      cases r with
      | ok a => exact hf a h hpassed
      | error e => trivial
  | await o k ih => exact ⟨hpassed, fun r => ih r (List.mem_cons_of_mem _ hpassed)⟩

theorem fetchResult_passed (taskId : String) :
    Ensures Passed (fun _ _ => True) (fetchResult taskId) [] := by
  unfold fetchResult resultPaymentGate
  rw [ensures_call_bind]
  refine ⟨trivial, fun initPromise => ?_, fun _ => trivial⟩
  simp only [ensures_attempt_bind, ensures_call_bind]
  refine ⟨List.mem_cons_self, fun _ => ?_, fun e => ?_⟩
  · rw [ensures_call]
    refine ⟨⟨initPromise, List.mem_cons_self⟩, ?_⟩
    rintro (err | _ | _)
    · exact ⟨.inr ⟨err, rfl, .inl List.mem_cons_self⟩, fun _ => trivial⟩
    · trivial
    · exact inMarket_passed _ List.mem_cons_self fun response h hpassed =>
        ⟨.inl hpassed, fun _ => trivial⟩
  · exact ⟨.inr ⟨e, rfl, .inr ⟨initPromise, .tail _ (.head _), .head _⟩⟩, fun _ => trivial⟩

/-- Who goes on has seen the promise fulfilled. -/
theorem load_passed (v : Variable) : Ensures Passed
    (fun h r => r = .ok () → ∃ attempt, ⟨.settled v attempt, .ok ()⟩ ∈ h)
    (do let attempt ← await (.start v); await (.settled v attempt)) [] := by
  rw [ensures_call_bind]
  refine ⟨trivial, fun attempt => ⟨List.mem_cons_self, ?_⟩, by simp⟩
  rintro r rfl
  exact ⟨attempt, List.mem_cons_self⟩

theorem getClient_passed (injectedClient : Bool) : Ensures Passed
    (fun h r => r = .ok .loaded → ∃ attempt, ⟨.settled .clientPromise attempt, .ok ()⟩ ∈ h)
    (getClient injectedClient) [] := by
  unfold getClient
  cases injectedClient with
  | true => exact fun hloaded => by cases hloaded
  | false =>
      refine ensures_bind.mpr ((load_passed .clientPromise).mono (fun _ _ hp => hp) ?_)
      rintro h (e | _) hloaded
      · exact fun heq => by cases heq
      · exact fun _ => hloaded rfl

theorem body_passed (j : GateJob) : Follows Passed (fun _ _ => True) j.body [] := by
  have toEnd {α : Type} {x : Gated α} (hx : Ensures Passed (fun _ _ => True) x []) :
      Follows Passed (fun _ _ => True) (settled x) [] :=
    (follows_bind _ _ _).mpr (Follows.mono (fun _ _ h => h) (fun _ _ _ => trivial) hx)
  cases j with
  | fetchResult taskId => exact toEnd (fetchResult_passed taskId)
  | createTask amount description =>
      refine toEnd (ensures_bind.mpr ((load_passed .mppxPromise).mono (fun _ _ hp => hp) ?_))
      rintro h (e | _) hloaded
      · trivial
      · rw [ensures_call_bind]
        refine ⟨hloaded rfl, ?_, fun _ => trivial⟩
        rintro (_ | _) <;> trivial
  | escrow injectedClient o =>
      refine toEnd (ensures_bind.mpr ((getClient_passed injectedClient).mono (fun _ _ hp => hp) ?_))
      rintro h (e | client) hloaded
      · trivial
      · dsimp only
        rw [ensures_call_bind]
        refine ⟨?_, fun _ => trivial, fun _ => trivial⟩
        -- who has the loaded client has seen its promise fulfilled
        cases client with
        | injected => trivial
        | loaded => exact hloaded rfl
  | ends v attempt => exact toEnd ⟨trivial, fun _ => trivial⟩

theorem gates_run (sched : List (Act GateJob Replies)) :
    let cfg := runSched gates (.initial unloaded) sched
    (∀ v, Memo.Run v.resets (events v cfg.trace) (cfg.state v)) ∧
    EachCall (fun earlier c => Passed (own c.pid earlier) c.op) cfg.trace := by
  refine (runSched_rule (I := fun s t => (∀ v, Memo.Run v.resets (events v t) (s v)) ∧
    EachCall (fun earlier c => Passed (own c.pid earlier) c.op) t) (R := .any)
    (P := fun _ h o => Passed h o) (Q := fun _ _ => True) (fun j _ => body_passed j) ?_ sched
    (.initial unloaded) ⟨fun _ => .start, trivial⟩ (.initial unloaded) (meets_any gates sched _)).1
  rintro s t pid j o c r s' ⟨hrun, hcalls⟩ - hp - hx
  exact ⟨fun v => run_exec v (hrun v) hx, hp, hcalls⟩

/-! ## What the variables come to -/

section

variable {v : Variable} {t older : Trace GateOp GateReply} {attempt pid : Nat}

theorem mem_events {c : Call GateOp GateReply} {e : Memo.Event JsError Unit} (hc : c ∈ t)
    (he : event v c = some e) : e ∈ events v t :=
  List.mem_filterMap.mpr ⟨c, hc, he⟩

/-- Whatever tells that an attempt has ended is its end. -/
theorem ends_of_event {r : Except JsError Unit} (h : .settled attempt r ∈ events v t) :
    ∃ p, ⟨p, .ends v attempt, r⟩ ∈ t := by
  obtain ⟨⟨p, o, r'⟩, hc, he⟩ := List.mem_filterMap.mp h
  unfold event at he
  split at he
  · split_ifs at he
    cases he
  · split_ifs at he
    cases he
  · rename_i heq
    cases heq
    split_ifs at he with hv
    cases he
    exact ⟨p, hv ▸ hc⟩
  · cases he

/-- A part of a trace is the trace of a run. -/
theorem run_older {slot : Memo.Slot JsError Unit} (h : Memo.Run v.resets (events v t) slot)
    (hs : older <:+ t) : ∃ slot', Memo.Run v.resets (events v older) slot' := by
  obtain ⟨newer, rfl⟩ := hs
  rw [events, List.filterMap_append] at h
  exact h.older rfl

/-- Who has seen how an attempt ended saw how it did end. -/
theorem ends_of_settled {slot : Memo.Slot JsError Unit} (h : Memo.Run v.resets (events v t) slot)
    {r : Except JsError Unit} (hsaw : ⟨pid, .settled v attempt, r⟩ ∈ t) :
    ∃ p, ⟨p, .ends v attempt, r⟩ ∈ t :=
  ends_of_event (h.saw_settled (mem_events hsaw (event_settled v pid attempt r)))

end

/-- The initialization of the payment gate has succeeded. -/
def Initialized (t : Trace GateOp GateReply) (attempt : Nat) : Prop :=
  ∃ p, ⟨p, .ends .initPromise attempt, .ok ()⟩ ∈ t

/-- The request had come before the attempt failed that it was given to wait for. -/
def FailedSince (t : Trace GateOp GateReply) (pid : Nat) (err : JsError) : Prop :=
  ∃ attempt newer older p, t = newer ++ ⟨pid, .start .initPromise, .ok attempt⟩ :: older ∧
    ⟨p, .ends .initPromise attempt, .error err⟩ ∈ newer

/-- A request that saw its attempt fail had come before that. -/
theorem failedSince {t : Trace GateOp GateReply} {slot : Memo.Slot JsError Unit}
    (h : Memo.Run true (events .initPromise t) slot) {pid attempt : Nat} {err : JsError}
    (hstart : ⟨pid, .start .initPromise, .ok attempt⟩ ∈ t)
    (hsaw : ⟨pid, .settled .initPromise attempt, .error err⟩ ∈ t) : FailedSince t pid err := by
  obtain ⟨newer, older, rfl⟩ := List.append_of_mem hstart
  have hsplit : events .initPromise (newer ++ ⟨pid, .start .initPromise, .ok attempt⟩ :: older) =
      events .initPromise newer ++ .joined attempt :: events .initPromise older := by
    rw [events, List.filterMap_append, List.filterMap_cons_some (event_start _ pid attempt)]
    rfl
  have hfailed := h.fails_later hsplit (mem_events hsaw (event_settled _ pid attempt (.error err)))
  obtain ⟨p, hp⟩ := ends_of_event hfailed
  exact ⟨attempt, newer, older, p, rfl, hp⟩

/-- **The result gate gets over a failure**, in every run. One initialization is under way at a time,
and none after one has succeeded. The payment middleware sees a request only after that, and results
are looked up only for a request that the middleware has let through. A request is told that the
gate is unavailable only if the middleware threw, or the attempt failed that was under way when the
request came or that it started. -/
theorem result_gate_recovers (sched : List (Act GateJob Replies)) :
    let cfg := runSched gates (.initial unloaded) sched
    (∀ i j : Nat, (cfg.state .initPromise).attempts[i]? = some none →
      (cfg.state .initPromise).attempts[j]? = some none → i = j) ∧
    ∀ pid o r earlier, ⟨pid, o, r⟩ :: earlier <:+ cfg.trace →
      (∀ i attempt, Initialized earlier attempt →
        o ≠ .ends .initPromise i ∧
        ((⟨o, r⟩ : Done GateOp GateReply) = ⟨.start .initPromise, .ok i⟩ → i = attempt)) ∧
      (o = .x402Middleware → ∃ attempt, Initialized earlier attempt) ∧
      (∀ o', o = .market o' → ⟨.x402Middleware, .ok true⟩ ∈ own pid earlier) ∧
      ∀ response, o = .respond response → ⟨.x402Middleware, .ok true⟩ ∈ own pid earlier ∨
        ∃ err, response = failureResponse 503 "payment gate unavailable" err ∧
          (⟨.x402Middleware, .error err⟩ ∈ own pid earlier ∨ FailedSince earlier pid err) := by
  intro cfg
  obtain ⟨hruns, hcalls⟩ := gates_run sched
  have hrun := hruns .initPromise
  refine ⟨fun i j => hrun.one_in_flight, ?_⟩
  intro pid o r earlier hs
  obtain ⟨slot, hnow⟩ := run_older hrun hs
  obtain ⟨slot', hbefore⟩ := run_older hrun ((List.suffix_cons _ _).trans hs)
  have hpassed := hcalls.at hs
  refine ⟨?_, ?_, ?_, ?_⟩
  · rintro i attempt ⟨p, hp⟩
    have hok := mem_events hp (event_ends .initPromise p attempt (.ok ()))
    constructor
    · rintro rfl
      rw [events, List.filterMap_cons_some (event_ends _ pid i r)] at hnow
      exact hnow.no_more () hok
    · intro heq
      cases heq
      rw [events, List.filterMap_cons_some (event_start _ pid i)] at hnow
      exact hnow.joined_success hok
  · rintro rfl
    obtain ⟨attempt, hsettled⟩ := hpassed
    exact ⟨attempt, ends_of_settled hbefore (mem_own.mp hsettled)⟩
  · rintro o' rfl
    exact hpassed
  · rintro response rfl
    rcases hpassed with hthrough | ⟨err, rfl, hthrew | ⟨attempt, hstart, hsaw⟩⟩
    · exact .inl hthrough
    · exact .inr ⟨err, rfl, .inl hthrew⟩
    · exact .inr ⟨err, rfl, .inr (failedSince hbefore (mem_own.mp hstart) (mem_own.mp hsaw))⟩

/-- Everything fails. -/
def down : Replies := fun _ => .error (.other "fetch failed")

/-- Everything is there, and the payment is accepted. -/
def up : Replies
  | .ends _ _ => .ok ()
  | .x402Middleware => .ok true
  | _ => .error (.other "fetch failed")

/-- A request comes while the facilitator is down, and another one when it is there again. -/
def facilitatorReturns : List (Act GateJob Replies) :=
  [.spawn (.fetchResult "t"), .run 0 down, .spawn (.ends .initPromise 0), .run 1 down, .run 0 down,
    .run 0 down, .spawn (.fetchResult "t"), .run 2 up, .spawn (.ends .initPromise 1), .run 3 up,
    .run 2 up, .run 2 up, .run 2 up]

theorem second_request_let_through :
    let cfg := runSched gates (.initial unloaded) facilitatorReturns
    (cfg.state .initPromise).cell = some 1 ∧ ⟨.x402Middleware, .ok true⟩ ∈ own 2 cfg.trace ∧
    ∀ i j : Nat, (cfg.state .initPromise).attempts[i]? = some none →
      (cfg.state .initPromise).attempts[j]? = some none → i = j :=
  ⟨rfl, .tail _ (.head _), (result_gate_recovers facilitatorReturns).1⟩

/-- What is called with what the variable's promise gives. -/
def GateOp.needs : GateOp → Option Variable
  | .x402Middleware => some .initPromise
  | .charge _ _ => some .mppxPromise
  | .client .loaded _ => some .clientPromise
  | _ => none

/-- **The listing fee gate and the escrow client do not**: in a run in which loading failed, it is
tried once, everybody who ever waits for it is told of that failure, and no fee is charged, and no
call made of the client that is loaded, at any time. -/
theorem failed_load_is_final (v : Variable) (hkeeps : v.resets = false)
    (sched : List (Act GateJob Replies)) (p attempt : Nat) (err : JsError)
    (hfailed : ⟨p, .ends v attempt, .error err⟩ ∈ (runSched gates (.initial unloaded) sched).trace) :
    let cfg := runSched gates (.initial unloaded) sched
    (∀ q i r, ⟨q, .ends v i, r⟩ ∈ cfg.trace → i = attempt ∧ r = .error err) ∧
    (∀ q i r, ⟨q, .settled v i, r⟩ ∈ cfg.trace → r = .error err) ∧
    ∀ c ∈ cfg.trace, c.op.needs ≠ some v := by
  intro cfg
  obtain ⟨hruns, hcalls⟩ := gates_run sched
  have hrun := hruns v
  rw [hkeeps] at hrun
  have hends : ∀ q i r, ⟨q, .ends v i, r⟩ ∈ cfg.trace → i = attempt ∧ r = .error err := by
    intro q i r hq
    exact hrun.settled_alone (mem_events hq (event_ends v q i r))
      (mem_events hfailed (event_ends v p attempt (.error err)))
  have hsettled : ∀ q i r, ⟨q, .settled v i, r⟩ ∈ cfg.trace → r = .error err := by
    intro q i r hq
    obtain ⟨p', hp'⟩ := ends_of_settled (hruns v) hq
    exact (hends p' i r hp').2
  refine ⟨hends, hsettled, ?_⟩
  rintro ⟨q, o, r⟩ hc hneeds
  obtain ⟨newer, earlier, ht⟩ := List.append_of_mem hc
  have hpassed := hcalls.at ⟨newer, ht.symm⟩
  have hseen : ∃ i, ⟨.settled v i, .ok ()⟩ ∈ own q earlier := by
    cases o with
    | x402Middleware => cases hneeds; cases hkeeps
    | charge amount description => cases hneeds; exact hpassed
    | client client o =>
        cases client with
        | injected => cases hneeds
        | loaded => cases hneeds; exact hpassed
    | _ => cases hneeds
  obtain ⟨i, hi⟩ := hseen
  have hmem : ⟨q, .settled v i, .ok ()⟩ ∈ cfg.trace :=
    ht ▸ List.mem_append_right _ (List.mem_cons_of_mem _ (mem_own.mp hi))
  cases hsettled q i (.ok ()) hmem

/-- Two escrows are to be released, and the client could not be loaded. -/
def clientMissing : List (Act GateJob Replies) :=
  [.spawn (.escrow false (.releaseMilestone "1")), .run 0 down, .spawn (.ends .clientPromise 0),
    .run 1 down, .run 0 down, .spawn (.escrow false (.releaseMilestone "2")), .run 2 up, .run 2 up]

theorem second_release_not_sent :
    let cfg := runSched gates (.initial unloaded) clientMissing
    (own 2 cfg.trace).length = 2 ∧ (∀ q i r, ⟨q, .settled .clientPromise i, r⟩ ∈ cfg.trace →
      r = .error (.other "fetch failed")) ∧ ∀ c ∈ cfg.trace, c.op.needs ≠ some .clientPromise :=
  ⟨rfl, (failed_load_is_final .clientPromise rfl clientMissing 1 0 (.other "fetch failed")
    (.tail _ (.tail _ (.tail _ (.head _))))).2⟩

end TrustGate.Gates
