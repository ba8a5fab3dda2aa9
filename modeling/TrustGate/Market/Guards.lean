import TrustGate.Lib.Guard
import TrustGate.Market.Wire

set_option autoImplicit false

/-! # The guards of the worker

`EventConsumer.autoClaimOnce` and `WorkerService.start` keep themselves from running twice at a time by
the fields `claiming` and `running` (`src/src/services/eventConsumer.ts`,
`src/src/services/workerService.ts`). Here the fields are the shared state. Everything that is awaited
may be replied anything, at any time or never. -/

namespace TrustGate.Guards

open Resumption Market

/-! ## Operations -/

/-- What `maybeSampleBacklog` asks for. -/
inductive BacklogQuery where
  | xLen | xPending | countUnprocessed | countFailed

/-- Reads and writes of the fields, which happen at once, and what is awaited. -/
inductive GuardedOp where
  /-- `if (this.claiming) return 0; this.claiming = true`, with the cursor. -/
  | beginClaim
  | setClaimCursor (next : Raw)
  | endClaim
  /-- `if (this.running) return; this.running = true`. -/
  | beginTick
  | endTick
  | backlogDue
  | backlog (query : BacklogQuery)
  | xAutoClaim (claimCursor : String)
  | xReadGroup
  /-- The handler that a caller of `autoClaimOnce` gives. -/
  | handle (entry : WireEntry)
  | market (o : Op)

abbrev GuardedValue : GuardedOp → Type
  | .beginClaim => Option String
  | .beginTick => Bool
  | .backlogDue => Bool
  | .xAutoClaim _ => Raw
  | .xReadGroup => Raw
  | .market o => Value o
  | _ => Unit

abbrev GuardedReply (o : GuardedOp) := Except JsError (GuardedValue o)

abbrev Guarded := Fallible GuardedOp GuardedValue JsError

abbrev await (o : GuardedOp) : Guarded (GuardedValue o) := call o

/-- Calls of the market, made from here. -/
def lift {α : Type} : Prog Op Reply α → Prog GuardedOp GuardedReply α
  | .ret a => .ret a
  | .await o k => .await (.market o) fun r => lift (k r)

def inMarket {α : Type} (x : Js α) : Guarded α := ExceptT.mk (lift x.run)

/-! ## Programs -/

def autoClaimOnce (handler : WireEntry → Guarded Unit) : Guarded Nat := do
  match ← await .beginClaim with
  | none => return 0
  | some claimCursor =>
    let res ← await (.xAutoClaim claimCursor)
    let result ← attempt do
      match res with
      | .arr (next :: raw :: _) =>
        await (.setClaimCursor next)
        let entries := parseEntries raw
        forEach handler entries
        return entries.length
      | _ => return 0
    -- finally
    await .endClaim
    match result with
    | .ok claimed => return claimed
    | .error e => throw e

def pollOnce (handler : WireEntry → Guarded Unit) : Guarded Nat := do
  let res ← await .xReadGroup
  let entries := polledEntries res
  forEach handler entries
  return entries.length

/-- Only the metrics depend on the replies. -/
def maybeSampleBacklog : Guarded Unit := do
  if ¬ (← await .backlogDue) then return () else
  let _ ← attempt do
    await (.backlog .xLen)
    await (.backlog .xPending)
  let _ ← attempt do
    await (.backlog .countUnprocessed)
    await (.backlog .countFailed)
  return ()

section

variable (rt : JsonRuntime) (entryId : String → Nat) (cfg : Settings)

def onEntry (entry : WireEntry) : Guarded Unit :=
  inMarket (handleFields cfg rt (entryId entry.id) entry.fields)

def tick : Guarded Unit := do
  maybeSampleBacklog
  inMarket publishOnce
  if cfg.pauseWorkerConsumption then return () else
  let _ ← autoClaimOnce (onEntry rt entryId cfg)
  let _ ← pollOnce (onEntry rt entryId cfg)
  inMarket (forEach (retryDue cfg) ["event:task_completion_requested", "event:result_published"])

def runTick : Guarded Unit := do
  if ¬ (← await .beginTick) then return () else
  let _ ← attempt (tick rt entryId cfg)
  -- finally
  await .endTick

end

/-! ## The running system -/

structure Flags where
  claiming : Bool
  claimCursor : String
  running : Bool

/-- `String(res[0] ?? this.claimCursor)`. -/
def nextCursor (claimCursor : String) : Raw → String
  | .null => claimCursor
  | .undefined => claimCursor
  | next => next.text

/-- What the world replies. -/
abbrev Replies := (o : GuardedOp) → GuardedReply o

def exec (o : GuardedOp) (c : Replies) (s : Flags) : Option (GuardedReply o × Flags) :=
  match o with
  | .beginClaim =>
    if s.claiming then some (.ok none, s)
    else some (.ok (some s.claimCursor), { s with claiming := true })
  | .setClaimCursor next => some (.ok (), { s with claimCursor := nextCursor s.claimCursor next })
  | .endClaim => some (.ok (), { s with claiming := false })
  | .beginTick => if s.running then some (.ok false, s) else some (.ok true, { s with running := true })
  | .endTick => some (.ok (), { s with running := false })
  | o => some (c o, s)

/-- A call of `autoClaimOnce`, or a firing of the timer. -/
inductive GuardedJob where
  | autoClaimOnce
  | runTick (cfg : Settings)

/-- Run a program to its end, whatever comes of it. -/
def settled {α : Type} (x : Guarded α) : Prog GuardedOp GuardedReply Unit := x.run >>= fun _ => pure ()

def GuardedJob.body (rt : JsonRuntime) (entryId : String → Nat) :
    GuardedJob → Prog GuardedOp GuardedReply Unit
  | .autoClaimOnce => settled (Guards.autoClaimOnce fun entry => await (.handle entry))
  | .runTick cfg => settled (Guards.runTick rt entryId cfg)

/-- Calls and firings on one consumer and one worker. A call that crashes is one that never settles. -/
def guarded (rt : JsonRuntime) (entryId : String → Nat) :
    System GuardedOp GuardedReply GuardedJob Replies Flags where
  body := GuardedJob.body rt entryId
  exec := exec

def Flags.initial : Flags := ⟨false, "0-0", false⟩

/-! ## The two guards -/

/-- A round of `XAUTOCLAIM` is over when `claiming` is reset, or when the command is rejected. -/
def claimGuard : Guard GuardedOp GuardedReply Flags where
  flag := Flags.claiming
  step
    | ⟨.beginClaim, .ok (some _)⟩ => some .enter
    | ⟨.endClaim, _⟩ => some .clear
    | ⟨.xAutoClaim _, .error _⟩ => some .strand
    | _ => none

def tickGuard : Guard GuardedOp GuardedReply Flags where
  flag := Flags.running
  step
    | ⟨.beginTick, .ok true⟩ => some .enter
    | ⟨.endTick, _⟩ => some .clear
    | _ => none

abbrev Seen := Past GuardedOp GuardedReply

/-- The process has just got past `claiming`, with this cursor. -/
def justClaimed : Seen → Option String
  | ⟨.beginClaim, .ok claimed⟩ :: _ => claimed
  | _ => none

/-- The process has just got past `running`. -/
def justStarted : Seen → Bool
  | ⟨.beginTick, .ok started⟩ :: _ => started
  | _ => false

/-- What a process may do next. -/
structure May (h : Seen) (o : GuardedOp) : Prop where
  claims : ∀ claimCursor, justClaimed h = some claimCursor → o = .xAutoClaim claimCursor
  starts : justStarted h = true → o = .backlogDue
  sends : ∀ claimCursor, o = .xAutoClaim claimCursor → claimGuard.inside h = true
  endsClaim : o = .endClaim → claimGuard.inside h = true
  endsTick : o = .endTick → tickGuard.inside h = true ∧ claimGuard.inside h = false

/-- Where a process is between two calls that matter. -/
structure At (inTick inRound : Bool) (h : Seen) : Prop where
  tick : tickGuard.inside h = inTick
  round : claimGuard.inside h = inRound
  claimed : justClaimed h = none
  started : justStarted h = false

/-- Calls that have nothing to do with the guards. -/
def GuardedOp.plain : GuardedOp → Bool
  | .beginClaim => false
  | .endClaim => false
  | .beginTick => false
  | .endTick => false
  | .xAutoClaim _ => false
  | _ => true

theorem step_of_plain {o : GuardedOp} (ho : o.plain = true) (r : GuardedReply o) :
    claimGuard.step ⟨o, r⟩ = none ∧ tickGuard.step ⟨o, r⟩ = none := by
  cases o <;> first | exact ⟨rfl, rfl⟩ | cases ho

section

variable {inTick inRound : Bool} {h : Seen} {α : Type}

/-- Any call may be made that does not end something. -/
theorem At.may (hat : At inTick inRound h) {o : GuardedOp} (hsend : ∀ c, o ≠ .xAutoClaim c)
    (hclaim : o ≠ .endClaim) (htick : o ≠ .endTick) : May h o where
  claims c hc := by
    rw [hat.claimed] at hc
    cases hc
  starts hs := by
    rw [hat.started] at hs
    cases hs
  sends c hc := absurd hc (hsend c)
  endsClaim ho := absurd ho hclaim
  endsTick ho := absurd ho htick

theorem At.plain (hat : At inTick inRound h) {l : Seen} (hl : ∀ d ∈ l, d.op.plain = true) :
    At inTick inRound (l ++ h) := by
  have hstep (d : Done GuardedOp GuardedReply) (hd : d ∈ l) := step_of_plain (hl d hd) d.reply
  constructor
  · rw [Guard.inside_append fun d hd => (hstep d hd).2]
    exact hat.tick
  · rw [Guard.inside_append fun d hd => (hstep d hd).1]
    exact hat.round
  · cases l with
    | nil => exact hat.claimed
    | cons d l =>
        obtain ⟨o, r⟩ := d
        have ho := hl _ List.mem_cons_self
        cases o <;> first | rfl | cases ho
  · cases l with
    | nil => exact hat.started
    | cons d l =>
        obtain ⟨o, r⟩ := d
        have ho := hl _ List.mem_cons_self
        cases o <;> first | rfl | cases ho

/-- A program that leaves the guards alone. -/
theorem plain_may {x : Guarded α} (hx : Only (fun o => o.plain = true) x)
    (hat : At inTick inRound h) : Ensures May (fun h _ => At inTick inRound h) x h := by
  refine hx.ensures (fun l o hl ho => (hat.plain hl).may ?_ ?_ ?_) fun l _ hl => hat.plain hl
  · rintro c rfl
    cases ho
  · rintro rfl
    cases ho
  · rintro rfl
    cases ho

theorem only_inMarket (x : Js α) : Only (fun o => o.plain = true) (inMarket x) := by
  intro h
  unfold inMarket Ensures
  show Follows _ _ (lift x.run) h
  generalize x.run = p
  induction p generalizing h with
  | ret a => trivial
  | await o k ih => exact ⟨rfl, fun r => ih r _⟩

/-! ## One round -/

variable {handler : WireEntry → Guarded Unit}

theorem autoClaimOnce_may (hhandler : ∀ entry, Only (fun o => o.plain = true) (handler entry))
    (hat : At inTick false h) :
    Ensures May (fun h _ => At inTick false h) (autoClaimOnce handler) h := by
  unfold autoClaimOnce
  rw [ensures_call_bind]
  refine ⟨hat.may nofun nofun nofun, ?_, fun e => ⟨hat.tick, hat.round, rfl, rfl⟩⟩
  rintro (_ | claimCursor)
  · exact ⟨hat.tick, hat.round, rfl, rfl⟩
  dsimp only
  rw [ensures_call_bind]
  refine ⟨⟨?_, nofun, fun _ _ => rfl, nofun, nofun⟩, ?_, fun e => ⟨hat.tick, rfl, rfl, rfl⟩⟩
  · rintro c hc
    cases hc
    rfl
  intro res
  rw [ensures_attempt_bind]
  have hin : At inTick true (⟨.xAutoClaim claimCursor, .ok res⟩ ::
      ⟨.beginClaim, .ok (some claimCursor)⟩ :: h) := ⟨hat.tick, rfl, rfl, rfl⟩
  refine (plain_may ?_ hin).mono (fun _ _ hp => hp) ?_
  · split
    · exact .bind (.call rfl) fun _ => .bind (.forEach hhandler _) fun _ => .pure _
    · exact .pure _
  intro h' result hin
  rw [ensures_call_bind]
  refine ⟨⟨?_, ?_, nofun, fun _ => hin.round, nofun⟩, ?_, fun e => ⟨hin.tick, rfl, rfl, rfl⟩⟩
  · intro c hc
    rw [hin.claimed] at hc
    cases hc
  · intro hs
    rw [hin.started] at hs
    cases hs
  intro _
  cases result <;> exact ⟨hin.tick, rfl, rfl, rfl⟩

/-! ## One firing -/

theorem only_pollOnce (hhandler : ∀ entry, Only (fun o => o.plain = true) (handler entry)) :
    Only (fun o => o.plain = true) (pollOnce handler) :=
  .bind (.call rfl) fun _ => .bind (.forEach hhandler _) fun _ => .pure _

variable {rt : JsonRuntime} {entryId : String → Nat} {cfg : Settings}

theorem tick_may (htick : tickGuard.inside h = true) (hround : claimGuard.inside h = false)
    (hclaimed : justClaimed h = none) :
    Ensures May (fun h _ => At true false h) (tick rt entryId cfg) h := by
  have hentry (entry : WireEntry) : Only (fun o => o.plain = true) (onEntry rt entryId cfg entry) :=
    only_inMarket _
  unfold tick maybeSampleBacklog
  rw [ensures_bind, ensures_call_bind]
  refine ⟨⟨?_, fun _ => rfl, nofun, nofun, nofun⟩, ?_, fun e => ⟨htick, hround, rfl, rfl⟩⟩
  · intro c hc
    rw [hclaimed] at hc
    cases hc
  intro due
  have hat : At true false (⟨.backlogDue, .ok due⟩ :: h) := ⟨htick, hround, rfl, rfl⟩
  refine (plain_may ?_ hat).mono (fun _ _ hp => hp) ?_
  · split_ifs
    · exact .bind (.attempt (.bind (.call rfl) fun _ => .call rfl)) fun _ =>
        .bind (.attempt (.bind (.call rfl) fun _ => .call rfl)) fun _ => .pure _
    · exact .pure _
  rintro h (e | _) hat
  · exact hat
  dsimp only
  rw [ensures_bind]
  refine (plain_may (only_inMarket _) hat).mono (fun _ _ hp => hp) ?_
  rintro h (e | _) hat
  · exact hat
  dsimp only
  split_ifs
  · exact hat
  rw [ensures_bind]
  refine (autoClaimOnce_may hentry hat).mono (fun _ _ hp => hp) ?_
  rintro h (e | _) hat
  · exact hat
  exact plain_may (.bind (only_pollOnce hentry) fun _ => only_inMarket _) hat

theorem runTick_may (hat : At false false h) :
    Ensures May (fun h _ => At false false h) (runTick rt entryId cfg) h := by
  unfold runTick
  rw [ensures_call_bind]
  refine ⟨hat.may nofun nofun nofun, ?_, fun e => ⟨hat.tick, hat.round, rfl, rfl⟩⟩
  rintro (_ | _)
  · rw [if_pos (by simp)]
    exact ⟨hat.tick, hat.round, rfl, rfl⟩
  rw [if_neg (by simp), ensures_attempt_bind]
  refine (tick_may (h := ⟨.beginTick, .ok true⟩ :: h) rfl hat.round rfl).mono
    (fun _ _ hp => hp) ?_
  intro h result hat
  refine ⟨⟨?_, ?_, nofun, nofun, fun _ => ⟨hat.tick, hat.round⟩⟩, fun r =>
    ⟨rfl, hat.round, rfl, rfl⟩⟩
  · intro c hc
    rw [hat.claimed] at hc
    cases hc
  · intro hs
    rw [hat.started] at hs
    cases hs

end

theorem body_may (rt : JsonRuntime) (entryId : String → Nat) (j : GuardedJob) :
    Follows May (fun h _ => At false false h) ((guarded rt entryId).body j) [] := by
  have hat : At false false [] := ⟨rfl, rfl, rfl, rfl⟩
  cases j with
  | autoClaimOnce => exact (follows_bind _ _ _).mpr (autoClaimOnce_may (fun _ => .call rfl) hat)
  | runTick cfg => exact (follows_bind _ _ _).mpr (runTick_may hat)

/-! ## Runs -/

section

variable {o : GuardedOp} {c : Replies} {s s' : Flags} {r : GuardedReply o} {h : Seen}

theorem exec_beginClaim (c : Replies) (s : Flags) : exec .beginClaim c s =
    if s.claiming then some (.ok none, s)
    else some (.ok (some s.claimCursor), { s with claiming := true }) := rfl

theorem exec_beginTick (c : Replies) (s : Flags) : exec .beginTick c s =
    if s.running then some (.ok false, s) else some (.ok true, { s with running := true }) := rfl

theorem claim_respects (hx : exec o c s = some (r, s')) (hm : May h o) :
    claimGuard.Respects h ⟨o, r⟩ s s' := by
  cases o with
  | beginClaim =>
      rw [exec_beginClaim] at hx
      split_ifs at hx with hclaiming
      · cases hx
        rfl
      · cases hx
        exact ⟨eq_false_of_ne_true hclaiming, rfl⟩
  | endClaim =>
      cases hx
      exact ⟨hm.endsClaim rfl, rfl⟩
  | xAutoClaim claimCursor =>
      obtain ⟨rfl, rfl⟩ := Prod.mk.inj (Option.some.inj hx)
      cases hr : c (.xAutoClaim claimCursor) with
      | error e => exact ⟨hm.sends _ rfl, rfl⟩
      | ok res => rfl
  | beginTick =>
      rw [exec_beginTick] at hx
      split_ifs at hx <;> cases hx <;> rfl
  | _ =>
      cases hx
      rfl

theorem tick_respects (hx : exec o c s = some (r, s')) (hm : May h o) :
    tickGuard.Respects h ⟨o, r⟩ s s' := by
  cases o with
  | beginTick =>
      rw [exec_beginTick] at hx
      split_ifs at hx with hrunning
      · cases hx
        rfl
      · cases hx
        exact ⟨eq_false_of_ne_true hrunning, rfl⟩
  | endTick =>
      cases hx
      exact ⟨(hm.endsTick rfl).1, rfl⟩
  | beginClaim =>
      rw [exec_beginClaim] at hx
      split_ifs at hx <;> cases hx <;> rfl
  | _ =>
      cases hx
      rfl

end

abbrev GuardedConfig := Config GuardedOp GuardedReply GuardedJob Flags

/-- A call of `autoClaimOnce` is past its guard and has not come to its end. -/
def InRound (cfg : GuardedConfig) (pid : Nat) : Prop :=
  claimGuard.inside (own pid cfg.trace) = true

def InTick (cfg : GuardedConfig) (pid : Nat) : Prop := tickGuard.inside (own pid cfg.trace) = true

/-- An `XAUTOCLAIM` was rejected. -/
def Rejected (cfg : GuardedConfig) : Prop :=
  ∃ pid claimCursor e, (⟨pid, .xAutoClaim claimCursor, .error e⟩ : Call GuardedOp GuardedReply) ∈
    cfg.trace

theorem stranded_iff {cfg : GuardedConfig} : claimGuard.Stranded cfg.trace ↔ Rejected cfg := by
  constructor
  · rintro ⟨⟨pid, o, r⟩, hmem, hstep⟩
    cases o with
    | xAutoClaim claimCursor =>
        cases r with
        | error e => exact ⟨pid, claimCursor, e, hmem⟩
        | ok res => cases hstep
    | beginClaim => rcases r with e | _ | claimCursor <;> cases hstep
    | _ => cases hstep
  · rintro ⟨pid, claimCursor, e, hmem⟩
    exact ⟨_, hmem, rfl⟩

theorem tick_not_stranded {cfg : GuardedConfig} : ¬ tickGuard.Stranded cfg.trace := by
  rintro ⟨⟨pid, o, r⟩, -, hstep⟩
  cases o with
  | beginTick => rcases r with e | _ | _ <;> cases hstep
  | _ => cases hstep

section

variable (rt : JsonRuntime) (entryId : String → Nat)

/-- Whoever calls `autoClaimOnce` next, or is about to get there, goes on to issue `XAUTOCLAIM`. -/
def ClaimReopens (cfg : GuardedConfig) : Prop :=
  (∀ pid, ¬ InRound cfg pid) → ∀ pid c,
    let called := step (guarded rt entryId) cfg (.spawn .autoClaimOnce)
    called.pending pid = some .beginClaim →
      (step (guarded rt entryId) called (.run pid c)).pending pid =
        some (.xAutoClaim cfg.state.claimCursor)

/-- The timer that fires next starts a tick. -/
def TimerReopens (cfg : GuardedConfig) : Prop :=
  (∀ pid, ¬ InTick cfg pid) → ∀ pid c settings,
    let fired := step (guarded rt entryId) cfg (.spawn (.runTick settings))
    fired.pending pid = some .beginTick →
      InTick (step (guarded rt entryId) fired (.run pid c)) pid ∧
      (step (guarded rt entryId) fired (.run pid c)).pending pid = some .backlogDue

/-- **The guards exclude and reopen.** -/
structure GuardsHold (cfg : GuardedConfig) : Prop where
  oneRound : ∀ pid pid', InRound cfg pid → InRound cfg pid' → pid = pid'
  oneTick : ∀ pid pid', InTick cfg pid → InTick cfg pid' → pid = pid'
  claim : ClaimReopens rt entryId cfg
  timer : TimerReopens rt entryId cfg

abbrev Behaved (cfg : GuardedConfig) : Prop :=
  Explained (.any : Regime GuardedOp GuardedReply GuardedJob Replies Flags) (fun _ => May)
    (fun _ h => At false false h) cfg

theorem kept_run (sched : List (Act GuardedJob Replies)) :
    let cfg := runSched (guarded rt entryId) (.initial .initial) sched
    (claimGuard.Kept cfg.state cfg.trace ∧ tickGuard.Kept cfg.state cfg.trace) ∧ Behaved cfg := by
  refine runSched_rule (R := .any) (I := fun s t => claimGuard.Kept s t ∧ tickGuard.Kept s t)
    (fun j _ => body_may rt entryId j) ?_ sched (.initial .initial)
    ⟨.initial rfl, .initial rfl⟩ (.initial _) (meets_any _ sched _)
  rintro s t pid j o c r s' ⟨hclaim, htick⟩ - hmay - hx
  exact ⟨hclaim.call (claim_respects hx hmay), htick.call (tick_respects hx hmay)⟩

variable {rt} {entryId} {cfg : GuardedConfig}

theorem claimReopens_of_open (he : Behaved cfg) (hopen : cfg.state.claiming = false) :
    ClaimReopens rt entryId cfg := by
  intro _ pid c called hpending
  have hcalled : Behaved called := he.spawn trivial (body_may rt entryId _)
  have hx : exec .beginClaim c called.state =
      some (.ok (some cfg.state.claimCursor), { cfg.state with claiming := true }) := by
    rw [exec_beginClaim, show called.state = cfg.state from rfl, if_neg (by simp [hopen])]
  refine hcalled.pending_run (c := c) hpending hx ?_ ?_
  · exact fun _ o hmay => hmay.claims _ rfl
  · exact fun _ hat => nomatch hat.claimed

theorem timerReopens_of_open (he : Behaved cfg) (hopen : cfg.state.running = false) :
    TimerReopens rt entryId cfg := by
  intro _ pid c settings fired hpending
  have hfired : Behaved fired := he.spawn trivial (body_may rt entryId _)
  have hx : exec .beginTick c fired.state = some (.ok true, { cfg.state with running := true }) := by
    rw [exec_beginTick, show fired.state = cfg.state from rfl, if_neg (by simp [hopen])]
  refine ⟨?_, hfired.pending_run (c := c) hpending hx ?_ ?_⟩
  · unfold InTick
    rw [trace_run hpending hx, own_cons_self]
    rfl
  · exact fun _ o hmay => hmay.starts rfl
  · exact fun _ hat => nomatch hat.started

/-- Once `claiming` was left set, a call does not get through. -/
theorem not_claimReopens (he : Behaved cfg) (hshut : cfg.state.claiming = true)
    (hnobody : ∀ pid, ¬ InRound cfg pid) : ¬ ClaimReopens rt entryId cfg := by
  intro hreopens
  let c : Replies := fun _ => .error (.other "closed")
  let called := step (guarded rt entryId) cfg (.spawn .autoClaimOnce)
  have hpending : called.pending cfg.procs.length = some .beginClaim := pending_spawn rfl
  have hx : exec .beginClaim c called.state = some (.ok none, called.state) := by
    rw [exec_beginClaim, show called.state = cfg.state from rfl, if_pos hshut]
  have hcalled : Behaved called := he.spawn trivial (body_may rt entryId _)
  -- it would issue `XAUTOCLAIM` outside a round
  have hissues := hreopens hnobody cfg.procs.length c hpending
  have hnext := (hcalled.act_cases (body_may rt entryId) (.run cfg.procs.length c)).1
  obtain ⟨-, -, hmay⟩ := hnext.issued hissues
  have hin := hmay.sends _ rfl
  rw [trace_run hpending hx, own_cons_self, Guard.inside_cons rfl] at hin
  exact hnobody _ hin

end

/-- **Both guards exclude in every run, and the timer's guard reopens.** The other one does until an
`XAUTOCLAIM` is rejected. -/
theorem guardsHold_iff (rt : JsonRuntime) (entryId : String → Nat)
    (sched : List (Act GuardedJob Replies)) :
    let cfg := runSched (guarded rt entryId) (.initial .initial) sched
    (∀ pid, cfg.Returned pid → ¬ InRound cfg pid ∧ ¬ InTick cfg pid) ∧
    (GuardsHold rt entryId cfg ↔ ¬ Rejected cfg) := by
  intro cfg
  obtain ⟨⟨hclaim, htick⟩, he⟩ := kept_run rt entryId sched
  refine ⟨fun pid hreturned => ?_, fun hholds hrejected => ?_, fun hnone => ⟨?_, ?_, ?_, ?_⟩⟩
  · obtain ⟨j, hj⟩ := hreturned
    have hat := he.follows pid j _ hj
    exact ⟨fun hin => (nomatch hat.round.symm.trans hin),
      fun hin => nomatch hat.tick.symm.trans hin⟩
  · have hempty := hclaim.empty (stranded_iff.mpr hrejected)
    have hnobody : ∀ pid, ¬ InRound cfg pid := fun pid hin => nomatch (hempty pid).symm.trans hin
    exact not_claimReopens he (hclaim.shut.mpr (.inr (stranded_iff.mpr hrejected))) hnobody
      hholds.claim
  · exact hclaim.alone
  · exact htick.alone
  · intro hnobody
    refine claimReopens_of_open he (eq_false_of_ne_true fun hset => ?_) hnobody
    exact hnone (stranded_iff.mp ((hclaim.flag_iff hnobody).mp hset))
  · intro hnobody
    refine timerReopens_of_open he (eq_false_of_ne_true fun hset => ?_) hnobody
    exact tick_not_stranded ((htick.flag_iff hnobody).mp hset)

def refused : Replies := fun _ => .error (.other "The client is closed")

/-- The first `XAUTOCLAIM` of all is rejected. -/
def refusedClaim : List (Act GuardedJob Replies) :=
  [.spawn .autoClaimOnce, .run 0 refused, .run 0 refused]

theorem refused_claim_shuts_out : ¬ ∀ sched, GuardsHold withoutNumbers (fun _ => 0)
    (runSched (guarded withoutNumbers fun _ => 0) (.initial .initial) sched) := by
  intro hholds
  obtain ⟨⟨hclaim, -⟩, he⟩ := kept_run withoutNumbers (fun _ => 0) refusedClaim
  have hrejected : Rejected
      (runSched (guarded withoutNumbers fun _ => 0) (.initial .initial) refusedClaim) :=
    ⟨0, "0-0", .other "The client is closed", .head _⟩
  have hempty := hclaim.empty (stranded_iff.mpr hrejected)
  exact not_claimReopens he rfl (fun pid hin => nomatch (hempty pid).symm.trans hin)
    (hholds refusedClaim).claim

end TrustGate.Guards
