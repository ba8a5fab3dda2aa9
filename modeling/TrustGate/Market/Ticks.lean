import TrustGate.Market.Published

set_option autoImplicit false

/-! # Rules for ticks

What holds of every call of a tick is shown part by part: for the dispatch of an event, for an entry
that was delivered, for the retries. `tick_throughout` puts the parts together. -/

namespace TrustGate.Market

open Resumption

/-- The calls that are made between the start of a dispatch and its record. -/
def Op.dispatched : Op → Bool
  | .findTask _ => true
  | .findBids _ => true
  | .releaseMilestone _ => true
  | .saveTask _ => true
  | .randomUUID => true
  | .insertEvent _ => true
  | .dateNow => true
  | .postJson _ _ => true
  | .markSucceeded _ _ => true
  | .markFailed _ _ _ _ => true
  | _ => false

section

variable {cfg : Settings} {T : Op → Prop}

/-- A completion does not call a webhook. -/
theorem only_completion (hT : ∀ o, o.dispatched = true → (∀ url body, o ≠ .postJson url body) → T o)
    (eventId : String) (payload : Json) : Only T (handleTaskCompletionRequested eventId payload) := by
  unfold handleTaskCompletionRequested
  split_ifs
  · exact .throw _
  dsimp only
  split_ifs
  · exact .throw _
  refine .bind (.call (hT _ rfl (by simp))) fun task => ?_
  cases task with
  | none => exact .throw _
  | some task =>
      dsimp only
      split_ifs
      · exact .pure _
      · exact .throw _
      refine .bind (.call (hT _ rfl (by simp))) fun bids => ?_
      cases winningBid bids with
      | none => exact .throw _
      | some winner =>
          exact .bind (.call (hT _ rfl (by simp))) fun _ => .bind (.call (hT _ rfl (by simp)))
            fun _ => .bind (.call (hT _ rfl (by simp))) fun _ => .call (hT _ rfl (by simp))

theorem only_publishedAtOf (hT : T .dateNow) (payload : Json) : Only T (publishedAtOf payload) := by
  unfold publishedAtOf
  split
  · exact .bind (.call hT) fun _ => .pure _
  · exact .bind (.call hT) fun _ => .pure _
  · exact .pure _

theorem only_dispatch (hT : ∀ o, o.dispatched = true → T o) (eventId type : String)
    (payload : Json) : Only T (dispatch cfg eventId type payload) := by
  unfold dispatch
  split_ifs
  · exact only_completion (fun o ho _ => hT o ho) _ _
  · unfold handleResultPublished
    split
    · exact .pure _
    split_ifs
    · exact .throw _
    refine .bind (only_publishedAtOf (hT _ rfl) _) fun publishedAt => ?_
    split_ifs
    · exact .throw _
    · exact .call (hT _ rfl)
  · exact .pure _

theorem only_dispatching (hT : ∀ o, o.dispatched = true → T o)
    (handlerName consumedId eventId type : String) (payload : Json) (attempts : Nat) :
    Only T (dispatchStarted cfg handlerName consumedId eventId type payload attempts) := by
  refine .bind (.attempt (.bind (only_dispatch hT _ _ _) fun _ => .call (hT _ rfl))) fun result => ?_
  cases result with
  | ok _ => exact .pure _
  | error e => exact .bind (.bind (.call (hT _ rfl)) fun _ => .pure _) fun _ => .call (hT _ rfl)

end

/-! ## The parts of a tick -/

section

variable {cfg : Settings} {P : Hist → Op → Prop}

/-- Entries that were just delivered. -/
theorem handleEntries_throughout (hentry : ∀ e h, (∃ d ∈ h, e ∈ entriesRead d) →
      Ensures P (fun _ _ => True) (handleEntry cfg e) h)
    {h : Hist} {d : Done Op Reply} (entries : List StreamEntry) (hread : entriesRead d = entries)
    (hd : d ∈ h) : Ensures P (fun _ _ => True) (forEach (handleEntry cfg) entries) h := by
  refine ensures_forEach_known (K := fun h => d ∈ h) (fun _ _ hs hd => hs.subset hd) entries ?_ hd
  exact fun e he h hd => hentry e h ⟨d, hd, hread ▸ he⟩

/-- **What holds of every call of a tick.** -/
theorem tick_throughout (hpublish : Throughout P publishOnce)
    (hclaim : ∀ h cursor count, P h (.xAutoClaim cfg.consumerName cursor count))
    (hpoll : ∀ h count, P h (.xReadGroup cfg.consumerName count))
    (hentry : ∀ e h, (∃ d ∈ h, e ∈ entriesRead d) →
      Ensures P (fun _ _ => True) (handleEntry cfg e) h)
    (hdue : ∀ h handlerName limit, P h (.listDueRetries handlerName limit))
    (hretry : ∀ record, Throughout P (retryRecord cfg record)) (claimCursor : Nat) :
    Throughout P (tick cfg claimCursor) := by
  have hautoClaim : Throughout P (autoClaimOnce cfg claimCursor) := by
    intro h
    unfold autoClaimOnce
    rw [ensures_call_bind]
    refine ⟨hclaim h _ _, fun claimed => ?_, fun _ => trivial⟩
    exact handleEntries_throughout hentry claimed.2 rfl List.mem_cons_self
  have hpollOnce : Throughout P (pollOnce cfg) := by
    intro h
    unfold pollOnce
    rw [ensures_call_bind]
    refine ⟨hpoll h _, fun entries => ?_, fun _ => trivial⟩
    exact handleEntries_throughout hentry entries rfl List.mem_cons_self
  have hretryDue : ∀ handlerName, Throughout P (retryDue cfg handlerName) := fun handlerName =>
    .bind (fun h => ⟨hdue h _ _, fun _ => trivial⟩) fun due => .forEach hretry due
  unfold tick
  refine .bind hpublish fun _ => ?_
  split_ifs
  · exact .pure _
  · exact .bind hautoClaim fun _ => .bind hpollOnce fun _ => .forEach hretryDue _

end

end TrustGate.Market
