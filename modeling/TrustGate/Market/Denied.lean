import TrustGate.Market.Requested

set_option autoImplicit false

/-! # Denied executors and releases

A completion request checks the denylist before it goes on, but the release it asks for may be made
by a worker, long after it and under another denylist, and the worker does not look. Escrows of
denied executors stay where they are in the runs in which no worker comes upon such a bid. -/

namespace TrustGate.Market

open Resumption

/-- The settings of the process that runs the job. -/
def Job.settings : Job → Settings
  | .createTask cfg _ => cfg
  | .createPaid cfg _ => cfg
  | .select cfg _ => cfg
  | .complete cfg _ _ => cfg
  | .createBid cfg _ => cfg
  | .publishResult cfg _ _ _ => cfg
  | .runOnce cfg => cfg
  | .tick cfg _ => cfg

/-- If the call releases an escrow, it is the one of the bid in hand, and the executor of that bid is
not on the denylist. -/
def ReleasesAllowed (denylist : List String) (h : Hist) : Op → Prop
  | .releaseMilestone e => ∃ bid ∈ bidInHand h, bid.escrowId = e ∧ bid.executorPublicKey ∉ denylist
  | _ => True

instance (denylist : List String) (h : Hist) : DecidablePred (ReleasesAllowed denylist h) := by
  intro o
  apply Op.casesOn (motive := fun o => Decidable (ReleasesAllowed denylist h o)) o <;> intros <;>
    unfold ReleasesAllowed <;> infer_instance

/-- No release is made for a bid whose executor is on the denylist of the process that makes it. -/
def NeverReleasesDenied (cfg : Config Op Reply Job Store) : Prop :=
  EachCall (fun earlier c => ∀ j ∈ cfg.jobOf c.pid,
    ReleasesAllowed j.settings.executorDenylist (own c.pid earlier) c.op) cfg.trace

instance (cfg : Config Op Reply Job Store) : Decidable (NeverReleasesDenied cfg) :=
  inferInstanceAs (Decidable (EachCall _ _))

/-- A worker comes upon a bid of a denied executor: it has read a task as `COMPLETING`, and among the
bids of the task that it reads now, the selected one is by an executor on its denylist. -/
def FindsDenied (j : Job) (h : Hist) (d : Done Op Reply) : Prop :=
  match j, h, d with
  | .tick cfg _, ⟨.findTask _, .ok (some task)⟩ :: _, ⟨.findBids _, .ok bids⟩ =>
      task.status = .completing ∧ ∃ bid ∈ winningBid bids, bid.executorPublicKey ∈ cfg.executorDenylist
  | _, _, _ => False

instance (j : Job) (h : Hist) (d : Done Op Reply) : Decidable (FindsDenied j h d) := by
  unfold FindsDenied
  split <;> infer_instance

/-- No worker comes upon a bid of an executor that it should deny. -/
def NeverFindsDenied (cfg : Config Op Reply Job Store) : Prop :=
  EachCall (fun earlier c => ∀ j ∈ cfg.jobOf c.pid,
    ¬ FindsDenied j (own c.pid earlier) ⟨c.op, c.reply⟩) cfg.trace

instance (cfg : Config Op Reply Job Store) : Decidable (NeverFindsDenied cfg) :=
  inferInstanceAs (Decidable (EachCall _ _))

/-- **Denied executors are not released** in a run in which no worker comes upon a bid of one, from
any store, with any denylists, faults and crashes. -/
theorem denied_never_released (m : Store) (sched : List (Act Job Outcome))
    (unseen : NeverFindsDenied (runSched market (.initial m) sched)) :
    NeverReleasesDenied (runSched market (.initial m) sched) := by
  have hcalls := runSched_explained (R := .any) (Q := Job.Ended) m sched (meets_any market sched _)
    fun j _ => body_follows j
  refine eachCall_of_at fun c earlier hs j hj => ?_
  obtain ⟨j', hj', -, hc⟩ := hcalls.at hs
  cases Option.some.inj (hj'.symm.trans hj)
  obtain ⟨pid, o, r⟩ := c
  cases o with
  | releaseMilestone e =>
      obtain ⟨taskId, task, bids, winner, h, hown, hwin, he, hauth⟩ := Job.releases hc
      refine ⟨winner, ?_, he, ?_⟩
      · rw [hown]
        exact hwin
      · rcases hauth with ⟨cfg, cursor, rfl, hcompleting⟩ | ⟨cfg, body, rfl, admitted⟩
        · -- the worker read the bids right before, after the task
          obtain ⟨before, hbefore, hpast⟩ := exists_call_of_own hown
          have hfinds := unseen.at (hbefore.trans ((List.suffix_cons _ _).trans hs)) _ hj
          rw [hpast] at hfinds
          exact fun hdenied => hfinds ⟨hcompleting, winner, hwin, hdenied⟩
        · exact admitted.allowed
  | _ => trivial

/-- A worker that has been restarted with the denylist `denylist` handles the oldest event. -/
def settlesUnder (denylist : List String) (pid : Nat) : List (Act Job Outcome) :=
  .spawn (.tick { executorDenylist := denylist } 0) :: List.replicate 9 (goes pid)

theorem other_executor_denied :
    let cfg := runSched market (.initial emptyStore)
      (creates 0 "t" ++ bidsAt 1 "1" "b" "e" 1 ++ requests 2 ++ settlesUnder ["X"] 3)
    times .release "e" cfg.trace = 1 ∧ NeverReleasesDenied cfg :=
  ⟨by decide +kernel, denied_never_released emptyStore _ (by decide +kernel)⟩

/-- The executor is put on the denylist between the request and the release. -/
theorem worker_releases_denied :
    ¬ NeverReleasesDenied (runSched market (.initial emptyStore)
      (creates 0 "t" ++ bidsAt 1 "1" "b" "e" 1 ++ requests 2 ++ settlesUnder ["E"] 3)) := by
  decide +kernel

end TrustGate.Market
