import TrustGate.Market.Money
import TrustGate.Market.Picked
import TrustGate.Market.Recorded

set_option autoImplicit false

/-! # Where settled collateral comes from

The collateral of an executor is locked by one request, its bid wins in an auction that another one
may hold, and a third process settles the escrow, from rows that were copied and written back in
between. Each settlement can still be traced back: to the auction that was won, and from there to
the request that locked the collateral (`Hired`). A confiscation asks for just the amount that was
locked then. -/

namespace TrustGate.Market

open Resumption

/-! ## Placed bids -/

theorem Placed.asPlaced {cfg : Settings} {b : CreateBidBody} {task : Task} {bid : Bid}
    (h : Placed cfg b task bid) : Placed cfg b task bid.asPlaced :=
  ⟨h.opened, h.allowed, rfl, h.task, h.executor, h.amount, h.collateral⟩

/-- A request with the body `b` has placed the bid, but for its status, and before that has locked
the collateral in the escrow that the bid names. -/
def LockedFor (jobs : Nat → Option Job) (t : Trace Op Reply) (b : CreateBidBody) (bid : Bid) :
    Prop :=
  ∃ pid cfg task, jobs pid = some (.createBid cfg (.ok b)) ∧
    escrowed b task bid.escrowId <:+ own pid t ∧ Placed cfg b task bid.asPlaced

/-- The bid was the winner of an auction, and is saved as such: the process had read its task as
open, with bids of which this is the best one, and had assigned the task. -/
def Hired (jobs : Nat → Option Job) (t : Trace Op Reply) (b : CreateBidBody) (bid : Bid) : Prop :=
  ∃ pid task bids winner h earlier r,
    ⟨pid, .saveBid { winner with status := .selected }, r⟩ :: earlier <:+ t ∧
    own pid earlier = assigned bid.taskId task bids h ∧ task.id = bid.taskId ∧
    Auction task bids winner ∧ winner.asPlaced = bid.asPlaced ∧ LockedFor jobs earlier b bid

section

variable {jobs jobs' : Nat → Option Job} {t t' : Trace Op Reply} {pid : Nat} {b : CreateBidBody}
  {bid bid' : Bid}

theorem LockedFor.mono (hjobs : ∀ pid j, jobs pid = some j → jobs' pid = some j) (ht : t <:+ t')
    (h : LockedFor jobs t b bid) : LockedFor jobs' t' b bid := by
  obtain ⟨pid, cfg, task, hj, hs, hplaced⟩ := h
  exact ⟨pid, cfg, task, hjobs _ _ hj, hs.trans (own_mono pid ht), hplaced⟩

theorem LockedFor.congr (heq : bid.asPlaced = bid'.asPlaced) (h : LockedFor jobs t b bid) :
    LockedFor jobs t b bid' := by
  obtain ⟨pid, cfg, task, hj, hs, hplaced⟩ := h
  have hescrow : bid.asPlaced.escrowId = bid'.asPlaced.escrowId := by rw [heq]
  refine ⟨pid, cfg, task, hj, ?_, heq ▸ hplaced⟩
  rwa [show bid'.escrowId = bid.escrowId from hescrow.symm]

theorem Hired.mono (hjobs : ∀ pid j, jobs pid = some j → jobs' pid = some j) (ht : t <:+ t')
    (h : Hired jobs t b bid) : Hired jobs' t' b bid := by
  obtain ⟨pid, task, bids, winner, h, earlier, r, hs, hown, hid, auction, heq, hlocked⟩ := h
  exact ⟨pid, task, bids, winner, h, earlier, r, hs.trans ht, hown, hid, auction, heq,
    hlocked.mono hjobs List.suffix_rfl⟩

/-- The collateral of a bid that was hired is the one in the request. -/
theorem Hired.collateral (h : Hired jobs t b bid) :
    parseUsdcDecimalToStroops b.collateral = .ok bid.collateralStroops := by
  obtain ⟨pid, task, bids, winner, h, earlier, r, -, -, -, -, -, hlocked⟩ := h
  obtain ⟨pid', cfg, task', -, -, hplaced⟩ := hlocked
  exact hplaced.collateral

/-- A request that places a bid has locked the collateral for it. -/
theorem Places.locked {j : Job} (hp : Places j (own pid t) bid) (hjob : jobs pid = some j) :
    ∃ b, LockedFor jobs t b bid := by
  obtain ⟨cfg, b, task, rfl, valid, hown⟩ := hp
  refine ⟨b, pid, cfg, task, hjob, ?_, valid.asPlaced⟩
  rw [hown]
  exact (List.suffix_cons _ _).trans (List.suffix_cons _ _)

end

/-! ## Runs -/

/-- Every copy of a bid has its collateral locked, and every selected one was hired. -/
structure Trailed (jobs : Nat → Option Job) (m : Store) (t : Trace Op Reply) : Prop where
  sound : Sound m t
  locked : ∀ bid ∈ bidCopies m t, ∃ b, LockedFor jobs t b bid
  hired : ∀ bid ∈ bidCopies m t, bid.status = .selected → ∃ b, Hired jobs t b bid

theorem Trailed.initial {jobs : Nat → Option Job} {m : Store} (tasks : m.tasks = [])
    (bids : m.bids = []) : Trailed jobs m [] := by
  have hnone : ∀ bid, bid ∉ bidCopies m [] := by
    rintro bid (hb | ⟨c, hc, -⟩)
    · rw [bids] at hb
      cases hb
    · cases hc
  exact ⟨.initial tasks bids, fun bid hb => absurd hb (hnone bid), fun bid hb =>
    absurd hb (hnone bid)⟩

section

variable {jobs jobs' : Nat → Option Job} {o : Op} {c : Outcome} {m m' : Store} {r : Reply o}
  {t : Trace Op Reply} {pid : Nat} {j : Job}

theorem Trailed.more (hjobs : ∀ pid j, jobs pid = some j → jobs' pid = some j)
    (h : Trailed jobs m t) : Trailed jobs' m t := by
  refine ⟨h.sound, fun bid hb => ?_, fun bid hb hstatus => ?_⟩
  · obtain ⟨b, hlocked⟩ := h.locked bid hb
    exact ⟨b, hlocked.mono hjobs List.suffix_rfl⟩
  · obtain ⟨b, hhired⟩ := h.hired bid hb hstatus
    exact ⟨b, hhired.mono hjobs List.suffix_rfl⟩

/-- Saving a bid as selected makes it one that was hired, in every copy that comes of it. -/
theorem Trailed.award (h : Trailed jobs m t) {row bid : Bid}
    (hc : j.Calls (own pid t) (.saveBid row)) (hstatus : row.status = .selected)
    (hrow : bid = row ∨ ∃ old ∈ m.bids, old.id = row.id ∧ bid = Store.mergeBid m.backend old row)
    (r : Reply (.saveBid row)) : ∃ b, Hired jobs (⟨pid, .saveBid row, r⟩ :: t) b bid := by
  obtain ⟨taskId, task, bids, winner, h', hown, auction, rfl⟩ := Job.savesSelected hc hstatus
  have hfind : (⟨.findTask taskId, .ok (some task)⟩ : Done Op Reply) ∈ own pid t := by
    rw [hown]
    simp [assigned, read]
  have hbids : (⟨.findBids taskId, .ok bids⟩ : Done Op Reply) ∈ own pid t := by
    rw [hown]
    simp [assigned, read]
  have hmem : winner ∈ bids := List.mem_of_mem_filter (auctionWinner_mem auction.won)
  have hwinner : winner ∈ bidCopies m t := mem_bidCopies_of_own hbids hmem
  have heq : winner.asPlaced = bid.asPlaced := by
    rcases hrow with rfl | ⟨old, hold, hid, rfl⟩
    · rfl
    · have hsame : old.asPlaced = winner.asPlaced := h.sound.bid_eq (.inl hold) hwinner hid
      exact (@mergeBid_asPlaced m.backend old { winner with status := .selected } hsame).symm
  -- the task and the bids that were read are those of `taskId`, which is the task of the bid
  have htask : taskId = bid.taskId := by
    have hasked := h.sound.answered.bids pid taskId bids (mem_own.mp hbids) winner hmem
    have hsame : winner.asPlaced.taskId = bid.asPlaced.taskId := congrArg Bid.taskId heq
    exact hasked.symm.trans hsame
  have hid : task.id = taskId := h.sound.answered.task pid taskId task (mem_own.mp hfind)
  subst htask
  obtain ⟨b, hlocked⟩ := h.locked winner hwinner
  exact ⟨b, pid, task, bids, winner, h', t, r, List.suffix_rfl, hown, hid, auction, heq,
    hlocked.congr heq⟩

theorem Trailed.call (h : Trailed jobs m t) (hjob : jobs pid = some j) (hc : j.Calls (own pid t) o)
    (hx : exec o c m = some (r, m')) : Trailed jobs m' (⟨pid, o, r⟩ :: t) := by
  have hgrown : t <:+ ⟨pid, o, r⟩ :: t := List.suffix_cons _ _
  refine ⟨h.sound.call hc hx, fun bid hb => ?_, fun bid hb hstatus => ?_⟩
  · rcases bid_twin h.sound.alike h.sound.identified hc hx hb with
      ⟨old, hold, -, heq⟩ | ⟨-, hplaces⟩
    · obtain ⟨b, hlocked⟩ := h.locked old hold
      exact ⟨b, (hlocked.congr heq).mono (fun _ _ hj => hj) hgrown⟩
    · obtain ⟨b, hlocked⟩ := hplaces.locked hjob
      exact ⟨b, hlocked.mono (fun _ _ hj => hj) hgrown⟩
  · rcases bidCopies_call hx hb with hold | ⟨row, rfl, hrow⟩
    · obtain ⟨b, hhired⟩ := h.hired bid hold hstatus
      exact ⟨b, hhired.mono (fun _ _ hj => hj) hgrown⟩
    · refine h.award hc ?_ hrow r
      rcases hrow with rfl | ⟨old, -, -, rfl⟩
      · exact hstatus
      · rwa [Store.mergeBid_status] at hstatus

end

/-! ## Settlements -/

/-- What stands behind a call of `pid` that settles an escrow: it has just read the selected bid of
a task, which was hired. A release is for an assigned task or one that completes. A confiscation is
for a task that was assigned, and overdue, when the sweep looked, and it asks for the amount that
was locked. -/
inductive Backing (jobs : Nat → Option Job) (t : Trace Op Reply) (pid : Nat) : Op → Prop
  | release (task : Task) (bids : List Bid) (winner : Bid) (b : CreateBidBody) (h : Hist)
      (past : own pid t = read task.id task bids h)
      (status : task.status = .assigned ∨ task.status = .completing)
      (selected : winningBid bids = some winner) (ofTask : winner.taskId = task.id)
      (hired : Hired jobs t b winner) : Backing jobs t pid (.releaseMilestone winner.escrowId)
  | confiscate (now : Nat) (tasks : List Task) (task : Task) (bids : List Bid) (winner : Bid)
      (b : CreateBidBody) (h : Hist) (amount : String)
      (past : own pid t = ⟨.findBids task.id, .ok bids⟩ :: h) (snapshot : Snapshot h now tasks)
      (listed : task ∈ tasks) (status : task.status = .assigned) (overdue : task.deadline < now)
      (selected : winningBid bids = some winner) (ofTask : winner.taskId = task.id)
      (hired : Hired jobs t b winner)
      (locked : parseUsdcDecimalToStroops amount = parseUsdcDecimalToStroops b.collateral) :
      Backing jobs t pid (.confiscate winner.escrowId amount)

theorem Backing.more {jobs jobs' : Nat → Option Job} {t : Trace Op Reply} {pid : Nat} {o : Op}
    (hjobs : ∀ pid j, jobs pid = some j → jobs' pid = some j) (h : Backing jobs t pid o) :
    Backing jobs' t pid o := by
  cases h with
  | release task bids winner b h past status selected ofTask hired =>
      exact .release task bids winner b h past status selected ofTask
        (hired.mono hjobs List.suffix_rfl)
  | confiscate now tasks task bids winner b h amount past snapshot listed status overdue selected
      ofTask hired locked =>
      exact .confiscate now tasks task bids winner b h amount past snapshot listed status overdue
        selected ofTask (hired.mono hjobs List.suffix_rfl) locked

theorem Trailed.winner {jobs : Nat → Option Job} {m : Store} {t : Trace Op Reply} {pid : Nat}
    {taskId : String} {bids : List Bid} {winner : Bid} (h : Trailed jobs m t)
    (hread : (⟨.findBids taskId, .ok bids⟩ : Done Op Reply) ∈ own pid t)
    (hwin : winningBid bids = some winner) :
    winner.taskId = taskId ∧ ∃ b, Hired jobs t b winner := by
  have hmem : winner ∈ bids := List.mem_of_find?_eq_some hwin
  refine ⟨h.sound.answered.bids pid taskId bids (mem_own.mp hread) winner hmem, ?_⟩
  exact h.hired winner (mem_bidCopies_of_own hread hmem) (by simpa using List.find?_some hwin)

theorem Trailed.backing {jobs : Nat → Option Job} {m : Store} {t : Trace Op Reply} {pid : Nat}
    {j : Job} {o : Op} {e : String} (h : Trailed jobs m t) (hc : j.Calls (own pid t) o)
    (S : Settling) (ho : S.escrow o = some e) : Backing jobs t pid o := by
  cases S with
  | release =>
      cases o with
      | releaseMilestone e' =>
          obtain ⟨taskId, task, bids, winner, h', hown, hwin, rfl, hjob⟩ := Job.releases hc
          have hfind : (⟨.findTask taskId, .ok (some task)⟩ : Done Op Reply) ∈ own pid t := by
            rw [hown]
            simp [read]
          have hbids : (⟨.findBids taskId, .ok bids⟩ : Done Op Reply) ∈ own pid t := by
            rw [hown]
            simp [read]
          obtain rfl := h.sound.answered.task pid taskId task (mem_own.mp hfind)
          obtain ⟨htask, b, hhired⟩ := h.winner hbids hwin
          refine .release task bids winner b h' hown ?_ hwin htask hhired
          rcases hjob with ⟨cfg, cursor, -, hcompleting⟩ | ⟨cfg, body, -, admitted⟩
          · exact .inr hcompleting
          · exact .inl admitted.assigned
      | _ => cases ho
  | confiscation =>
      cases o with
      | confiscate e' amount =>
          generalize hown : own pid t = past at hc
          cases Job.commits hc rfl with
          | select cfg taskId h o call => cases call
          | bidSelect cfg b h o call => cases call
          | confiscate cfg now tasks task bids winner h' snapshot mem selected =>
              have hbids : (⟨.findBids task.id, .ok bids⟩ : Done Op Reply) ∈ own pid t := by
                rw [hown]
                exact List.mem_cons_self
              obtain ⟨htask, b, hhired⟩ := h.winner hbids selected
              obtain ⟨hlisted, hdue⟩ := List.mem_filter.mp mem
              obtain ⟨hstatus, hlate⟩ := of_decide_eq_true hdue
              refine .confiscate now tasks task bids winner b h' _ hown snapshot hlisted hstatus
                hlate selected htask hhired ?_
              rw [parse_format, hhired.collateral]
      | _ => cases ho

/-- **Every settlement can be traced back** to the auction that was won and to the request that
locked the collateral, from empty tables, whatever runs, fails or crashes. -/
theorem settlements_traced (m : Store) (tasks : m.tasks = []) (bids : m.bids = [])
    (sched : List (Act Job Outcome)) :
    let cfg := runSched market (.initial m) sched
    ∀ c earlier, c :: earlier <:+ cfg.trace → ∀ (S : Settling) (e : String),
      S.escrow c.op = some e → Backing cfg.jobOf earlier c.pid c.op := by
  intro cfg
  have h : Trailed cfg.jobOf cfg.state cfg.trace ∧ EachCall (fun earlier c =>
      ∀ (S : Settling) (e : String), S.escrow c.op = some e →
        Backing cfg.jobOf earlier c.pid c.op) cfg.trace := by
    refine (runSched_authored (I := fun jobs m t => Trailed jobs m t ∧ EachCall (fun earlier c =>
      ∀ (S : Settling) (e : String), S.escrow c.op = some e → Backing jobs earlier c.pid c.op) t)
      (Q := Job.Ended) (R := .any) (fun j _ => body_follows j) ?_ ?_ sched (.initial m)
      ⟨.initial tasks bids, trivial⟩ (.initial m) (meets_any _ sched _)).1
    · rintro jobs jobs' m t hjobs ⟨htrailed, hbacked⟩
      refine ⟨htrailed.more hjobs, eachCall_of_at fun c earlier hs S e he => ?_⟩
      exact (hbacked.at hs S e he).more hjobs
    · rintro jobs m t pid j o c r m' ⟨htrailed, hbacked⟩ hjob - hc - hx
      exact ⟨htrailed.call hjob hc hx, fun S e he => htrailed.backing hc S he, hbacked⟩
  exact fun c earlier hs => h.2.at hs

theorem confiscation_traced :
    let cfg := runSched market (.initial emptyStore)
      (creates 0 "t" ++ bidsAt 1 "1" "b" "e" 1 ++ sweepsAt 2 12)
    times .confiscation "e" cfg.trace = 1 ∧
    ∀ c earlier, c :: earlier <:+ cfg.trace → ∀ (S : Settling) (e : String),
      S.escrow c.op = some e → Backing cfg.jobOf earlier c.pid c.op :=
  ⟨by decide +kernel, settlements_traced emptyStore rfl rfl _⟩

end TrustGate.Market
