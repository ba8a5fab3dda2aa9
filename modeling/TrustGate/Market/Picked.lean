import TrustGate.Market.Requested

set_option autoImplicit false

/-! # Which bids are selected

An auction compares the pending bids of a task with each other and with nothing else: not with the
reserve price of the task, nor with its deadline. What is known of a selected bid, then or ever
after, is what the auction knew when it read the bids. -/

namespace TrustGate.Market

open Resumption

/-! ## The winner of an auction -/

/-- `a` is cheaper than `b`, or as cheap and not younger. -/
def Bid.Beats (a b : Bid) : Prop :=
  a.amountStroops < b.amountStroops ∨
    a.amountStroops = b.amountStroops ∧ a.createdAt ≤ b.createdAt

theorem Bid.Beats.refl (a : Bid) : a.Beats a := .inr ⟨rfl, Nat.le_refl _⟩

theorem Bid.Beats.trans {a b c : Bid} (hab : a.Beats b) (hbc : b.Beats c) : a.Beats c := by
  unfold Bid.Beats at *
  omega

theorem better_beats (lowest bid : Bid) :
    (better lowest bid).Beats lowest ∧ (better lowest bid).Beats bid := by
  unfold better
  split_ifs with hcheaper holder
  · exact ⟨.inl hcheaper, .refl bid⟩
  · exact ⟨.inr ⟨holder.1, Nat.le_of_lt holder.2⟩, .refl bid⟩
  · refine ⟨.refl lowest, ?_⟩
    unfold Bid.Beats
    omega

theorem lowestBid_beats (first : Bid) (rest : List Bid) :
    ∀ bid ∈ first :: rest, (lowestBid first rest).Beats bid := by
  unfold lowestBid
  induction rest generalizing first with
  | nil =>
      intro bid hbid
      rw [List.mem_singleton.mp hbid]
      exact .refl first
  | cons next rest ih =>
      intro bid hbid
      obtain ⟨hfirst, hnext⟩ := better_beats first next
      have hbetter := ih (better first next) _ List.mem_cons_self
      rcases List.mem_cons.mp hbid with rfl | hbid
      · exact hbetter.trans hfirst
      · rcases List.mem_cons.mp hbid with rfl | hbid
        · exact hbetter.trans hnext
        · exact ih _ bid (List.mem_cons_of_mem _ hbid)

/-- The winner of an auction beats every pending bid. -/
theorem auctionWinner_beats {bids : List Bid} {winner : Bid} (h : auctionWinner bids = some winner) :
    ∀ bid ∈ pendingBids bids, winner.Beats bid := by
  unfold auctionWinner at h
  split at h
  · cases h
  · rename_i first rest hp
    cases h
    rw [hp]
    exact lowestBid_beats first rest

/-! ## What an auction knew -/

/-- The task the process has just read as `OPEN`. -/
def openInHand : Hist → Option Task
  | ⟨.findTask _, .ok (some task)⟩ :: _ => if task.status = .open then some task else none
  | _ => none

/-- If the call reads the bids of a task for an auction, the pending ones satisfy `fit`. -/
def AuctionFits (fit : Task → List Bid → Prop) (m : Store) (t : Trace Op Reply) (pid : Nat) (o : Op)
    (c : Outcome) : Prop :=
  match o, openInHand (own pid t) with
  | .findBids taskId, some task => c.fault = .none → fit task (pendingBids (m.findBids taskId))
  | _, _ => True

instance (fit : Task → List Bid → Prop) [∀ task bids, Decidable (fit task bids)] (m : Store)
    (t : Trace Op Reply) (pid : Nat) (o : Op) (c : Outcome) :
    Decidable (AuctionFits fit m t pid o c) := by
  apply Op.casesOn (motive := fun o => Decidable (AuctionFits fit m t pid o c)) o <;> intros <;>
    unfold AuctionFits <;> first | infer_instance | (split <;> infer_instance)

/-- All jobs, with any faults and crashes; the bids in an auction satisfy `fit`. -/
abbrev fairAuctions (fit : Task → List Bid → Prop) : Regime Op Reply Job Outcome Store :=
  ⟨fun _ => True, AuctionFits fit, True⟩

/-- The winner of each auction that was read, whether it was ever selected or not, satisfies `G`. -/
def WinnersFit (G : Task → Bid → Prop) : Trace Op Reply → Prop :=
  EachCall fun earlier c => ∀ task ∈ openInHand (own c.pid earlier),
    ∀ winner ∈ auctionWinner (bidsRead ⟨c.op, c.reply⟩), G task winner

/-- A property of a task and a bid that does not depend on their statuses. -/
def Lasting (G : Task → Bid → Prop) : Prop :=
  ∀ task task' bid bid', task.asCreated = task'.asCreated → bid.asPlaced = bid'.asPlaced →
    G task bid → G task' bid'

/-- **Who saves a bid as `SELECTED`**, and what it has read. -/
theorem Job.savesSelected {j : Job} {h : Hist} {row : Bid} (hc : j.Calls h (.saveBid row))
    (hrow : row.status = .selected) :
    ∃ taskId task bids winner h', h = assigned taskId task bids h' ∧ Auction task bids winner ∧
      row = { winner with status := .selected } := by
  have selects : ∀ taskId, SelectCall taskId h (.saveBid row) →
      ∃ taskId task bids winner h', h = assigned taskId task bids h' ∧ Auction task bids winner ∧
        row = { winner with status := .selected } := by
    intro taskId hc
    cases hc with
    | award task bids winner h auction => exact ⟨taskId, task, bids, winner, h, rfl, auction, rfl⟩
    | reject => cases hrow
  cases Job.commits hc rfl with
  | select cfg taskId h o call => exact selects taskId call
  | bidSelect cfg b h o call => exact selects b.taskId call
  | bid cfg b task bid valid => rw [valid.pending] at hrow; cases hrow

/-! ## Runs -/

/-- Every copy of a selected bid satisfies `G` with a copy of its task. -/
structure Picked (G : Task → Bid → Prop) (m : Store) (t : Trace Op Reply) : Prop where
  sound : Sound m t
  fits : WinnersFit G t
  selected : ∀ bid ∈ bidCopies m t, bid.status = .selected → ∃ pid taskId task,
    ⟨pid, .findTask taskId, .ok (some task)⟩ ∈ t ∧ task.id = bid.taskId ∧ G task bid

theorem Picked.initial {G : Task → Bid → Prop} {m : Store} (tasks : m.tasks = [])
    (bids : m.bids = []) : Picked G m [] where
  sound := .initial tasks bids
  fits := trivial
  selected := by
    rintro bid (hb | ⟨c, hc, -⟩)
    · rw [bids] at hb
      cases hb
    · cases hc

section

variable {G : Task → Bid → Prop} {o : Op} {c : Outcome} {m m' : Store} {r : Reply o}
  {t : Trace Op Reply} {pid : Nat} {j : Job}

/-- A copy of a bid is a copy of the bid of a task that is stored. -/
theorem Picked.task (h : Picked G m t) (hG : Lasting G) {bid : Bid} (hb : bid ∈ bidCopies m t)
    (hstatus : bid.status = .selected) {task : Task} (ht : task ∈ taskCopies m t)
    (hid : task.id = bid.taskId) : G task bid := by
  obtain ⟨p, taskId, read, hread, hid', hfit⟩ := h.selected bid hb hstatus
  have hcopy : read ∈ taskCopies m t := .inr ⟨_, hread, by simp [readsOf]⟩
  exact hG _ _ _ _ (h.sound.task_eq hcopy ht (hid'.trans hid.symm)) rfl hfit

/-- The bid that a selection saves as the winner. -/
theorem Picked.award (h : Picked G m t) (hG : Lasting G) {row : Bid}
    (hc : j.Calls (own pid t) (.saveBid row)) (hstatus : row.status = .selected) :
    ∃ p taskId task, ⟨p, .findTask taskId, .ok (some task)⟩ ∈ t ∧ task.id = row.taskId ∧
      G task row := by
  obtain ⟨taskId, task, bids, winner, h', hown, auction, rfl⟩ := Job.savesSelected hc hstatus
  have hfind : (⟨.findTask taskId, .ok (some task)⟩ : Done Op Reply) ∈ own pid t := by
    rw [hown]; simp [assigned, read]
  have hbids : (⟨.findBids taskId, .ok bids⟩ : Done Op Reply) ∈ own pid t := by
    rw [hown]; simp [assigned, read]
  -- the bids were read right after the task
  obtain ⟨t₁, hs₁, hown₁⟩ := exists_call_of_own hown
  obtain ⟨t₂, hs₂, hown₂⟩ := exists_call_of_own hown₁
  have hfit := h.fits.at (hs₂.trans ((List.suffix_cons _ _).trans hs₁)) task
    (by rw [hown₂]; simp [openInHand, auction.opened]) winner auction.won
  refine ⟨pid, taskId, task, mem_own.mp hfind, ?_, hG task task winner _ rfl rfl hfit⟩
  have hwinner : winner ∈ bids := List.mem_of_mem_filter (auctionWinner_mem auction.won)
  exact (h.sound.answered.task pid taskId task (mem_own.mp hfind)).trans
    (h.sound.answered.bids pid taskId bids (mem_own.mp hbids) winner hwinner).symm

theorem Picked.call (h : Picked G m t) (hG : Lasting G) (hc : j.Calls (own pid t) o)
    (hx : exec o c m = some (r, m'))
    (hfit : ∀ task ∈ openInHand (own pid t), ∀ winner ∈ auctionWinner (bidsRead ⟨o, r⟩),
      G task winner) : Picked G m' (⟨pid, o, r⟩ :: t) := by
  have later : ∀ {bid bid' : Bid}, bid.asPlaced = bid'.asPlaced →
      (∃ p taskId task, ⟨p, .findTask taskId, .ok (some task)⟩ ∈ t ∧ task.id = bid.taskId ∧
        G task bid) →
      ∃ p taskId task, ⟨p, .findTask taskId, .ok (some task)⟩ ∈ (⟨pid, o, r⟩ :: t : Trace Op Reply) ∧
        task.id = bid'.taskId ∧ G task bid' := by
    rintro bid bid' heq ⟨p, taskId, task, hmem, hid, hg⟩
    refine ⟨p, taskId, task, List.mem_cons_of_mem _ hmem, ?_, hG _ _ _ _ rfl heq hg⟩
    have htask : bid.asPlaced.taskId = bid'.asPlaced.taskId := by rw [heq]
    exact hid.trans htask
  refine ⟨h.sound.call hc hx, ⟨hfit, h.fits⟩, ?_⟩
  intro bid hb hstatus
  rcases bidCopies_call hx hb with hold | ⟨row, rfl, hrow⟩
  · exact later rfl (h.selected bid hold hstatus)
  · rcases hrow with rfl | ⟨old, hold, hid, rfl⟩
    · exact later rfl (h.award hG hc hstatus)
    · rcases Job.placesBid hc with hplaces | hback
      · exact absurd hid (h.sound.identified.bidCopies_ne hplaces.held (.inl hold))
      · -- the stored row and the copy that is written back are alike
        obtain ⟨copy, hcopy, hid', hplaced⟩ := hback.copy (m := m)
        have hold' : old.asPlaced = row.asPlaced :=
          (h.sound.bid_eq (.inl hold) hcopy (hid.trans hid'.symm)).trans hplaced
        rw [Store.mergeBid_status] at hstatus
        exact later (mergeBid_asPlaced hold').symm (h.award hG hc hstatus)

/-- An auction that fits has a winner that does. -/
theorem AuctionFits.winner {fit : Task → List Bid → Prop}
    (hfit : ∀ task bids winner, auctionWinner bids = some winner → fit task (pendingBids bids) →
      G task winner)
    (h : AuctionFits fit m t pid o c) (hx : exec o c m = some (r, m')) :
    ∀ task ∈ openInHand (own pid t), ∀ winner ∈ auctionWinner (bidsRead ⟨o, r⟩), G task winner := by
  intro task htask winner hwinner
  cases r with
  | error e => cases o <;> cases hwinner
  | ok v =>
      cases o with
      | findBids taskId =>
          unfold AuctionFits at h
          rw [htask] at h
          cases exec_ok hx
          exact hfit task _ winner hwinner (h (fault_of_ok hx))
      | _ => cases hwinner

end

/-- **The auction rule.** From empty tables, in a run whose auctions fit, every selected copy of a
bid satisfies `G` with its task. -/
theorem runSched_picked {G : Task → Bid → Prop} {fit : Task → List Bid → Prop} (hG : Lasting G)
    (hfit : ∀ task bids winner, auctionWinner bids = some winner → fit task (pendingBids bids) →
      G task winner)
    (m : Store) (tasks : m.tasks = []) (bids : m.bids = []) (sched : List (Act Job Outcome))
    (fits : Meets market (fairAuctions fit) (.initial m) sched) :
    Picked G (runSched market (.initial m) sched).state (runSched market (.initial m) sched).trace :=
  (runSched_rule (I := Picked G) (Q := Job.Ended) (R := fairAuctions fit)
    (fun j _ => body_follows j)
    (fun _ _ _ _ _ _ _ _ h _ hc hcall hx => h.call hG hc hx (hcall.winner hfit hx))
    sched _ (.initial tasks bids) (.initial m) fits).1

/-! ## The reserve price -/

/-- If there are bids at all, one of them is at or under the reserve price. -/
def WithinReserve (task : Task) (bids : List Bid) : Prop :=
  bids ≠ [] → ∃ bid ∈ bids, bid.amountStroops ≤ task.reservePriceStroops

instance (task : Task) (bids : List Bid) : Decidable (WithinReserve task bids) :=
  inferInstanceAs (Decidable (_ → _))

/-- The winner is at or under the reserve price exactly if some pending bid is. -/
theorem winner_within_reserve {task : Task} {bids : List Bid} {winner : Bid}
    (h : auctionWinner bids = some winner) :
    winner.amountStroops ≤ task.reservePriceStroops ↔ WithinReserve task (pendingBids bids) := by
  refine ⟨fun hw _ => ⟨winner, auctionWinner_mem h, hw⟩, fun hfit => ?_⟩
  obtain ⟨bid, hbid, hamount⟩ := hfit (List.ne_nil_of_mem (auctionWinner_mem h))
  have hbeats := auctionWinner_beats h bid hbid
  unfold Bid.Beats at hbeats
  omega

/-- Every selected bid is at or under the reserve price of its task. -/
def ReserveHonoured (m : Store) : Prop :=
  ∀ bid ∈ m.bids, bid.status = .selected → ∀ task ∈ m.tasks, task.id = bid.taskId →
    bid.amountStroops ≤ task.reservePriceStroops

instance (m : Store) : Decidable (ReserveHonoured m) :=
  inferInstanceAs (Decidable (∀ bid ∈ m.bids, _))

/-- **The reserve price is honoured** from empty tables in a run in which each auction has a bid at
or under it. -/
theorem reserve_honoured (m : Store) (tasks : m.tasks = []) (bids : m.bids = [])
    (sched : List (Act Job Outcome))
    (within : Meets market (fairAuctions WithinReserve) (.initial m) sched) :
    ReserveHonoured (runSched market (.initial m) sched).state := by
  have hlasting : Lasting fun task bid => bid.amountStroops ≤ task.reservePriceStroops := by
    intro task task' bid bid' htask hbid hle
    have hamount : bid.asPlaced.amountStroops = bid'.asPlaced.amountStroops := by rw [hbid]
    have hreserve : task.asCreated.reservePriceStroops = task'.asCreated.reservePriceStroops := by
      rw [htask]
    exact hreserve ▸ hamount ▸ hle
  have h := runSched_picked hlasting (fun _ _ _ hw => (winner_within_reserve hw).mpr) m tasks bids
    sched within
  intro bid hbid hstatus task ht hid
  exact h.task hlasting (.inl hbid) hstatus (.inl ht) hid

theorem cheap_bid_within_reserve :
    let m := (runSched market (.initial emptyStore)
      (creates 0 "t" ++ bidsAt 1 "0.8" "b" "e" 1)).state
    m.bids.map Bid.status = [.selected] ∧ ReserveHonoured m :=
  ⟨by decide +kernel, reserve_honoured emptyStore rfl rfl _ (by decide +kernel)⟩

/-- The only bid is above the reserve price, and wins. -/
theorem dear_bid_selected :
    ¬ ReserveHonoured (runSched market (.initial emptyStore)
      (creates 0 "t" ++ bidsAt 1 "1.5" "b" "e" 1)).state := by
  decide +kernel

/-! ## The deadline -/

/-- If there are bids at all, one of them was placed in time and is as cheap as each of those that
were placed too late. -/
def WithinTime (task : Task) (bids : List Bid) : Prop :=
  bids ≠ [] → ∃ bid ∈ bids, bid.createdAt ≤ task.deadline ∧
    ∀ late ∈ bids, task.deadline < late.createdAt → bid.amountStroops ≤ late.amountStroops

instance (task : Task) (bids : List Bid) : Decidable (WithinTime task bids) :=
  inferInstanceAs (Decidable (_ → _))

/-- The winner was placed in time exactly if a pending bid in time is as cheap as the late ones. -/
theorem winner_within_time {task : Task} {bids : List Bid} {winner : Bid}
    (h : auctionWinner bids = some winner) :
    winner.createdAt ≤ task.deadline ↔ WithinTime task (pendingBids bids) := by
  have hmem := auctionWinner_mem h
  have hbeats := auctionWinner_beats h
  constructor
  · intro hw _
    refine ⟨winner, hmem, hw, fun late hlate _ => ?_⟩
    have := hbeats late hlate
    unfold Bid.Beats at this
    omega
  · intro hfit
    obtain ⟨bid, hbid, htime, hlate⟩ := hfit (List.ne_nil_of_mem hmem)
    by_contra hw
    have hcheap := hlate winner hmem (Nat.lt_of_not_le hw)
    have hwins := hbeats bid hbid
    unfold Bid.Beats at hwins
    omega

/-- If the call confiscates a collateral, it is the one of the bid in hand, and that bid was placed
no later than the deadline of its task, which the process has read. -/
def ConfiscatesInTime (h : Hist) : Op → Prop
  | .confiscate e _ => ∃ bid ∈ bidInHand h, bid.escrowId = e ∧ lastRead bid.taskId h ≠ [] ∧
      ∀ task ∈ lastRead bid.taskId h, bid.createdAt ≤ task.deadline
  | _ => True

instance (h : Hist) : DecidablePred (ConfiscatesInTime h) := by
  intro o
  apply Op.casesOn (motive := fun o => Decidable (ConfiscatesInTime h o)) o <;> intros <;>
    unfold ConfiscatesInTime <;> infer_instance

def AllConfiscatedInTime (t : Trace Op Reply) : Prop :=
  EachCall (fun earlier c => ConfiscatesInTime (own c.pid earlier) c.op) t

instance (t : Trace Op Reply) : Decidable (AllConfiscatedInTime t) :=
  inferInstanceAs (Decidable (EachCall _ _))

/-- **Who confiscates a collateral**: a sweep, that of the winning bid it has just read, of a task
that was expired in its list. -/
theorem Job.confiscates {j : Job} {h : Hist} {e amount : String}
    (hc : j.Calls h (.confiscate e amount)) :
    (∃ cfg, j = .runOnce cfg) ∧ ∃ now tasks task bids winner h',
      h = ⟨.findBids task.id, .ok bids⟩ :: h' ∧ Snapshot h' now tasks ∧
      task ∈ expiredAssignedTasks now tasks ∧ winningBid bids = some winner ∧
      winner.escrowId = e := by
  cases Job.commits hc rfl with
  | select cfg taskId h o call => cases call
  | bidSelect cfg b h o call => cases call
  | confiscate cfg now tasks task bids winner h snapshot mem selected =>
      exact ⟨⟨cfg, rfl⟩, now, tasks, task, bids, winner, h, rfl, snapshot, mem, selected, rfl⟩

/-- The bid whose collateral a sweep is about to confiscate. -/
theorem Picked.confiscate {m : Store} {t : Trace Op Reply} {pid : Nat} {j : Job} {e amount : String}
    (h : Picked (fun task bid => bid.createdAt ≤ task.deadline) m t)
    (hG : Lasting fun task bid => bid.createdAt ≤ task.deadline)
    (hc : j.Calls (own pid t) (.confiscate e amount)) :
    ConfiscatesInTime (own pid t) (.confiscate e amount) := by
  obtain ⟨-, now, tasks, task, bids, winner, h', hown, hsnap, hexpired, hwin, he⟩ :=
    Job.confiscates hc
  have hbids : (⟨.findBids task.id, .ok bids⟩ : Done Op Reply) ∈ own pid t := by
    rw [hown]; simp
  have hmem : winner ∈ bids := List.mem_of_find?_eq_some hwin
  have htask : winner.taskId = task.id :=
    h.sound.answered.bids pid task.id bids (mem_own.mp hbids) winner hmem
  have hread : task ∈ lastRead task.id (own pid t) := by
    rw [hown]
    exact mem_lastRead_cons rfl (hsnap.mem_lastRead hexpired)
  -- the task was read by the sweep itself, and the bid was picked in an auction that fits
  refine ⟨winner, by rw [hown]; exact hwin, he, ?_, ?_⟩
  · rw [htask]
    exact List.ne_nil_of_mem hread
  · intro row hrow
    obtain ⟨d, hd, hreads⟩ := mem_readsOf_lastRead hrow
    have hid := readsOf_id hreads
    exact h.task hG (mem_bidCopies_of_own hbids hmem) (by simpa using List.find?_some hwin)
      (mem_taskCopies_of_own hd (hid.symm ▸ hreads)) hid

/-- **No bid placed too late is confiscated**, from empty tables, in a run in which each auction has
a bid in time that is as cheap as the late ones. -/
theorem confiscated_in_time (m : Store) (tasks : m.tasks = []) (bids : m.bids = [])
    (sched : List (Act Job Outcome))
    (within : Meets market (fairAuctions WithinTime) (.initial m) sched) :
    AllConfiscatedInTime (runSched market (.initial m) sched).trace := by
  have hlasting : Lasting fun task bid => bid.createdAt ≤ task.deadline := by
    intro task task' bid bid' htask hbid hle
    have hcreated : bid.asPlaced.createdAt = bid'.asPlaced.createdAt := by rw [hbid]
    have hdeadline : task.asCreated.deadline = task'.asCreated.deadline := by rw [htask]
    exact hdeadline ▸ hcreated ▸ hle
  refine (runSched_rule
    (I := fun m t => Picked (fun task bid => bid.createdAt ≤ task.deadline) m t ∧
      AllConfiscatedInTime t) (Q := Job.Ended) (R := fairAuctions WithinTime)
    (fun j _ => body_follows j) ?_ sched (.initial m) ⟨.initial tasks bids, trivial⟩ (.initial m)
    within).1.2
  rintro m t pid j o c r m' ⟨h, hall⟩ - hc hcall hx
  refine ⟨h.call hlasting hc hx (hcall.winner (fun _ _ _ hw => (winner_within_time hw).mpr) hx),
    ?_, hall⟩
  cases o with
  | confiscate e amount => exact h.confiscate hlasting hc
  | _ => trivial

/-- A sweep at the time `now` confiscates the collateral of the one expired task. -/
def sweepsAt (pid now : Nat) : List (Act Job Outcome) :=
  [.spawn (.runOnce { hasOutbox := false }), .run pid { now := now }, goes pid, goes pid, goes pid,
    goes pid]

/-- What the clock has shown so far, newest first. -/
def clockReadings (t : Trace Op Reply) : List Nat :=
  t.filterMap fun c => match c.op, c.reply with
    | .dateNow, .ok now => some now
    | _, _ => none

theorem early_bid_confiscated_in_time :
    let t := (runSched market (.initial emptyStore)
      (creates 0 "t" ++ bidsAt 1 "0.8" "b" "e" 1 ++ sweepsAt 2 12)).trace
    times .confiscation "e" t = 1 ∧ AllConfiscatedInTime t :=
  ⟨by decide +kernel, confiscated_in_time emptyStore rfl rfl _ (by decide +kernel)⟩

/-- A bid at 11 wins a task that was due at 10, and the sweep at 12 confiscates its collateral. -/
theorem late_bid_confiscated :
    let t := (runSched market (.initial emptyStore)
      (creates 0 "t" ++ bidsAt 1 "0.8" "b" "e" 11 ++ sweepsAt 2 12)).trace
    clockReadings t = [12, 11] ∧ ¬ AllConfiscatedInTime t := by
  decide +kernel

end TrustGate.Market
