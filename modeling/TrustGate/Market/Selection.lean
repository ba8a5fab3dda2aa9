import TrustGate.Market.Alone
import TrustGate.Market.Picked

set_option autoImplicit false

/-! # A selection by itself

`AuctionService.selectWinner` while nothing else happens: whom it picks, what it writes, and what
it leaves behind when one of its saves fails. -/

namespace TrustGate.Market

open Resumption

/-! ## The first of the best bids -/

/-- What is better than the best so far was strictly better. -/
theorem better_cases (lowest bid : Bid) :
    (better lowest bid = lowest ∧ lowest.Beats bid) ∨
      (better lowest bid = bid ∧ ¬ lowest.Beats bid) := by
  unfold better Bid.Beats
  split_ifs with hcheaper holder
  · exact .inr ⟨rfl, by omega⟩
  · exact .inr ⟨rfl, by omega⟩
  · exact .inl ⟨rfl, by omega⟩

/-- No bid in front of the winner is as good. -/
theorem lowestBid_first (first : Bid) (rest : List Bid) :
    ∃ pre post, first :: rest = pre ++ lowestBid first rest :: post ∧
      ∀ bid ∈ pre, ¬ bid.Beats (lowestBid first rest) := by
  unfold lowestBid
  induction rest generalizing first with
  | nil => exact ⟨[], [], rfl, by simp⟩
  | cons next rest ih =>
      rw [List.foldl_cons]
      obtain ⟨pre, post, heq, hpre⟩ := ih (better first next)
      rcases better_cases first next with ⟨hkept, hbeats⟩ | ⟨hnext, hlost⟩
      · rw [hkept] at heq hpre ⊢
        -- the new bid goes behind the first one
        cases pre with
        | nil =>
            obtain ⟨hfirst, hrest⟩ := List.cons.inj heq
            exact ⟨[], next :: rest, by rw [← hfirst]; rfl, by simp⟩
        | cons b pre =>
            obtain ⟨rfl, hrest⟩ := List.cons.inj heq
            refine ⟨first :: next :: pre, post, congrArg (fun l => first :: next :: l) hrest, ?_⟩
            intro bid hbid
            rcases List.mem_cons.mp hbid with rfl | hbid
            · exact hpre _ List.mem_cons_self
            · rcases List.mem_cons.mp hbid with rfl | hbid
              · exact fun h => hpre _ List.mem_cons_self (hbeats.trans h)
              · exact hpre _ (List.mem_cons_of_mem _ hbid)
      · rw [hnext] at heq hpre ⊢
        refine ⟨first :: pre, post, by rw [heq]; rfl, ?_⟩
        intro bid hbid
        rcases List.mem_cons.mp hbid with rfl | hbid
        · -- the winner beats the new bid, which the old one does not
          exact fun h => hlost (h.trans (lowestBid_beats next rest next List.mem_cons_self))
        · exact hpre bid hbid

/-- The winner of an auction is the first of the bids that beat all others. -/
theorem auctionWinner_first {bids : List Bid} {winner : Bid}
    (h : auctionWinner bids = some winner) :
    ∃ pre post, pendingBids bids = pre ++ winner :: post ∧ ∀ bid ∈ pre, ¬ bid.Beats winner := by
  unfold auctionWinner at h
  split at h
  · cases h
  · rename_i first rest hp
    cases h
    rw [hp]
    exact lowestBid_first first rest

theorem auctionWinner_eq_none {bids : List Bid} :
    auctionWinner bids = none ↔ pendingBids bids = [] := by
  unfold auctionWinner
  split <;> simp_all

/-- With no ties, the order of the bids does not matter. -/
theorem auctionWinner_perm {bids bids' : List Bid} {winner winner' : Bid}
    (hperm : bids.Perm bids')
    (hties : ∀ a ∈ pendingBids bids, ∀ b ∈ pendingBids bids, a.amountStroops = b.amountStroops →
      a.createdAt = b.createdAt → a = b)
    (h : auctionWinner bids = some winner) (h' : auctionWinner bids' = some winner') :
    winner' = winner := by
  have hpending : (pendingBids bids).Perm (pendingBids bids') := hperm.filter _
  have hmem : winner ∈ pendingBids bids := by
    obtain ⟨pre, post, heq, -⟩ := auctionWinner_first h
    simp [heq]
  have hmem' : winner' ∈ pendingBids bids := by
    obtain ⟨pre, post, heq, -⟩ := auctionWinner_first h'
    exact hpending.mem_iff.mpr (by simp [heq])
  have hbeats := auctionWinner_beats h winner' hmem'
  have hbeats' := auctionWinner_beats h' winner (hpending.mem_iff.mp hmem)
  unfold Bid.Beats at hbeats hbeats'
  exact hties winner' hmem' winner hmem (by omega) (by omega)

/-! ## The bids of a decided auction -/

/-- A bid after the auction for `taskId` that `winner` has won. -/
def Bid.decided (taskId : String) (winner bid : Bid) : Bid :=
  if bid.taskId = taskId ∧ bid.status = .pending then
    { bid with status := if bid.id = winner.id then .selected else .rejected }
  else bid

/-- The rows, those of the bids `ids` with the status `status`. -/
def withStatusOf (ids : List String) (status : BidStatus) (rows : List Bid) : List Bid :=
  rows.map fun row => if row.id ∈ ids then { row with status } else row

/-- A bid is stored as it is, up to its status. -/
def Stored (rows : List Bid) (bid : Bid) : Prop :=
  ∃ row ∈ rows, row.id = bid.id ∧ ∀ status, { row with status } = { bid with status }

theorem Stored.of_mem {rows : List Bid} {bid : Bid} (h : bid ∈ rows) : Stored rows bid :=
  ⟨bid, h, rfl, fun _ => rfl⟩

theorem withStatusOf_ids (ids : List String) (status : BidStatus) (rows : List Bid) :
    (withStatusOf ids status rows).map Bid.id = rows.map Bid.id := by
  unfold withStatusOf
  rw [List.map_map]
  apply List.map_congr_left
  intro row _
  simp only [Function.comp]
  split_ifs <;> rfl

theorem Stored.withStatusOf {rows : List Bid} {bid : Bid} (h : Stored rows bid) (ids : List String)
    (status : BidStatus) : Stored (withStatusOf ids status rows) bid := by
  obtain ⟨row, hrow, hid, hfields⟩ := h
  refine ⟨_, List.mem_map.mpr ⟨row, hrow, rfl⟩, ?_, fun status' => ?_⟩
  · split_ifs <;> exact hid
  · rw [← hfields status']
    split_ifs <;> rfl

/-- A stored bid is saved with another status: its row changes in nothing else. -/
theorem saveBid_status (m : Store) (bid : Bid) (status : BidStatus)
    (hids : (m.bids.map Bid.id).Nodup) (hstored : Stored m.bids bid) :
    m.saveBid { bid with status } = { m with bids := withStatusOf [bid.id] status m.bids } := by
  obtain ⟨row, hrow, hid, hfields⟩ := hstored
  unfold Store.saveBid
  have hupsert : upsert Bid.id (Store.mergeBid m.backend) { bid with status } m.bids = _ :=
    upsert_of_key hids hrow hid
  rw [hupsert]
  congr 1
  apply List.map_congr_left
  intro r hr
  simp only [List.mem_singleton]
  by_cases hkey : r.id = bid.id
  · have hsame : r = row := List.inj_on_of_nodup_map hids hr hrow (hkey.trans hid.symm)
    subst hsame
    rw [if_pos hkey, if_pos hkey, hfields status]
    -- Postgres keeps the row's own `createdAt`, which is the bid's
    have hcreated : r.createdAt = bid.createdAt := by
      simpa using congrArg Bid.createdAt (hfields .pending)
    cases m.backend
    · rfl
    · simp [Store.mergeBid, hcreated]
  · rw [if_neg hkey, if_neg hkey]

theorem withStatusOf_append (ids ids' : List String) (status : BidStatus) (rows : List Bid) :
    withStatusOf ids' status (withStatusOf ids status rows) =
      withStatusOf (ids ++ ids') status rows := by
  unfold withStatusOf
  rw [List.map_map]
  apply List.map_congr_left
  intro row _
  simp only [Function.comp, List.mem_append]
  by_cases h : row.id ∈ ids
  · simp [h]
  · simp [h]

/-- The bids that lose against `winner`. -/
def losers (winner : Bid) (bids : List Bid) : List String :=
  (bids.filter fun bid => bid.id ≠ winner.id).map Bid.id

/-- The saves of the losing bids, one round of the loop each. -/
theorem rejectOthers_solo (winner : Bid) (bids : List Bid) (m : Store)
    (hids : (m.bids.map Bid.id).Nodup) (hstored : ∀ bid ∈ bids, Stored m.bids bid) :
    Solo exec Calm (rejectOthers winner bids) m fun _ r m' => r = .ok () ∧
      m' = { m with
        bids := withStatusOf (losers winner bids) .rejected m.bids } := by
  unfold rejectOthers
  -- the losers among the first bids are rejected, the others are stored as they were
  refine solo_forEach (Q := fun _ r m' => r = .ok () ∧ m' = { m with
      bids := withStatusOf (losers winner bids) .rejected m.bids })
    (fun left _ m' => ∃ past, bids = past ++ left ∧ m' = { m with
      bids := withStatusOf (losers winner past) .rejected m.bids })
    ?_ ?_ bids [] m ?_
  · rintro bid left _ _ ⟨past, hbids, rfl⟩
    split_ifs with hlost
    · rw [solo_call]
      rintro c r m' hcalm hexec
      obtain ⟨v, hp, rfl⟩ := exec_calm hexec hcalm
      cases hp
      refine ⟨past ++ [bid], by rw [hbids, List.append_assoc]; rfl, ?_⟩
      have hrow := (hstored bid (by simp [hbids])).withStatusOf
        (losers winner past) .rejected
      rw [saveBid_status _ bid _ (by rw [withStatusOf_ids]; exact hids) hrow, withStatusOf_append]
      simp [losers, hlost]
    · rw [solo_pure]
      refine ⟨past ++ [bid], by rw [hbids, List.append_assoc]; rfl, ?_⟩
      simp [losers, hlost]
  · rintro _ _ ⟨past, hbids, rfl⟩
    rw [List.append_nil] at hbids
    subst hbids
    exact ⟨rfl, rfl⟩
  · exact ⟨[], rfl, by simp [losers, withStatusOf]⟩

/-- The auction for `taskId` that can be held: the task is open and has a pending bid. -/
def auctionOf (m : Store) (taskId : String) : Option (Task × Bid) :=
  match m.findTask taskId with
  | none => none
  | some task =>
    if task.status = .open then (auctionWinner (m.findBids taskId)).map fun winner => (task, winner)
    else none

/-- Both saves of the winner's row and the losers' rows make up the decision. -/
theorem decided_of_saves {m : Store} {taskId : String} {winner : Bid}
    (hids : (m.bids.map Bid.id).Nodup) (hwinner : winner ∈ pendingBids (m.findBids taskId)) :
    withStatusOf (losers winner (pendingBids (m.findBids taskId))) .rejected
        (withStatusOf [winner.id] .selected m.bids) =
      m.bids.map (Bid.decided taskId winner) := by
  have hmem : ∀ bid, bid ∈ pendingBids (m.findBids taskId) ↔
      (bid ∈ m.bids ∧ bid.taskId = taskId) ∧ bid.status = .pending := by
    intro bid
    simp [pendingBids, Store.mem_findBids]
  unfold withStatusOf
  rw [List.map_map]
  apply List.map_congr_left
  intro row hrow
  have hsame : ∀ bid ∈ m.bids, bid.id = row.id → bid = row := fun bid hbid hid =>
    List.inj_on_of_nodup_map hids hbid hrow hid
  have hwinner' := (hmem winner).mp hwinner
  by_cases hwin : row.id = winner.id
  · -- the winner's own row
    have heq := hsame winner hwinner'.1.1 hwin.symm
    have hlosers : winner.id ∉ losers winner (pendingBids (m.findBids taskId)) := by
      simp [losers]
    have hpending : row.taskId = taskId ∧ row.status = .pending := by
      rw [← heq]
      exact ⟨hwinner'.1.2, hwinner'.2⟩
    simp [Function.comp, hwin, hlosers, Bid.decided, hpending]
  · have hlost : row.id ∈ losers winner (pendingBids (m.findBids taskId)) ↔
        row.taskId = taskId ∧ row.status = .pending := by
      unfold losers
      rw [List.mem_map]
      constructor
      · rintro ⟨bid, hbid, hid⟩
        obtain ⟨hpending, -⟩ := List.mem_filter.mp hbid
        have hbid' := (hmem bid).mp hpending
        have heq := hsame bid hbid'.1.1 hid
        rw [← heq]
        exact ⟨hbid'.1.2, hbid'.2⟩
      · rintro ⟨htask, hstatus⟩
        refine ⟨row, List.mem_filter.mpr ⟨(hmem row).mpr ⟨⟨hrow, htask⟩, hstatus⟩, ?_⟩, rfl⟩
        simpa using hwin
    simp [Function.comp, hwin, hlost, Bid.decided]

/-- What a selection that nothing disturbs answers and leaves. -/
theorem selectWinner_solo (m : Store) (taskId : String) (hids : (m.bids.map Bid.id).Nodup) :
    Solo exec Calm (selectWinner taskId) m fun _ r m' => match auctionOf m taskId with
      | none => (∃ e, r = .error e) ∧ m' = m
      | some (task, winner) =>
          r = .ok ⟨{ task with status := .assigned }, { winner with status := .selected }⟩ ∧
          m' = { m.saveTask { task with status := .assigned } with
            bids := m.bids.map (Bid.decided taskId winner) } := by
  unfold selectWinner
  refine solo_await (fun _ h _ => h) ?_
  rintro c found m₁ hcalm hp
  cases hp
  cases htask : m.findTask taskId with
  | none =>
      rw [solo_throw]
      simp [auctionOf, htask]
  | some task =>
      dsimp only
      split_ifs with hopen
      · rw [solo_throw]
        simp [auctionOf, htask, hopen]
      refine solo_await (fun _ h _ => h) ?_
      rintro c bids m₁ hcalm hp
      cases hp
      have hopen : task.status = .open := not_not.mp hopen
      cases hpending : pendingBids (m.findBids taskId) with
      | nil =>
          rw [solo_throw]
          simp [auctionOf, htask, hopen, auctionWinner, hpending]
      | cons first rest =>
          have hauction : auctionOf m taskId = some (task, lowestBid first rest) := by
            simp [auctionOf, htask, hopen, auctionWinner, hpending]
          have hwinner : lowestBid first rest ∈ pendingBids (m.findBids taskId) := by
            rw [hpending]
            exact lowestBid_mem first rest
          have hstored : ∀ bid ∈ pendingBids (m.findBids taskId), Stored m.bids bid := by
            intro bid hbid
            exact .of_mem (Store.mem_findBids.mp (List.mem_filter.mp hbid).1).1
          rw [hauction]
          dsimp only
          refine solo_await (fun _ h _ => h) ?_
          rintro c _ m₁ hcalm hp
          cases hp
          refine solo_await (fun _ h _ => h) ?_
          rintro c _ m₁ hcalm hp
          cases hp
          rw [saveBid_status (m.saveTask _) (lowestBid first rest) .selected hids (hstored _ hwinner),
            solo_bind]
          have hrows := rejectOthers_solo (lowestBid first rest) (pendingBids (m.findBids taskId))
            { m.saveTask { task with status := .assigned } with
              bids := withStatusOf [(lowestBid first rest).id] .selected m.bids }
            (by rw [withStatusOf_ids]; exact hids)
            fun bid hbid => (hstored bid hbid).withStatusOf _ _
          rw [hpending] at hrows
          refine hrows.mono ?_
          rintro _ _ _ ⟨rfl, rfl⟩
          rw [solo_pure]
          refine ⟨rfl, ?_⟩
          rw [← decided_of_saves hids hwinner, hpending]

/-- **The auction by itself.** `selectWinner` comes to an end. If the task is open and has a pending
bid, the first of the best pending bids wins: the task is assigned, the winner selected and every
other pending bid of the task rejected, and nothing else changes. Where no two pending bids agree in
amount and time, the winner is the same in whatever order the bids are listed. Otherwise
`selectWinner` throws and nothing changes. -/
theorem selectWinner_correct (m : Store) (taskId : String) (hids : (m.bids.map Bid.id).Nodup) :
    (∃ log r m', Runs exec Calm (selectWinner taskId).run m log r m') ∧
    ∀ log r m', Runs exec Calm (selectWinner taskId).run m log r m' →
      (∀ task, m.findTask taskId = some task → task.status = .open →
        pendingBids (m.findBids taskId) ≠ [] →
        ∃ winner pre post, pendingBids (m.findBids taskId) = pre ++ winner :: post ∧
          (∀ bid ∈ pendingBids (m.findBids taskId), winner.Beats bid) ∧
          (∀ bid ∈ pre, ¬ bid.Beats winner) ∧
          r = .ok ⟨{ task with status := .assigned }, { winner with status := .selected }⟩ ∧
          m' = { m.saveTask { task with status := .assigned } with
            bids := m.bids.map (Bid.decided taskId winner) } ∧
          (∀ id, m'.findTask id =
            if id = taskId then some { task with status := .assigned } else m.findTask id) ∧
          ((∀ a ∈ pendingBids (m.findBids taskId), ∀ b ∈ pendingBids (m.findBids taskId),
              a.amountStroops = b.amountStroops → a.createdAt = b.createdAt → a = b) →
            ∀ m₂, m₂.findTask taskId = m.findTask taskId → (m₂.bids.map Bid.id).Nodup →
              (m.findBids taskId).Perm (m₂.findBids taskId) →
              ∀ log₂ r₂ m₂', Runs exec Calm (selectWinner taskId).run m₂ log₂ r₂ m₂' → r₂ = r)) ∧
      ((∀ task, m.findTask taskId = some task → task.status = .open →
          pendingBids (m.findBids taskId) = []) →
        (∃ e, r = .error e) ∧ m' = m) := by
  refine ⟨exists_runs exec_possible _ m, fun log r m' hruns => ⟨?_, ?_⟩⟩
  · intro task htask hopen hpending
    have hspec := selectWinner_solo m taskId hids log r m' hruns
    obtain ⟨winner, hwinner⟩ := Option.ne_none_iff_exists'.mp
      (fun hnone => hpending (auctionWinner_eq_none.mp hnone))
    have hauction : auctionOf m taskId = some (task, winner) := by
      simp [auctionOf, htask, hopen, hwinner]
    rw [hauction] at hspec
    obtain ⟨hr, hm'⟩ := hspec
    obtain ⟨pre, post, hsplit, hpre⟩ := auctionWinner_first hwinner
    refine ⟨winner, pre, post, hsplit, auctionWinner_beats hwinner, hpre, hr, hm', ?_, ?_⟩
    · intro id
      rw [hm', ← Store.findTask_id htask]
      exact Store.findTask_saveTask m { task with status := .assigned } id
    · intro hties m₂ htask₂ hids₂ hperm log₂ r₂ m₂' hruns₂
      have hspec₂ := selectWinner_solo m₂ taskId hids₂ log₂ r₂ m₂' hruns₂
      have hpending₂ : pendingBids (m₂.findBids taskId) ≠ [] := by
        intro hnil
        have hp : (pendingBids (m.findBids taskId)).Perm (pendingBids (m₂.findBids taskId)) :=
          hperm.filter _
        rw [hnil] at hp
        exact hpending hp.eq_nil
      obtain ⟨winner₂, hwinner₂⟩ := Option.ne_none_iff_exists'.mp
        (fun hnone => hpending₂ (auctionWinner_eq_none.mp hnone))
      have hauction₂ : auctionOf m₂ taskId = some (task, winner₂) := by
        simp [auctionOf, htask₂, htask, hopen, hwinner₂]
      rw [hauction₂] at hspec₂
      rw [hspec₂.1, hr, auctionWinner_perm hperm hties hwinner hwinner₂]
  · intro hclosed
    have hspec := selectWinner_solo m taskId hids log r m' hruns
    have hauction : auctionOf m taskId = none := by
      unfold auctionOf
      split
      · rfl
      · rename_i task htask
        split_ifs with hopen
        · rw [auctionWinner_eq_none.mpr (hclosed task htask hopen)]
          rfl
        · rfl
    rw [hauction] at hspec
    exact hspec

/-- A task with three bids of which two are the cheapest. -/
def threeBids : Store where
  backend := .inMemory
  tasks := [⟨"t", "R", 100, "", 0, .open⟩]
  bids := [⟨"b1", "t", "E1", 30, 1, "e1", .pending, 0⟩, ⟨"b2", "t", "E2", 20, 1, "e2", .pending, 5⟩,
    ⟨"b3", "t", "E3", 20, 1, "e3", .pending, 4⟩]
  results := []
  outbox := []
  consumptions := []
  stream := ⟨[], 0, 0, []⟩
  issued := []

/-- The older one of the two wins. -/
theorem threeBids_selected : ∃ log m',
    Runs exec Calm (selectWinner "t").run threeBids log
      (.ok ⟨⟨"t", "R", 100, "", 0, .assigned⟩, ⟨"b3", "t", "E3", 20, 1, "e3", .selected, 4⟩⟩) m' ∧
    m'.bids.map Bid.status = [.rejected, .rejected, .selected] := by
  obtain ⟨⟨log, r, m', hruns⟩, hall⟩ := selectWinner_correct threeBids "t" (by decide)
  obtain ⟨winner, pre, post, hsplit, hbeats, -, rfl, rfl, -⟩ :=
    (hall log r m' hruns).1 ⟨"t", "R", 100, "", 0, .open⟩ rfl rfl (by decide)
  have hmem : winner ∈ pendingBids (threeBids.findBids "t") := by simp [hsplit]
  have hwinner : winner = ⟨"b3", "t", "E3", 20, 1, "e3", .pending, 4⟩ := by
    have hbest := hbeats ⟨"b3", "t", "E3", 20, 1, "e3", .pending, 4⟩ (by decide)
    unfold Bid.Beats at hbest
    simp only [pendingBids, Store.findBids, threeBids, List.filter, decide_true, List.mem_cons,
      List.not_mem_nil, or_false] at hmem
    rcases hmem with rfl | rfl | rfl
    · simp at hbest
    · simp at hbest
    · rfl
  subst hwinner
  exact ⟨log, _, hruns, by decide⟩

/-! ## A save that fails -/

/-- How the saves went, in order. -/
def saveFaults (log : Record) : List Fault :=
  log.filterMap fun e => if e.op.isSave then some e.outcome.fault else none

/-- The task and its bids are as they were. -/
def Untouched (taskId : String) (m m' : Store) : Prop :=
  m'.findTask taskId = m.findTask taskId ∧ m'.findBids taskId = m.findBids taskId

/-- No save failed, or the first one did and had no effect. -/
def CleanFailure (faults : List Fault) : Prop :=
  (∀ f ∈ faults, f = .none) ∨ ∃ e rest, faults = .refused e :: rest

/-- It ends without an error exactly if no save failed. -/
def EndsWith {α : Type} (log : Record) (r : Except JsError α) : Prop :=
  (∃ e, r = .error e) ↔ ∃ f ∈ saveFaults log, f ≠ .none

theorem saveFaults_append (log log' : Record) :
    saveFaults (log ++ log') = saveFaults log ++ saveFaults log' := by
  unfold saveFaults
  exact List.filterMap_append

theorem EndsWith.error {α β : Type} {log : Record} {e : JsError}
    (h : EndsWith log (.error e : Except JsError α)) : EndsWith log (.error e : Except JsError β) :=
  ⟨fun _ => h.mp ⟨e, rfl⟩, fun _ => ⟨e, rfl⟩⟩

theorem endsWith_ok {α : Type} {log : Record} {a : α} :
    EndsWith log (.ok a) ↔ ∀ f ∈ saveFaults log, f = .none := by
  simp [EndsWith]

/-- One save of a bid. -/
theorem saveBid_solo (bid : Bid) (m : Store) :
    Solo exec SavesMayFail (await (.saveBid bid)) m fun log r m' =>
      m'.tasks = m.tasks ∧ EndsWith log r := by
  rw [solo_call]
  intro c r m' _ hexec
  refine ⟨exec_tasks hexec (by simp), ?_⟩
  unfold EndsWith
  simp only [saveFaults, Op.isSave, List.filterMap_cons, if_true, List.filterMap_nil,
    List.mem_singleton, exists_eq_left]
  rcases exec_cases hexec with ⟨happlies, -, e, rfl⟩ | ⟨-, v, -, ⟨rfl, hf⟩ | ⟨e, rfl, hf⟩⟩
  · refine ⟨fun _ hf => ?_, fun _ => ⟨e, rfl⟩⟩
    rw [hf] at happlies
    cases happlies
  · simp [hf]
  · simp [hf]

theorem EndsWith.append {α β : Type} {log log' : Record} {a : α} {r : Except JsError β}
    (h : EndsWith log (.ok a)) (h' : EndsWith log' r) : EndsWith (log ++ log') r := by
  have hnone := endsWith_ok.mp h
  unfold EndsWith at h' ⊢
  rw [h', saveFaults_append]
  constructor
  · rintro ⟨f, hmem, hf⟩
    exact ⟨f, List.mem_append_right _ hmem, hf⟩
  · rintro ⟨f, hmem, hf⟩
    rcases List.mem_append.mp hmem with hmem | hmem
    · exact absurd (hnone f hmem) hf
    · exact ⟨f, hmem, hf⟩

theorem rejectOthers_fails (winner : Bid) (bids : List Bid) (m : Store) :
    Solo exec SavesMayFail (rejectOthers winner bids) m fun log r m' =>
      m'.tasks = m.tasks ∧ EndsWith log r := by
  unfold rejectOthers
  refine solo_forEach (Q := fun log r m' => m'.tasks = m.tasks ∧ EndsWith log r)
    (fun _ log m' => m'.tasks = m.tasks ∧ EndsWith log (.ok () : Except JsError Unit))
    ?_ (fun _ _ h => h) bids [] m ?_
  · rintro bid left log m₁ ⟨htasks, hlog⟩
    split_ifs with hlost
    · refine (saveBid_solo _ m₁).mono ?_
      rintro log' (e | u) m' ⟨htasks', hlog'⟩
      · exact ⟨htasks'.trans htasks, hlog.append hlog'⟩
      · exact ⟨htasks'.trans htasks, hlog.append hlog'⟩
    · rw [solo_pure]
      exact ⟨htasks, by rwa [List.append_nil]⟩
  · exact ⟨rfl, by simp [EndsWith, saveFaults]⟩

/-- What `selectWinner` does once the task is assigned. -/
theorem awardBids_fails (winner : Bid) (bids : List Bid) (result : SelectWinnerResult) (m : Store) :
    Solo exec SavesMayFail (do
        await (.saveBid { winner with status := .selected })
        rejectOthers winner bids
        return result) m fun log r m' => m'.tasks = m.tasks ∧ EndsWith log r := by
  rw [solo_bind]
  refine (saveBid_solo _ m).mono ?_
  rintro log (e | u) m₁ ⟨htasks, hlog⟩
  · exact ⟨htasks, hlog.error⟩
  dsimp only
  rw [solo_bind]
  refine (rejectOthers_fails winner bids m₁).mono ?_
  rintro log' (e | u) m₂ ⟨htasks', hlog'⟩
  · exact ⟨htasks'.trans htasks, hlog.append hlog'.error⟩
  · rw [solo_pure, List.append_nil]
    exact ⟨htasks'.trans htasks, hlog.append (endsWith_ok.mpr (endsWith_ok.mp hlog'))⟩

/-- What `selectWinner` does with the open task it has read. -/
theorem assignTask_fails {m : Store} {taskId : String} {task : Task} (winner : Bid)
    (bids : List Bid) (result : SelectWinnerResult) (htask : m.findTask taskId = some task)
    (hopen : task.status = .open) :
    Solo exec SavesMayFail (do
        await (.saveTask { task with status := .assigned })
        await (.saveBid { winner with status := .selected })
        rejectOthers winner bids
        return result) m fun log r m' =>
      ((∃ e, r = .error e) → Untouched taskId m m') ↔ CleanFailure (saveFaults log) := by
  -- the task was open, and is not once it has been saved
  have hchanged : ∀ m' : Store, m'.tasks = (m.saveTask { task with status := .assigned }).tasks →
      ¬ Untouched taskId m m' := by
    intro m' htasks huntouched
    have hfind : m'.findTask taskId = some { task with status := .assigned } := by
      rw [Store.findTask, htasks, ← Store.findTask_id htask]
      exact (Store.findTask_saveTask m _ task.id).trans (if_pos rfl)
    have hstatus := huntouched.1
    rw [hfind, htask] at hstatus
    have hassigned := congrArg Task.status (Option.some.inj hstatus)
    rw [hopen] at hassigned
    cases hassigned
  have hfaults : ∀ (c : Outcome) (r : Reply (.saveTask { task with status := .assigned }))
      (log : Record), saveFaults (⟨_, c, r⟩ :: log) = c.fault :: saveFaults log := by
    intro c r log
    simp [saveFaults, Op.isSave]
  rw [solo_call_bind]
  refine ⟨fun c v m₁ _ hexec => ?_, fun c e m₁ _ hexec => ?_⟩
  · have hcalm := fault_of_ok hexec
    cases exec_ok hexec
    refine (awardBids_fails winner bids result _).mono ?_
    rintro log r m' ⟨htasks, hends⟩
    rw [hfaults, hcalm]
    constructor
    · intro h
      refine .inl fun f hf => by_contra fun hfault => hchanged m' htasks (h ?_)
      rcases List.mem_cons.mp hf with rfl | hf
      · exact absurd rfl hfault
      · exact hends.mpr ⟨f, hf, hfault⟩
    · rintro (hnone | ⟨e, rest, heq⟩) herror
      · obtain ⟨f, hf, hfault⟩ := hends.mp herror
        exact absurd (hnone f (List.mem_cons_of_mem _ hf)) hfault
      · cases heq
  · rw [hfaults]
    rcases exec_cases hexec with ⟨happlies, rfl, -⟩ | ⟨-, v, hp, ⟨hr, -⟩ | ⟨e', -, hlost⟩⟩
    · refine ⟨fun _ => .inr ?_, fun _ _ => ⟨rfl, rfl⟩⟩
      cases hf : c.fault with
      | refused e' => exact ⟨e', _, rfl⟩
      | none => rw [hf] at happlies; cases happlies
      | lost e' => rw [hf] at happlies; cases happlies
    · cases hr
    · cases hp
      refine ⟨fun h => absurd (h ⟨e, rfl⟩) (hchanged _ rfl), ?_⟩
      rw [hlost]
      rintro (hnone | ⟨e'', rest, heq⟩)
      · cases hnone _ List.mem_cons_self
      · cases heq

/-- **When a selection is all or nothing.** A run of `selectWinner` whose saves may fail leaves the
task and its bids untouched when it throws, exactly if no save failed or the first one, of the task,
was refused. -/
theorem selectWinner_untouched_iff (m : Store) (taskId : String) (log : Record)
    (r : Except JsError SelectWinnerResult) (m' : Store)
    (hruns : Runs exec SavesMayFail (selectWinner taskId).run m log r m') :
    ((∃ e, r = .error e) → Untouched taskId m m') ↔ CleanFailure (saveFaults log) := by
  suffices Solo exec SavesMayFail (selectWinner taskId) m fun log r m' =>
      ((∃ e, r = .error e) → Untouched taskId m m') ↔ CleanFailure (saveFaults log) from
    this log r m' hruns
  -- nothing has been saved yet
  have hearly : ∀ {log : Record} {e : JsError}, saveFaults log = [] →
      ((∃ e', (.error e : Except JsError SelectWinnerResult) = .error e') → Untouched taskId m m ↔
        CleanFailure (saveFaults log)) := by
    intro log e hlog
    rw [hlog]
    exact ⟨fun _ => .inl (by simp), fun _ _ => ⟨rfl, rfl⟩⟩
  unfold selectWinner
  refine solo_await (fun _ h _ => h rfl) ?_
  rintro c found m₁ - hp
  cases hp
  cases htask : m.findTask taskId with
  | none =>
      rw [solo_throw]
      exact hearly rfl
  | some task =>
      dsimp only
      split_ifs with hopen
      · rw [solo_throw]
        exact hearly rfl
      refine solo_await (fun _ h _ => h rfl) ?_
      rintro c bids m₁ - hp
      cases hp
      cases pendingBids (m.findBids taskId) with
      | nil =>
          rw [solo_throw]
          exact hearly rfl
      | cons first rest =>
          exact (assignTask_fails (lowestBid first rest) _ _ htask (not_not.mp hopen)).mono
            fun _ _ _ h => h

/-- The winner's row cannot be saved. -/
def winnerLost : List Outcome :=
  [{}, {}, {}, { fault := .refused (.other "connection terminated") }]

/-- The task is assigned, and nobody is selected for it. -/
theorem threeBids_half_selected : ∃ log r m',
    Runs exec SavesMayFail (selectWinner "t").run threeBids log r m' ∧ (∃ e, r = .error e) ∧
    ¬ Untouched "t" threeBids m' ∧ m'.statusOf "t" = some .assigned ∧
    ∀ bid ∈ m'.bids, bid.status ≠ .selected := by
  refine ⟨_, _, _, runs_of_replay (show replay exec winnerLost _ _ = some (_, _, _) from rfl)
    (by decide), ⟨_, rfl⟩, ?_, by decide, by decide⟩
  rintro ⟨htask, -⟩
  revert htask
  decide

/-- If already the task cannot be saved, nothing has happened. -/
theorem threeBids_refused : ∃ log r m',
    Runs exec SavesMayFail (selectWinner "t").run threeBids log r m' ∧ (∃ e, r = .error e) ∧
    Untouched "t" threeBids m' := by
  have hreplay : replay exec [{}, {}, { fault := .refused (.other "connection terminated") }]
      (selectWinner "t").run threeBids = some (_, _, _) := rfl
  have hruns : Runs exec SavesMayFail (selectWinner "t").run threeBids _ _ _ :=
    runs_of_replay hreplay (by decide)
  refine ⟨_, _, _, hruns, ⟨_, rfl⟩, ?_⟩
  exact (selectWinner_untouched_iff _ _ _ _ _ hruns).mpr (.inr ⟨_, _, rfl⟩) ⟨_, rfl⟩

end TrustGate.Market
