import TrustGate.Market.Selection

set_option autoImplicit false

/-! # The collateral behind a bid request

`POST /bids` locks the executor's collateral first and stores the bid that names the escrow
afterwards. Here is what of the two a request leaves, whatever fails in between. -/

namespace TrustGate.Market

open Resumption

/-! ## Bids that change in nothing but their status -/

/-- The rows are the same up to their status. -/
def Restatused (rows rows' : List Bid) : Prop :=
  ∃ f : Bid → BidStatus, rows' = rows.map fun bid => { bid with status := f bid }

theorem Restatused.refl (rows : List Bid) : Restatused rows rows :=
  ⟨Bid.status, (List.map_id rows).symm⟩

theorem Restatused.trans {rows₁ rows₂ rows₃ : List Bid} (h : Restatused rows₁ rows₂)
    (h' : Restatused rows₂ rows₃) : Restatused rows₁ rows₃ := by
  obtain ⟨f, rfl⟩ := h
  obtain ⟨g, rfl⟩ := h'
  exact ⟨fun bid => g { bid with status := f bid }, by rw [List.map_map]; rfl⟩

theorem restatused_withStatusOf (ids : List String) (status : BidStatus) (rows : List Bid) :
    Restatused rows (withStatusOf ids status rows) := by
  refine ⟨fun bid => if bid.id ∈ ids then status else bid.status, ?_⟩
  unfold withStatusOf
  apply List.map_congr_left
  intro bid _
  dsimp only
  split_ifs <;> rfl

theorem Restatused.ids {rows rows' : List Bid} (h : Restatused rows rows') :
    rows'.map Bid.id = rows.map Bid.id := by
  obtain ⟨f, rfl⟩ := h
  rw [List.map_map]
  rfl

theorem Restatused.stored {rows rows' : List Bid} (h : Restatused rows rows') {bid : Bid}
    (hbid : Stored rows bid) : Stored rows' bid := by
  obtain ⟨f, rfl⟩ := h
  obtain ⟨row, hrow, hid, hfields⟩ := hbid
  exact ⟨_, List.mem_map.mpr ⟨row, hrow, rfl⟩, hid, hfields⟩

/-- Some bid names the escrow. -/
def Covered (rows : List Bid) (escrowId : String) : Prop := ∃ bid ∈ rows, bid.escrowId = escrowId

theorem Restatused.covered {rows rows' : List Bid} (h : Restatused rows rows')
    (escrowId : String) : Covered rows' escrowId ↔ Covered rows escrowId := by
  obtain ⟨f, rfl⟩ := h
  constructor
  · rintro ⟨_, hmem, hescrow⟩
    obtain ⟨bid, hbid, rfl⟩ := List.mem_map.mp hmem
    exact ⟨bid, hbid, hescrow⟩
  · rintro ⟨bid, hbid, hescrow⟩
    exact ⟨_, List.mem_map.mpr ⟨bid, hbid, rfl⟩, hescrow⟩

/-- A stored bid is saved with another status, or is not. -/
theorem exec_saveBid_restatused {m m' : Store} {c : Outcome} {bid : Bid} {status : BidStatus}
    {r : Reply (.saveBid { bid with status })} (hids : (m.bids.map Bid.id).Nodup)
    (hstored : Stored m.bids bid) (h : exec (.saveBid { bid with status }) c m = some (r, m')) :
    Restatused m.bids m'.bids := by
  rcases exec_saveBid h with ⟨-, rfl⟩ | ⟨-, rfl⟩
  · exact .refl _
  · rw [saveBid_status m bid status hids hstored]
    exact restatused_withStatusOf _ _ _

/-- Whatever fails, a selection changes nothing of a bid but its status. -/
theorem selectWinner_restatuses (m : Store) (taskId : String) (hids : (m.bids.map Bid.id).Nodup) :
    Solo exec Anyhow (selectWinner taskId) m fun _ _ m' => Restatused m.bids m'.bids := by
  -- an operation on another table
  have hother : ∀ {o : Op} {c : Outcome} {m₁ m₂ : Store} {r : Reply o},
      Restatused m.bids m₁.bids → exec o c m₁ = some (r, m₂) → (∀ bid, o ≠ .saveBid bid) →
      Restatused m.bids m₂.bids := by
    intro o c m₁ m₂ r h hexec ho
    rw [(exec_bids hexec ho).1]
    exact h
  unfold selectWinner
  rw [solo_call_bind]
  refine ⟨fun c found m₁ _ hfind => ?_, fun c e m₁ _ hfind => hother (.refl _) hfind (by simp)⟩
  have hkept := hother (.refl m.bids) hfind (by simp)
  cases found with
  | none => rwa [solo_throw]
  | some task =>
      dsimp only
      split_ifs
      · rwa [solo_throw]
      rw [solo_call_bind]
      refine ⟨fun c bids m₂ _ hread => ?_, fun c e m₂ _ hread => hother hkept hread (by simp)⟩
      have hbids : ∀ bid ∈ pendingBids bids, Stored m₂.bids bid := by
        cases exec_ok hread
        exact fun bid hbid => .of_mem (Store.mem_findBids.mp (List.mem_filter.mp hbid).1).1
      replace hkept := hother hkept hread (by simp)
      cases hpending : pendingBids bids with
      | nil => rwa [solo_throw]
      | cons first rest =>
          rw [hpending] at hbids
          dsimp only
          rw [solo_call_bind]
          refine ⟨fun c _ m₃ _ hassign => ?_, fun c e m₃ _ hassign => hother hkept hassign (by simp)⟩
          have hbids₃ : m₃.bids = m₂.bids := (exec_bids hassign (by simp)).1
          replace hkept := hother hkept hassign (by simp)
          have hids₃ : (m₃.bids.map Bid.id).Nodup := by rwa [hkept.ids]
          have hwinner : Stored m₃.bids (lowestBid first rest) := by
            rw [hbids₃]
            exact hbids _ (lowestBid_mem first rest)
          rw [solo_call_bind]
          refine ⟨fun c _ m₄ _ haward => ?_, fun c e m₄ _ haward =>
            hkept.trans (exec_saveBid_restatused hids₃ hwinner haward)⟩
          have haward := exec_saveBid_restatused hids₃ hwinner haward
          have hstored : ∀ bid ∈ first :: rest, Stored m₄.bids bid := by
            intro bid hbid
            refine haward.stored ?_
            rw [hbids₃]
            exact hbids bid hbid
          rw [solo_bind]
          -- each loser is still stored when its turn comes
          refine (solo_forEach (Q := fun _ _ m' => Restatused m.bids m'.bids)
            (fun left _ m' => Restatused m.bids m'.bids ∧ ∀ bid ∈ left, Stored m'.bids bid)
            ?_ (fun _ _ h => h.1) (first :: rest) [] m₄ ⟨hkept.trans haward, hstored⟩).mono ?_
          · rintro bid left _ m₅ ⟨hkept, hstored⟩
            have hleft : ∀ b ∈ left, Stored m₅.bids b :=
              fun b hb => hstored b (List.mem_cons_of_mem _ hb)
            split_ifs
            · rw [solo_call]
              rintro c (e | u) m₆ _ hreject
              all_goals
                have hreject := exec_saveBid_restatused (by rwa [hkept.ids])
                  (hstored bid List.mem_cons_self) hreject
              · exact hkept.trans hreject
              · exact ⟨hkept.trans hreject, fun b hb => hreject.stored (hleft b hb)⟩
            · rw [solo_pure]
              exact ⟨hkept, hleft⟩
          · rintro _ (e | u) m₅ hkept
            · exact hkept
            · rwa [solo_pure]

/-! ## The request -/

/-- The call that locked the collateral was answered with the id `escrowId`. -/
def Locked (log : Record) (escrowId : String) : Prop :=
  ∃ executor taskId amount c, ⟨.createEscrow executor taskId amount, c, .ok escrowId⟩ ∈ log

/-- The escrow has been released. -/
def Released (log : Record) (escrowId : String) : Prop :=
  ∃ c result, ⟨.releaseMilestone escrowId, c, .ok result⟩ ∈ log

/-- The first row the request saves, its bid, is stored. -/
def BidStored (log : Record) : Prop := ∃ f rest, saveFaults log = f :: rest ∧ f.applies = true

theorem parse_of_isUsdcAmount {value : String} (h : isUsdcAmount value = true) :
    ∃ stroops, parseUsdcDecimalToStroops value = .ok stroops := by
  unfold isUsdcAmount at h
  split at h
  · exact ⟨_, by assumption⟩
  · cases h

theorem outboxEmit_only (cfg : Settings) (type aggregateType aggregateId : String) (payload : Json) :
    Only (fun o => o.emits = true) (outboxEmit cfg type aggregateType aggregateId payload) := by
  unfold outboxEmit
  split_ifs
  · exact Only.bind (Only.call rfl) fun _ => Only.call rfl
  · exact Only.pure ()

theorem outboxEmit_bids (cfg : Settings) (type aggregateType aggregateId : String) (payload : Json)
    (m : Store) : Solo exec Anyhow (outboxEmit cfg type aggregateType aggregateId payload) m
      fun _ _ m' => m'.bids = m.bids := by
  refine (outboxEmit_only cfg _ _ _ _).solo (fun (s s' : Store) => s'.bids = s.bids)
    (fun _ => rfl) (fun s s₁ s₂ h h' => h'.trans h) ?_
  intro o c s r s₁ ho _ hexec
  exact (exec_bids hexec fun bid heq => by rw [heq] at ho; cases ho).1

/-- A bid that is stored names its escrow. -/
theorem covered_saveBid (m : Store) (bid : Bid) : Covered (m.saveBid bid).bids bid.escrowId := by
  unfold Covered Store.saveBid
  induction m.bids with
  | nil => exact ⟨bid, List.mem_singleton_self _, rfl⟩
  | cons old rows ih =>
      unfold upsert
      split_ifs
      · refine ⟨_, List.mem_cons_self, ?_⟩
        cases m.backend <;> rfl
      · obtain ⟨row, hrow, hescrow⟩ := ih
        exact ⟨row, List.mem_cons_of_mem _ hrow, hescrow⟩

theorem nodup_saveBid {m : Store} (bid : Bid) (hids : (m.bids.map Bid.id).Nodup) :
    ((m.saveBid bid).bids.map Bid.id).Nodup :=
  nodup_upsert (Store.mergeBid_id m.backend) bid hids

/-- From the lock on: the escrow is covered exactly if the bid is stored, or another names it. -/
theorem placeBid_covers (cfg : Settings) (b : CreateBidBody) (escrowId : String) (m : Store)
    (hids : (m.bids.map Bid.id).Nodup) (hamount : isUsdcAmount b.amount = true)
    (hcollateral : isUsdcAmount b.collateral = true) :
    Solo exec Anyhow (placeBid cfg b escrowId) m fun log _ m' =>
      Covered m'.bids escrowId ↔ BidStored log ∨ Covered m.bids escrowId := by
  obtain ⟨amountStroops, hamount⟩ := parse_of_isUsdcAmount hamount
  obtain ⟨collateralStroops, hcollateral⟩ := parse_of_isUsdcAmount hcollateral
  unfold placeBid
  rw [hamount, hcollateral]
  dsimp only
  refine solo_await (fun _ _ h => local_calm rfl h) ?_
  intro c₁ id m₁ _ huuid
  have hbids₁ : m₁.bids = m.bids := (perform_frame huuid).bids (by simp)
  refine solo_await (fun _ _ h => local_calm rfl h) ?_
  rintro c₂ createdAt m₂ - hp
  cases hp
  have hids₁ : (m₁.bids.map Bid.id).Nodup := by rwa [hbids₁]
  rw [← hbids₁]
  -- the bid that is saved names the escrow
  generalize hbid : (⟨id, b.taskId, b.executor, amountStroops, collateralStroops, escrowId, .pending,
    c₂.now⟩ : Bid) = bid
  have hescrow : bid.escrowId = escrowId := by rw [← hbid]
  have hstored : ∀ {c : Outcome} {r : Reply (.saveBid bid)} {log : Record},
      BidStored (⟨.randomUUID, c₁, .ok id⟩ :: ⟨.dateNow, c₂, .ok c₂.now⟩ :: ⟨.saveBid bid, c, r⟩ :: log) ↔
        c.fault.applies = true := by
    intro c r log
    unfold BidStored
    simp [saveFaults, Op.isSave]
  have hsaved : ∀ {c : Outcome} {r : Reply (.saveBid bid)} {m₃ : Store},
      exec (.saveBid bid) c m₁ = some (r, m₃) → (m₃.bids.map Bid.id).Nodup ∧
        (Covered m₃.bids escrowId ↔ c.fault.applies = true ∨ Covered m₁.bids escrowId) := by
    intro c r m₃ hsave
    rcases exec_saveBid hsave with ⟨hf, rfl⟩ | ⟨hf, rfl⟩
    · exact ⟨hids₁, by simp [hf]⟩
    · exact ⟨nodup_saveBid bid hids₁, by simp [hf, ← hescrow, covered_saveBid]⟩
  rw [solo_call_bind]
  refine ⟨fun c _ m₃ _ hsave => ?_, fun c e m₃ _ hsave => ?_⟩
  case refine_2 =>
    rw [hstored]
    exact (hsaved hsave).2
  obtain ⟨hids₃, hcovered₃⟩ := hsaved hsave
  rw [solo_bind]
  refine (outboxEmit_bids cfg _ _ _ _ m₃).mono ?_
  rintro log (e | u) m₄ hbids₄
  · dsimp only
    rw [hbids₄, hstored]
    exact hcovered₃
  dsimp only
  rw [solo_bind, solo_attempt]
  refine (selectWinner_restatuses m₄ b.taskId (by rwa [hbids₄])).mono ?_
  intro log' r m₅ hkept
  dsimp only
  rw [solo_pure, hkept.covered, hbids₄, hstored]
  exact hcovered₃

def Op.locks : Op → Bool
  | .createEscrow _ _ _ => true
  | _ => false

theorem placeBid_locks (cfg : Settings) (b : CreateBidBody) (escrowId : String) :
    Only (fun o => o.locks = false) (placeBid cfg b escrowId) := by
  have hselect : Only (fun o => o.locks = false) (selectWinner b.taskId) := fun h =>
    (selectWinner_calls b.taskId h).mono (fun _ _ hc => by cases hc <;> rfl) fun _ _ _ => trivial
  have hemit : ∀ {payload : Json} {id : String},
      Only (fun o => o.locks = false) (outboxEmit cfg "bid_placed" "bid" id payload) :=
    (outboxEmit_only cfg _ _ _ _).mono fun o ho => by cases o <;> first | rfl | cases ho
  unfold placeBid
  cases parseUsdcDecimalToStroops b.amount with
  | error e => exact Only.pure _
  | ok amountStroops =>
      cases parseUsdcDecimalToStroops b.collateral with
      | error e => exact Only.pure _
      | ok collateralStroops =>
          refine Only.bind (Only.call rfl) fun id => Only.bind (Only.call rfl) fun createdAt => ?_
          exact Only.bind (Only.call rfl) fun _ => Only.bind hemit fun _ =>
            Only.bind hselect.attempt fun _ => Only.pure _

theorem not_locked {log : Record} {escrowId : String} (h : ∀ e ∈ log, e.op.locks = false) :
    ¬ Locked log escrowId := by
  rintro ⟨executor, taskId, amount, c, hmem⟩
  cases h _ hmem

/-- A request whose collateral is locked. -/
theorem createBid_covers (cfg : Settings) (b : CreateBidBody) (m : Store)
    (hschema : createBidSchema cfg b = true) (hids : (m.bids.map Bid.id).Nodup) :
    Solo exec Anyhow (createBid cfg (.ok b)) m fun log _ m' => ∀ escrowId, Locked log escrowId →
      (Covered m'.bids escrowId ↔ BidStored log ∨ Covered m.bids escrowId) := by
  have hamounts : isUsdcAmount b.amount = true ∧ isUsdcAmount b.collateral = true := by
    simp only [createBidSchema, Bool.and_eq_true] at hschema
    exact ⟨hschema.1.1.2, hschema.1.2⟩
  -- no escrow was asked for yet
  have hearly : ∀ {log : Record} {m' : Store}, (∀ e ∈ log, e.op.locks = false) →
      ∀ escrowId, Locked log escrowId →
        (Covered m'.bids escrowId ↔ BidStored log ∨ Covered m.bids escrowId) :=
    fun h _ hlocked => absurd hlocked (not_locked h)
  unfold createBid
  split_ifs
  · rw [solo_pure]
    exact hearly (by simp)
  dsimp only
  cases bidSecretError cfg b with
  | some response =>
      rw [solo_pure]
      exact hearly (by simp)
  | none =>
      dsimp only
      split_ifs
      · rw [solo_pure]
        exact hearly (by simp)
      rw [solo_call_bind]
      refine ⟨fun c found m₁ _ hfind => ?_, fun c e m₁ _ _ => hearly (by simp [Op.locks])⟩
      have hbids₁ : m₁.bids = m.bids := (exec_bids hfind (by simp)).1
      cases found with
      | none =>
          rw [solo_pure]
          exact hearly (by simp [Op.locks])
      | some task =>
          dsimp only
          split_ifs
          · rw [solo_pure]
            exact hearly (by simp [Op.locks])
          unfold authorizeExecutorPayment
          rw [solo_bind, solo_attempt, solo_call_bind]
          refine ⟨fun c registered m₂ _ hregistered => ?_, fun c e m₂ _ _ => ?_⟩
          case refine_2 =>
            cases e <;> exact (solo_pure _).mpr (hearly (by simp [Op.locks]))
          have hbids₂ : m₂.bids = m.bids := (exec_bids hregistered (by simp)).1.trans hbids₁
          dsimp only
          split_ifs
          case neg =>
            rw [solo_throw]
            exact (solo_pure _).mpr (hearly (by simp [Op.locks]))
          rw [solo_pure]
          dsimp only
          rw [solo_attempt_call_bind]
          intro c r m₃ _ hlock
          have hbids₃ : m₃.bids = m.bids := (exec_bids hlock (by simp)).1.trans hbids₂
          cases r with
          | error e =>
              refine (solo_pure _).mpr ?_
              rintro _ ⟨executor, taskId, amount, c', hmem⟩
              simp at hmem
          | ok escrowId =>
              have hplace := placeBid_covers cfg b escrowId m₃ (by rwa [hbids₃]) hamounts.1 hamounts.2
              refine (hplace.and (placeBid_locks cfg b escrowId).log).mono ?_
              rintro log r m' ⟨hcovers, hlog⟩ escrowId' ⟨executor, taskId, amount, c', hmem⟩
              have hid : escrowId' = escrowId := by
                simp only [List.cons_append, List.nil_append, List.mem_cons] at hmem
                rcases hmem with heq | heq | heq | hmem
                · cases heq
                · cases heq
                · cases heq
                  rfl
                · exact absurd (hlog _ hmem) (by simp [Op.locks])
              rw [hid, hcovers, hbids₃]
              rfl

theorem createBid_not_released {cfg : Settings} {b : CreateBidBody} {m m' : Store} {log : Record}
    {r : Except JsError Response} (hruns : Runs exec Anyhow (createBid cfg (.ok b)).run m log r m')
    (escrowId : String) : ¬ Released log escrowId := by
  rintro ⟨c, result, hmem⟩
  obtain ⟨past, hcall⟩ := Follows.runs (createBid_calls b) hruns _ hmem
  cases hcall with
  | select task bid valid h o saved call => cases call
  | emits h o emit => cases emit

/-- **When a bid request orphans no collateral.** If `createEscrow` was answered with an escrow id,
then at the end of the request a stored bid names the escrow, or it has been released, exactly if
the row of the bid was stored or another bid had that escrow already. -/
theorem createBid_covers_iff (cfg : Settings) (body : Parsed CreateBidBody) (m : Store)
    (hschema : ∀ b, body = .ok b → createBidSchema cfg b = true)
    (hids : (m.bids.map Bid.id).Nodup) (log : Record) (r : Except JsError Response) (m' : Store)
    (hruns : Runs exec Anyhow (createBid cfg body).run m log r m') (escrowId : String)
    (hlocked : Locked log escrowId) :
    (Covered m'.bids escrowId ∨ Released log escrowId) ↔
      (BidStored log ∨ Covered m.bids escrowId) := by
  cases body with
  | error detail =>
      have hlog : Solo exec Anyhow (createBid cfg (.error detail)) m fun log _ _ =>
          ∀ e ∈ log, e.op.locks = false := by
        unfold createBid
        split_ifs <;> simp
      exact absurd hlocked (not_locked (hlog log r m' hruns))
  | ok b =>
      rw [or_iff_left (createBid_not_released hruns escrowId)]
      exact createBid_covers cfg b m (hschema b rfl) hids log r m' hruns escrowId hlocked

/-- A bid of ten trillion USDC, more than the column for stroops holds. -/
def hugeBid : CreateBidBody where
  taskId := "t"
  executor := "GAAAAAAAAAAAAAAAAAAAAAAAAAAAAAAAAAAAAAAAAAAAAAAAAAAAAAAA"
  amount := "10000000000000"
  collateral := "1"
  secret := ""

/-- An open task without bids. -/
def openTask : Store := { threeBids with backend := .postgres, bids := [] }

/-- The request locks one USDC, and then its bid is refused as out of range. -/
theorem hugeBid_orphans : createBidSchema {} hugeBid = true ∧ ∃ log r m',
    Runs exec Anyhow (createBid {} (.ok hugeBid)).run openTask log r m' ∧ Locked log "e" ∧
    ¬ (Covered m'.bids "e" ∨ Released log "e") := by
  have hreplay : replay exec [{}, {}, { text := "e" }, { text := "b" }, { now := 7 },
      { fault := .refused (.other "value is out of range for type bigint") }]
      (createBid {} (.ok hugeBid)).run openTask = some (_, _, _) := rfl
  have hruns : Runs exec Anyhow (createBid {} (.ok hugeBid)).run openTask _ _ _ :=
    runs_of_replay hreplay fun _ _ => trivial
  refine ⟨by decide, _, _, _, hruns, ?_, ?_⟩
  · exact ⟨_, _, _, _, List.mem_cons_of_mem _ (List.mem_cons_of_mem _ List.mem_cons_self)⟩
  · rintro (⟨bid, hbid, -⟩ | hreleased)
    · exact absurd hbid List.not_mem_nil
    · exact createBid_not_released hruns "e" hreleased

/-- A smaller bid is stored, and covers its escrow although its event cannot be inserted. -/
theorem smallBid_covered : ∃ log r m',
    Runs exec Anyhow (createBid {} (.ok { hugeBid with amount := "5" })).run openTask log r m' ∧
    Locked log "e" ∧ (Covered m'.bids "e" ∨ Released log "e") := by
  have hreplay : replay exec [{}, {}, { text := "e" }, { text := "b" }, { now := 7 }, {},
      { text := "v" }, { fault := .refused (.other "connection terminated") }]
      (createBid {} (.ok { hugeBid with amount := "5" })).run openTask = some (_, _, _) := rfl
  have hruns : Runs exec Anyhow (createBid {} (.ok { hugeBid with amount := "5" })).run openTask
      _ _ _ := runs_of_replay hreplay fun _ _ => trivial
  have hthird : ∀ {a b c : Entry Op Reply Outcome} {log : Record}, c ∈ a :: b :: c :: log :=
    List.mem_cons_of_mem _ (List.mem_cons_of_mem _ List.mem_cons_self)
  refine ⟨_, _, _, hruns, ⟨_, _, _, _, hthird⟩, ?_⟩
  refine (createBid_covers_iff {} _ openTask ?_ List.nodup_nil _ _ _ hruns "e"
    ⟨_, _, _, _, hthird⟩).mpr (.inl ⟨_, _, rfl, rfl⟩)
  rintro b ⟨⟩
  decide

end TrustGate.Market
