import TrustGate.Contract.Registry
import TrustGate.Market.Requested

set_option autoImplicit false

/-! # Only admitted bids exist

A bid request checks the denylist, the task, the registry and the escrow before it saves anything,
with an await between any two of them, and selections write copies of bids back long after that. A
stored bid, selected or not, is nevertheless one that a request has admitted, unchanged but for its
status. The registry is the contract's: executors register while the market runs. -/

namespace TrustGate.Market

open Resumption Contract

/-! ## The market and the registry -/

/-- The registry after the calls `calls`, as `isRegistered` sees it. -/
def Outcome.withRegistry (c : Outcome) (reg : Registry) : Op → Outcome
  | .isRegistered executor => { c with registered := isRegistered reg executor }
  | _ => c

/-- The market over a store and the registry contract. Some executors may register before each
operation. -/
def registryMarket : System Op Reply Job (Outcome × List RegisterCall) (Store × Registry) where
  body := Job.body
  exec o c s :=
    let reg := s.2.after c.2
    (exec o (c.1.withRegistry reg o) s.1).map fun r => (r.1, r.2, reg)

theorem registryMarket_exec {o : Op} {c : Outcome × List RegisterCall} {s s' : Store × Registry}
    {r : Reply o} (h : registryMarket.exec o c s = some (r, s')) :
    exec o (c.1.withRegistry s'.2 o) s.1 = some (r, s'.1) ∧ s'.2 = s.2.after c.2 := by
  obtain ⟨⟨v, m⟩, hx, heq⟩ := Option.map_eq_some_iff.mp h
  cases heq
  exact ⟨hx, rfl⟩

/-! ## Admission -/

/-- A bid request that is admitted under `denylist` has placed the bid, but for its status: it read
the task as `OPEN`, was told that the executor is registered, and locked the collateral in the
escrow, in this order. -/
def AdmittedBid (denylist : List String) (jobs : Nat → Option Job) (t : Trace Op Reply)
    (bid : Bid) : Prop :=
  ∃ pid cfg b task, jobs pid = some (.createBid cfg (.ok b)) ∧
    escrowed b task bid.escrowId <:+ own pid t ∧ task.status = .open ∧
    bid.taskId = b.taskId ∧ bid.executorPublicKey = b.executor ∧ b.executor ∉ denylist ∧
    parseUsdcDecimalToStroops b.amount = .ok bid.amountStroops ∧ 0 < bid.amountStroops ∧
    parseUsdcDecimalToStroops b.collateral = .ok bid.collateralStroops ∧ 0 < bid.collateralStroops

/-- What bid requests there are: under `denylist`, with a body that the schema accepts. -/
def Job.bidsUnder (denylist : List String) : Job → Bool
  | .createBid cfg (.ok b) => cfg.executorDenylist = denylist && createBidSchema cfg b
  | _ => true

/-- All jobs under one denylist, with any faults and crashes. -/
abbrev underDenylist (denylist : List String) :
    Regime Op Reply Job (Outcome × List RegisterCall) (Store × Registry) :=
  ⟨fun j => j.bidsUnder denylist = true, fun _ _ _ _ _ => True, True⟩

theorem isUsdcAmount_pos {value : String} {stroops : Nat} (h : isUsdcAmount value = true)
    (hparse : parseUsdcDecimalToStroops value = .ok stroops) : 0 < stroops := by
  unfold isUsdcAmount at h
  rw [hparse] at h
  simpa using h

section

variable {denylist : List String} {jobs jobs' : Nat → Option Job} {t : Trace Op Reply} {pid : Nat}
  {j : Job} {bid bid' : Bid}

/-- A request places an admitted bid. -/
theorem Places.admitted (hp : Places j (own pid t) bid) (hjob : jobs pid = some j)
    (hj : j.bidsUnder denylist = true) : AdmittedBid denylist jobs t bid := by
  obtain ⟨cfg, b, task, rfl, valid, hown⟩ := hp
  simp only [Job.bidsUnder, createBidSchema, Bool.and_eq_true, decide_eq_true_eq] at hj
  obtain ⟨hdeny, ⟨⟨⟨-, -⟩, hamount⟩, hcollateral⟩, -⟩ := hj
  refine ⟨pid, cfg, b, task, hjob, ?_, valid.opened, valid.task, valid.executor, ?_, valid.amount,
    isUsdcAmount_pos hamount valid.amount, valid.collateral,
    isUsdcAmount_pos hcollateral valid.collateral⟩
  · rw [hown]
    exact (List.suffix_cons _ _).trans (List.suffix_cons _ _)
  · rw [← hdeny]
    exact valid.allowed

/-- The status of an admitted bid does not matter. -/
theorem AdmittedBid.congr (h : AdmittedBid denylist jobs t bid)
    (hplaced : bid.asPlaced = bid'.asPlaced) : AdmittedBid denylist jobs t bid' := by
  have hbid : bid' = { bid with status := bid'.status } := by
    have : bid' = { bid'.asPlaced with status := bid'.status } := rfl
    rw [this, ← hplaced]
    rfl
  rw [hbid]
  exact h

theorem AdmittedBid.more (hjobs : ∀ pid j, jobs pid = some j → jobs' pid = some j)
    (h : AdmittedBid denylist jobs t bid) : AdmittedBid denylist jobs' t bid := by
  obtain ⟨pid, cfg, b, task, hj, hrest⟩ := h
  exact ⟨pid, cfg, b, task, hjobs _ _ hj, hrest⟩

theorem own_suffix_cons {h : Hist} (hs : h <:+ own pid t) (c : Call Op Reply) :
    h <:+ own pid (c :: t) := by
  obtain ⟨pid', o, r⟩ := c
  by_cases hp : pid' = pid
  · subst hp
    rw [own_cons_self]
    exact hs.trans (List.suffix_cons _ _)
  · rwa [own_cons_ne hp]

theorem AdmittedBid.cons (h : AdmittedBid denylist jobs t bid) (c : Call Op Reply) :
    AdmittedBid denylist jobs (c :: t) bid := by
  obtain ⟨pid, cfg, b, task, hj, hs, hrest⟩ := h
  exact ⟨pid, cfg, b, task, hj, own_suffix_cons hs c, hrest⟩

end

/-! ## Runs -/

/-- Every copy of a bid is one of an admitted bid, and who was reported registered is so. -/
structure Admits (denylist : List String) (jobs : Nat → Option Job) (s : Store × Registry)
    (t : Trace Op Reply) : Prop where
  sound : Sound s.1 t
  bids : ∀ bid ∈ bidCopies s.1 t, AdmittedBid denylist jobs t bid
  registered : ∀ pid executor, ⟨pid, .isRegistered executor, .ok true⟩ ∈ t →
    isRegistered s.2 executor = true

theorem Admits.initial {denylist : List String} {jobs : Nat → Option Job} {m : Store}
    {reg : Registry} (tasks : m.tasks = []) (bids : m.bids = []) :
    Admits denylist jobs (m, reg) [] where
  sound := .initial tasks bids
  bids := by
    rintro bid (hb | ⟨c, hc, -⟩)
    · rw [bids] at hb
      cases hb
    · cases hc
  registered := fun _ _ hc => absurd hc List.not_mem_nil

theorem Admits.call {denylist : List String} {jobs : Nat → Option Job} {s s' : Store × Registry}
    {t : Trace Op Reply} {pid : Nat} {j : Job} {o : Op} {c : Outcome × List RegisterCall}
    {r : Reply o} (h : Admits denylist jobs s t) (hjob : jobs pid = some j)
    (hj : j.bidsUnder denylist = true) (hc : j.Calls (own pid t) o)
    (hx : registryMarket.exec o c s = some (r, s')) :
    Admits denylist jobs s' (⟨pid, o, r⟩ :: t) := by
  obtain ⟨hx, hreg⟩ := registryMarket_exec hx
  refine ⟨h.sound.call hc hx, ?_, ?_⟩
  · intro bid hb
    refine AdmittedBid.cons ?_ _
    -- a copy of a bid is like one from before, or the caller places it
    rcases bid_twin h.sound.alike h.sound.identified hc hx hb with
      ⟨old, hold, -, hplaced⟩ | ⟨-, hplaces⟩
    · exact (h.bids old hold).congr hplaced
    · exact hplaces.admitted hjob hj
  · intro p executor hmem
    rcases List.mem_cons.mp hmem with heq | hmem
    · cases heq
      have hanswer := exec_ok hx
      simp only [perform, Outcome.withRegistry, Option.some.injEq, Prod.mk.injEq] at hanswer
      exact hanswer.1
    · rw [hreg]
      exact isRegistered_after (h.registered p executor hmem) c.2

/-- No bid disappears, and of none anything but the status changes. -/
def Store.KeepsBids (m m' : Store) : Prop :=
  ∀ bid ∈ m.bids, (∃ row ∈ m'.bids, row.id = bid.id) ∧
    ∀ row ∈ m'.bids, row.id = bid.id → row.asPlaced = bid.asPlaced

theorem Store.KeepsBids.trans {a b c : Store} (hab : a.KeepsBids b) (hbc : b.KeepsBids c) :
    a.KeepsBids c := by
  intro bid hbid
  obtain ⟨⟨row, hrow, hid⟩, heq⟩ := hab bid hbid
  obtain ⟨⟨last, hlast, hid'⟩, heq'⟩ := hbc row hrow
  refine ⟨⟨last, hlast, hid'.trans hid⟩, fun row' hrow' hid'' => ?_⟩
  exact (heq' row' hrow' (hid''.trans hid.symm)).trans (heq row hrow hid)

theorem Sound.keepsBids_refl {m : Store} {t : Trace Op Reply} (h : Sound m t) : m.KeepsBids m :=
  fun bid hbid => ⟨⟨bid, hbid, rfl⟩, fun _ hrow hid => h.bid_eq (.inl hrow) (.inl hbid) hid⟩

theorem Sound.keepsBids {m m' : Store} {t : Trace Op Reply} {pid : Nat} {j : Job} {o : Op}
    {c : Outcome} {r : Reply o} (h : Sound m t) (hc : j.Calls (own pid t) o)
    (hx : exec o c m = some (r, m')) : m.KeepsBids m' := by
  intro bid hbid
  refine ⟨exists_bid_exec hx hbid, fun row hrow hid => ?_⟩
  rcases bid_twin h.alike h.identified hc hx (.inl hrow) with
    ⟨old, hold, hid', hplaced⟩ | ⟨-, hplaces⟩
  · exact hplaced.symm.trans (h.bid_eq hold (.inl hbid) (hid'.trans hid))
  · exact absurd hid.symm (h.identified.bidCopies_ne hplaces.held (.inl hbid))

/-- The rows of the bids and the registry in two states of a run, one after the other. -/
def Continues (s s' : Store × Registry) : Prop :=
  s.1.KeepsBids s'.1 ∧ ∀ executor, isRegistered s.2 executor = true →
    isRegistered s'.2 executor = true

instance : IsTrans (Store × Registry) Continues :=
  ⟨fun _ _ _ hab hbc => ⟨hab.1.trans hbc.1, fun executor hr => hbc.2 executor (hab.2 executor hr)⟩⟩

/-- **Only admitted bids exist**, from empty tables, under one denylist, whatever runs, fails or
crashes: each stored bid was admitted, its executor is registered, and in all later states it is
the same but for its status. -/
theorem only_admitted_bids (denylist : List String) (m : Store) (tasks : m.tasks = [])
    (bids : m.bids = []) (reg : Registry)
    (sched : List (Act Job (Outcome × List RegisterCall)))
    (fixed : Meets registryMarket (underDenylist denylist) (.initial (m, reg)) sched) :
    let cfg := runSched registryMarket (.initial (m, reg)) sched
    (∀ bid ∈ cfg.state.1.bids, AdmittedBid denylist cfg.jobOf cfg.trace bid ∧
      isRegistered cfg.state.2 bid.executorPublicKey = true) ∧
    (states registryMarket (.initial (m, reg)) sched).Pairwise Continues := by
  intro cfg
  have h : Admits denylist cfg.jobOf cfg.state cfg.trace :=
    (runSched_authored (I := Admits denylist) (Q := Job.Ended) (fun j _ => body_follows j)
      (fun _ _ _ _ hjobs h => ⟨h.sound, fun bid hb => (h.bids bid hb).more hjobs, h.registered⟩)
      (fun _ _ _ _ _ _ _ _ _ h hjob hj hc _ hx => h.call hjob hj hc hx) sched _
      (.initial tasks bids) (.initial _) fixed).1
  refine ⟨fun bid hbid => ?_, ?_⟩
  · have hadmitted := h.bids bid (.inl hbid)
    refine ⟨hadmitted, ?_⟩
    obtain ⟨pid, s, b, task, -, hs, -, -, hexecutor, -⟩ := hadmitted
    rw [hexecutor]
    have hmem : (⟨.isRegistered b.executor, .ok true⟩ : Done Op Reply) ∈
        escrowed b task bid.escrowId := by simp [escrowed]
    exact h.registered pid b.executor (mem_own.mp (hs.subset hmem))
  · rw [← List.isChain_iff_pairwise]
    refine states_chain (I := fun s t => Sound s.1 t) (Q := Job.Ended) (fun j _ => body_follows j)
      ?_ ?_ sched _ (.initial tasks bids) (.initial _) fixed
    · intro s t pid j o c r s' hs _ hc _ hx
      obtain ⟨hx, hreg⟩ := registryMarket_exec hx
      refine ⟨hs.call hc hx, hs.keepsBids hc hx, fun executor hr => ?_⟩
      rw [hreg]
      exact isRegistered_after hr c.2
    · exact fun s t hs => ⟨hs.keepsBids_refl, fun _ hr => hr⟩

/-! ## An executor registers and bids -/

def executorKey : String := "GAAAAAAAAAAAAAAAAAAAAAAAAAAAAAAAAAAAAAAAAAAAAAAAAAAAAAAA"

/-- The next call of `pid` succeeds, and the registry stays as it is. -/
def proceeds (pid : Nat) (c : Outcome) : Act Job (Outcome × List RegisterCall) := .run pid (c, [])

/-- A task is created; an executor registers and bids on it. -/
def registersAndBids : List (Act Job (Outcome × List RegisterCall)) :=
  [.spawn (.createPaid { hasOutbox := false } (.ok ⟨"R", "1", "work", 10, ""⟩)),
    proceeds 0 { text := "t" }, proceeds 0 {}, proceeds 0 {},
    .spawn (.createBid { hasOutbox := false, executorDenylist := ["X"] }
      (.ok ⟨"t", executorKey, "1", "2", ""⟩)),
    proceeds 1 {}, .run 1 ({}, [⟨[executorKey], executorKey, "https://example.com"⟩]),
    proceeds 1 { text := "e" }, proceeds 1 { text := "b" }, proceeds 1 { now := 1 }] ++
  List.replicate 5 (proceeds 1 {})

theorem registered_executor_admitted :
    let start : Config Op Reply Job (Store × Registry) := .initial (emptyStore, fun _ => none)
    let cfg := runSched registryMarket start registersAndBids
    cfg.state.1.bids.map Bid.status = [.selected] ∧
    (∀ bid ∈ cfg.state.1.bids, AdmittedBid ["X"] cfg.jobOf cfg.trace bid ∧
      isRegistered cfg.state.2 bid.executorPublicKey = true) ∧
    (states registryMarket start registersAndBids).Pairwise Continues :=
  ⟨by decide +kernel, only_admitted_bids ["X"] emptyStore rfl rfl (fun _ => none) _
    (by decide +kernel)⟩

end TrustGate.Market
