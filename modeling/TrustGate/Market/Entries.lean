import TrustGate.Market.Effects

set_option autoImplicit false

/-! # The entries of the stream

The stream keeps its entries in the order in which they were added, and its group remembers how far
it has read. What one call can do to the stream is listed once, in `StreamStep`. -/

namespace TrustGate.Market

open Resumption

namespace Stream

/-! ## One stream -/

/-- Entry ids go up, and the group has read up to one of them. -/
structure Ordered (s : Stream) : Prop where
  sorted : s.entries.Pairwise fun a b => a.entryId < b.entryId
  bounded : ∀ e ∈ s.entries, e.entryId ≤ s.lastId
  read : s.lastDelivered ≤ s.lastId

/-- The group holds the entry: it was delivered and not acknowledged yet. -/
def Holds (s : Stream) (entryId : Nat) : Prop := ∃ p ∈ s.pending, p.entryId = entryId

instance (s : Stream) (entryId : Nat) : Decidable (s.Holds entryId) :=
  inferInstanceAs (Decidable (∃ p ∈ s.pending, _))

/-- How many of the oldest entries `XADD` drops. -/
def trimmed (s : Stream) (drop : Nat) : Nat := min drop (s.entries.length + 1 - 10000)

/-- The entry that `XADD` appends. -/
def entryFor (s : Stream) (event : OutboxEvent) : StreamEntry where
  entryId := s.lastId + 1
  id := event.id
  type := event.type
  aggregateType := event.aggregateType
  aggregateId := event.aggregateId
  payload := event.payload

/-- The entries that the group has not read. -/
def unread (s : Stream) : List StreamEntry := s.entries.filter fun e => s.lastDelivered < e.entryId

/-- The pending entries that `XAUTOCLAIM` takes over. -/
def claimed (s : Stream) (cursor count : Nat) (idle : List Nat) : List Nat :=
  ((s.pending.filter fun p => cursor ≤ p.entryId && p.entryId ∈ idle).take count).map
    PendingEntry.entryId

/-- Those of them that were trimmed from the stream: they are dropped from the pending list. -/
def gone (s : Stream) (cursor count : Nat) (idle : List Nat) : List Nat :=
  (s.claimed cursor count idle).filter fun id => s.entries.all fun e => e.entryId ≠ id

variable {s : Stream}

/-- The new entry itself is never dropped. -/
theorem add_entries (s : Stream) (event : OutboxEvent) (drop : Nat) :
    (s.add event drop).entries = s.entries.drop (s.trimmed drop) ++ [s.entryFor event] := by
  show (s.entries ++ [s.entryFor event]).drop
    (min drop ((s.entries ++ [s.entryFor event]).length - 10000)) = _
  rw [List.length_append, List.length_singleton, List.drop_append_of_le_length]
  · rfl
  · exact (Nat.min_le_right _ _).trans (by omega)

theorem pending_autoClaim (s : Stream) (consumer : String) (cursor count : Nat) (idle : List Nat) :
    (s.autoClaim consumer cursor count idle).2.pending =
      (s.pending.filter fun p => p.entryId ∉ s.claimed cursor count idle ||
        (s.entries.filter fun e => e.entryId ∈ s.claimed cursor count idle).any fun e =>
          e.entryId = p.entryId).map fun p =>
        if p.entryId ∈ s.claimed cursor count idle then { p with consumer := consumer } else p :=
  rfl

theorem holds_autoClaim (s : Stream) (consumer : String) (cursor count : Nat) (idle : List Nat)
    (entryId : Nat) : (s.autoClaim consumer cursor count idle).2.Holds entryId ↔
      s.Holds entryId ∧ entryId ∉ s.gone cursor count idle := by
  have hkept : ∀ id, id ∉ s.gone cursor count idle ↔
      (decide (id ∉ s.claimed cursor count idle) ||
        (s.entries.filter fun e => e.entryId ∈ s.claimed cursor count idle).any
          fun e => e.entryId = id) = true := by
    intro id
    unfold gone
    by_cases hid : id ∈ s.claimed cursor count idle
    · have hmem : ∀ e : StreamEntry, e.entryId = id → e.entryId ∈ s.claimed cursor count idle :=
        fun e heq => heq ▸ hid
      simp only [List.mem_filter, hid, true_and, not_true, decide_false, Bool.false_or,
        List.any_eq_true, List.all_eq_true, decide_eq_true_eq]
      push Not
      exact ⟨fun ⟨e, he, heq⟩ => ⟨e, ⟨he, hmem e heq⟩, heq⟩,
        fun ⟨e, ⟨he, _⟩, heq⟩ => ⟨e, he, heq⟩⟩
    · simp [hid]
  -- the filter of `pending_autoClaim` keeps what is not gone, and only consumers are renamed
  rw [hkept]
  unfold Holds
  rw [pending_autoClaim]
  constructor
  · rintro ⟨q, hq, heq⟩
    obtain ⟨p, hp, rfl⟩ := List.mem_map.mp hq
    obtain ⟨hp, hk⟩ := List.mem_filter.mp hp
    have hid : p.entryId = entryId := by
      split_ifs at heq <;> exact heq
    exact ⟨⟨p, hp, hid⟩, hid ▸ hk⟩
  · rintro ⟨⟨p, hp, rfl⟩, hk⟩
    refine ⟨_, List.mem_map_of_mem (List.mem_filter.mpr ⟨hp, hk⟩), ?_⟩
    split_ifs <;> rfl

theorem holds_ack (s : Stream) (acked entryId : Nat) :
    (s.ack acked).Holds entryId ↔ s.Holds entryId ∧ entryId ≠ acked := by
  unfold Holds ack
  simp only [List.mem_filter, decide_eq_true_eq]
  exact ⟨fun ⟨p, ⟨hp, hne⟩, heq⟩ => ⟨⟨p, hp, heq⟩, heq ▸ hne⟩,
    fun ⟨⟨p, hp, heq⟩, hne⟩ => ⟨p, ⟨hp, heq ▸ hne⟩, heq⟩⟩

theorem holds_readGroup (s : Stream) (consumer : String) (count entryId : Nat) :
    (s.readGroup consumer count).2.Holds entryId ↔
      s.Holds entryId ∨ ∃ e ∈ s.unread.take count, e.entryId = entryId := by
  unfold Holds readGroup
  simp only [List.mem_append, List.mem_map]
  constructor
  · rintro ⟨p, hp | ⟨e, he, rfl⟩, heq⟩
    · exact .inl ⟨p, hp, heq⟩
    · exact .inr ⟨e, he, heq⟩
  · rintro (⟨p, hp, heq⟩ | ⟨e, he, heq⟩)
    · exact ⟨p, .inl hp, heq⟩
    · exact ⟨_, .inr ⟨e, he, rfl⟩, heq⟩

/-- The group reads in order: up to an entry that was there, and nothing before it is left out. -/
theorem Ordered.readGroup (h : s.Ordered) (consumer : String) (count : Nat) :
    (s.readGroup consumer count).2.Ordered ∧
    s.lastDelivered ≤ (s.readGroup consumer count).2.lastDelivered ∧
    ∀ e ∈ s.entries, s.lastDelivered < e.entryId →
      e.entryId ≤ (s.readGroup consumer count).2.lastDelivered → e ∈ s.unread.take count := by
  have hlast : (s.readGroup consumer count).2.lastDelivered =
      ((s.unread.take count).getLast?.map StreamEntry.entryId).getD s.lastDelivered := rfl
  have hunread : ∀ e ∈ s.unread, e ∈ s.entries ∧ s.lastDelivered < e.entryId := fun e he => by
    simpa [unread] using he
  have hsorted : s.unread.Pairwise fun a b => a.entryId < b.entryId := h.sorted.filter _
  -- without a new entry the cursor stays; otherwise it moves to the last one taken
  cases hl : (s.unread.take count).getLast? with
  | none =>
      rw [hl] at hlast
      have hsame : (s.readGroup consumer count).2.lastDelivered = s.lastDelivered := hlast
      refine ⟨⟨h.sorted, h.bounded, hsame.trans_le h.read⟩, hsame.ge, ?_⟩
      intro e _ hnew hle
      exact absurd (hle.trans_eq hsame) (Nat.not_le_of_lt hnew)
  | some last =>
      rw [hl] at hlast
      have hid : (s.readGroup consumer count).2.lastDelivered = last.entryId := hlast
      have hmem : last ∈ s.unread.take count := List.mem_of_getLast? hl
      obtain ⟨hentry, hnew⟩ := hunread last (List.mem_of_mem_take hmem)
      refine ⟨⟨h.sorted, h.bounded, hid.trans_le (h.bounded last hentry)⟩, ?_, ?_⟩
      · rw [hid]
        exact hnew.le
      · intro e he hlt hle
        have hu : e ∈ s.unread.take count ++ s.unread.drop count := by
          rw [List.take_append_drop]
          simp [unread, he, hlt]
        rcases List.mem_append.mp hu with hu | hu
        · exact hu
        · -- what is not taken comes after the last one taken
          have hsplit := hsorted
          rw [← List.take_append_drop count s.unread, List.pairwise_append] at hsplit
          have := hsplit.2.2 last hmem e hu
          rw [hid] at hle
          exact absurd hle (Nat.not_le_of_lt this)

/-- The group has read what it is given now. -/
theorem Ordered.le_lastDelivered (h : s.Ordered) (consumer : String) (count : Nat) {e : StreamEntry}
    (he : e ∈ s.unread.take count) :
    e.entryId ≤ (s.readGroup consumer count).2.lastDelivered := by
  have hsorted : (s.unread.take count).Pairwise fun a b => a.entryId < b.entryId :=
    (h.sorted.filter _).sublist (List.take_sublist _ _)
  have hlast : (s.readGroup consumer count).2.lastDelivered =
      ((s.unread.take count).getLast?.map StreamEntry.entryId).getD s.lastDelivered := rfl
  rw [hlast]
  cases hl : (s.unread.take count).getLast? with
  | none => exact absurd (List.getLast?_eq_none_iff.mp hl) (List.ne_nil_of_mem he)
  | some last =>
      obtain ⟨before, hsplit⟩ := List.getLast?_eq_some_iff.mp hl
      rw [hsplit] at he hsorted
      rcases List.mem_append.mp he with he | he
      · exact ((List.pairwise_append.mp hsorted).2.2 e he last (List.mem_singleton_self _)).le
      · cases List.mem_singleton.mp he
        exact le_rfl

theorem Ordered.add (h : s.Ordered) (event : OutboxEvent) (drop : Nat) :
    (s.add event drop).Ordered := by
  have hmem : ∀ e ∈ s.entries.drop (s.trimmed drop), e.entryId ≤ s.lastId := fun e he =>
    h.bounded e (List.mem_of_mem_drop he)
  refine ⟨?_, ?_, h.read.trans (Nat.le_succ _)⟩
  · rw [add_entries, List.pairwise_append]
    refine ⟨h.sorted.sublist (List.drop_sublist _ _), List.pairwise_singleton _ _, ?_⟩
    intro a ha b hb
    cases List.mem_singleton.mp hb
    exact Nat.lt_succ_of_le (hmem a ha)
  · rw [add_entries]
    intro e he
    rcases List.mem_append.mp he with he | he
    · exact (hmem e he).trans (Nat.le_succ _)
    · cases List.mem_singleton.mp he
      exact le_rfl

end Stream

/-! ## One call -/

/-- What a call, carried out as `c` says, can do to the stream. -/
inductive StreamStep (c : Outcome) (m m' : Store) : Op → Prop
  | same (o : Op) (stream : m'.stream = m.stream) : StreamStep c m m' o
  | add (event : OutboxEvent) (stream : m'.stream = m.stream.add event c.drop) :
      StreamStep c m m' (.xAdd event)
  | read (consumer : String) (count : Nat)
      (stream : m'.stream = (m.stream.readGroup consumer count).2) :
      StreamStep c m m' (.xReadGroup consumer count)
  | claim (consumer : String) (cursor count : Nat)
      (stream : m'.stream = (m.stream.autoClaim consumer cursor count c.idle).2) :
      StreamStep c m m' (.xAutoClaim consumer cursor count)
  | ack (entryId : Nat) (stream : m'.stream = m.stream.ack entryId) :
      StreamStep c m m' (.xAck entryId)

/-- **Every call is one of the list.** -/
theorem streamStep {o : Op} {c : Outcome} {m m' : Store} {r : Reply o}
    (hx : exec o c m = some (r, m')) : StreamStep c m m' o := by
  rcases exec_cases hx with ⟨-, rfl, -⟩ | ⟨-, v, hp, -⟩
  · exact .same o rfl
  cases o with
  | xAdd event =>
      cases hp
      exact .add event rfl
  | xReadGroup consumer count =>
      cases hp
      exact .read consumer count rfl
  | xAutoClaim consumer cursor count =>
      cases hp
      exact .claim consumer cursor count rfl
  | xAck entryId =>
      cases hp
      exact .ack entryId rfl
  | _ => exact .same _ ((perform_frame hp).stream nofun nofun nofun nofun)

end TrustGate.Market
