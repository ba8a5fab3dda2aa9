import TrustGate.Lib.Solo
import TrustGate.Market.Effects

set_option autoImplicit false

/-! # A service by itself

Runs of one service while nothing else happens. -/

namespace TrustGate.Market

open Resumption

/-- What a service has carried out, with the outcomes. -/
abbrev Record := Log Op Reply Outcome

/-- The call succeeds. -/
def Calm (_ : Op) (c : Outcome) : Prop := c.fault = .none

/-- The `save` of a task or of a bid. -/
def Op.isSave : Op → Bool
  | .saveTask _ => true
  | .saveBid _ => true
  | _ => false

/-- The call succeeds, unless it is a `save`. -/
def SavesMayFail (o : Op) (c : Outcome) : Prop := o.isSave = false → c.fault = .none

instance (o : Op) (c : Outcome) : Decidable (SavesMayFail o c) := inferInstanceAs (Decidable (_ → _))

/-- Any outcome. -/
def Anyhow (_ : Op) (_ : Outcome) : Prop := True

/-- A UUID that was not handed out yet. -/
theorem exists_fresh (m : Store) : ∃ id, id ≠ "" ∧ id ∉ m.issued := by
  obtain ⟨id, hid⟩ := Infinite.exists_notMem_finset ("" :: m.issued).toFinset
  simp only [List.mem_toFinset, List.mem_cons, not_or] at hid
  exact ⟨id, hid.1, hid.2⟩

/-- Any operation can succeed. -/
theorem exec_possible (o : Op) (m : Store) : ∃ c : Outcome, c.fault = .none ∧ exec o c m ≠ none := by
  by_cases ho : o = .randomUUID
  · obtain ⟨id, -, hid⟩ := exists_fresh m
    subst ho
    refine ⟨{ text := id }, rfl, ?_⟩
    simp [exec, perform, hid]
  · refine ⟨{}, rfl, ?_⟩
    cases o <;> first | exact absurd rfl ho | simp [exec, perform]

section

variable {ok : Op → Outcome → Prop} {β : Type} {m : Store}

/-- The clock and the UUID source do not fail. -/
theorem local_calm {o : Op} {c : Outcome} (ho : o.isLocal = true) (h : exec o c m ≠ none) :
    c.fault = .none := by
  unfold exec at h
  split at h
  · assumption
  · rw [if_pos ho] at h
    exact absurd rfl h
  · rw [if_pos ho] at h
    exact absurd rfl h

/-- An operation that succeeds whenever it is admitted and possible. -/
theorem solo_await {o : Op} (hok : ∀ c, ok o c → exec o c m ≠ none → c.fault = .none)
    {f : Value o → Js β} {Q : Record → Except JsError β → Store → Prop}
    (h : ∀ c v m', ok o c → perform c m o = some (v, m') →
      Solo exec ok (f v) m' fun log => Q (⟨o, c, .ok v⟩ :: log)) :
    Solo exec ok (await o >>= f) m Q := by
  rw [solo_call_bind]
  refine ⟨fun c v m' hc hx => h c v m' hc (exec_ok hx), fun c e m' hc hx => ?_⟩
  obtain ⟨v, -, hv⟩ := exec_calm hx (hok c hc (by simp [hx]))
  cases hv

end

end TrustGate.Market
