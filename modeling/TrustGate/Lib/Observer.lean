import TrustGate.Lib.Resumption

set_option autoImplicit false

/-! # Readers beside a run

A program that changes nothing need not be one of the processes of a run: its calls are carried out
in states the run goes through, one after the other. What it returns is then what these states
show, and an invariant of the run tells about it (`Observes.follows`, `prefix_of_mem_states`). The
calls of the run itself are looked up the same way (`prefix_of_call`). -/

namespace TrustGate.Resumption

section

variable {Op : Type} {Reply : Op → Type} {Job Outcome σ α : Type}

/-- The program may return `a` if each of its calls is carried out in one of the states, in their
order, and leaves it as it is. -/
inductive Observes (sys : System Op Reply Job Outcome σ) :
    List σ → Prog Op Reply α → α → Prop
  | ret (states : List σ) (a : α) : Observes sys states (.ret a) a
  | later (s : σ) (states : List σ) (p : Prog Op Reply α) (a : α) (rest : Observes sys states p a) :
      Observes sys (s :: states) p a
  | call (s : σ) (states : List σ) (o : Op) (k : Reply o → Prog Op Reply α) (c : Outcome)
      (r : Reply o) (a : α) (done : sys.exec o c s = some (r, s))
      (rest : Observes sys (s :: states) (k r) a) : Observes sys (s :: states) (.await o k) a

variable {sys : System Op Reply Job Outcome σ}

/-- What the reader was replied is what some state shows. -/
def SeenIn (sys : System Op Reply Job Outcome σ) (states : List σ) (d : Done Op Reply) : Prop :=
  ∃ s ∈ states, ∃ c, sys.exec d.op c s = some (d.reply, s)

/-- **A reader's result is explained by what it has seen.** -/
theorem Observes.follows {P : Past Op Reply → Op → Prop} {Q : Past Op Reply → α → Prop}
    {l : List σ} {p : Prog Op Reply α} {a : α} (ho : Observes sys l p a) :
    ∀ h, Follows P Q p h → (∀ d ∈ h, SeenIn sys l d) →
      ∃ h', Q h' a ∧ ∀ d ∈ h', SeenIn sys l d := by
  suffices ∀ all : List σ, l ⊆ all → ∀ h, Follows P Q p h →
      (∀ d ∈ h, SeenIn sys all d) → ∃ h', Q h' a ∧ ∀ d ∈ h', SeenIn sys all d from
    this l (List.Subset.refl l)
  intro all hsub
  induction ho with
  | ret states a =>
      intro h hp hseen
      exact ⟨h, hp, hseen⟩
  | later s states p a rest ih =>
      intro h hp hseen
      exact ih (fun x hx => hsub (List.mem_cons_of_mem _ hx)) h hp hseen
  | call s states o k c r a done rest ih =>
      intro h hp hseen
      refine ih hsub _ (hp.2 r) fun d hd => ?_
      rcases List.mem_cons.mp hd with rfl | hd
      · exact ⟨s, hsub List.mem_cons_self, c, done⟩
      · exact hseen d hd

/-! ## The states of a run -/

/-- A state of a run is the last one of a part of the schedule. -/
theorem prefix_of_mem_states {s : σ} (sched : List (Act Job Outcome)) :
    ∀ cfg : Config Op Reply Job σ, s ∈ states sys cfg sched →
      ∃ done left, sched = done ++ left ∧ (runSched sys cfg done).state = s := by
  induction sched with
  | nil =>
      intro cfg hs
      cases List.mem_singleton.mp hs
      exact ⟨[], [], rfl, rfl⟩
  | cons a as ih =>
      intro cfg hs
      rcases List.mem_cons.mp hs with rfl | hs
      · exact ⟨[], a :: as, rfl, rfl⟩
      · obtain ⟨done, left, rfl, heq⟩ := ih _ hs
        exact ⟨a :: done, left, rfl, heq⟩

theorem trace_suffix_step (cfg : Config Op Reply Job σ) (a : Act Job Outcome) :
    cfg.trace <:+ (step sys cfg a).trace := by
  cases a with
  | spawn j => exact List.suffix_rfl
  | crash pid => exact List.suffix_rfl
  | run pid c =>
      unfold step
      dsimp only
      split
      · split
        · exact List.suffix_cons _ _
        · exact List.suffix_rfl
      · exact List.suffix_rfl

/-- The trace only grows. -/
theorem trace_suffix_runSched (sched : List (Act Job Outcome)) :
    ∀ cfg : Config Op Reply Job σ, cfg.trace <:+ (runSched sys cfg sched).trace := by
  induction sched with
  | nil => exact fun _ => List.suffix_rfl
  | cons a as ih => exact fun cfg => (trace_suffix_step cfg a).trans (ih _)

theorem call_of_step {call : Call Op Reply} (cfg : Config Op Reply Job σ) (a : Act Job Outcome)
    (h : call ∈ (step sys cfg a).trace) :
    call ∈ cfg.trace ∨ ∃ c s', sys.exec call.op c cfg.state = some (call.reply, s') := by
  cases a with
  | spawn j => exact .inl h
  | crash pid => exact .inl h
  | run pid c =>
      unfold step at h
      dsimp only at h
      split at h
      · split at h
        · rename_i r s' hx
          rcases List.mem_cons.mp h with rfl | h
          · exact .inr ⟨c, s', hx⟩
          · exact .inl h
        · exact .inl h
      · exact .inl h

/-- A call of a run was carried out in the state after a part of the schedule. -/
theorem prefix_of_call {call : Call Op Reply} (sched : List (Act Job Outcome)) :
    ∀ cfg : Config Op Reply Job σ, call ∈ (runSched sys cfg sched).trace → call ∈ cfg.trace ∨
      ∃ done left c s', sched = done ++ left ∧
        sys.exec call.op c (runSched sys cfg done).state = some (call.reply, s') := by
  induction sched with
  | nil => exact fun cfg h => .inl h
  | cons a as ih =>
      intro cfg h
      rcases ih _ h with h | ⟨done, left, c, s', rfl, hx⟩
      · rcases call_of_step cfg a h with h | ⟨c, s', hx⟩
        · exact .inl h
        · exact .inr ⟨[], a :: as, c, s', rfl, hx⟩
      · exact .inr ⟨a :: done, left, c, s', rfl, hx⟩

end

end TrustGate.Resumption
