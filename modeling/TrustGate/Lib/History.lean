import TrustGate.Lib.Resumption

set_option autoImplicit false

/-! # History variables

What has happened in a run cannot always be read off the present state. A system can carry a
history along: after each call, `note` adds to it what the new state shows. Nothing that the system
does depends on it (`runSched_forget`).

With the history in the state, a property of every state of a run comes down to a condition on the
calls: `throughout_iff_meets` is for the case that the condition is exact. -/

namespace TrustGate.Resumption

section

variable {Op : Type} {Reply : Op → Type} {Job Outcome σ γ : Type}

/-! ## Recording -/

/-- The system with a history in its state. -/
def System.recording (sys : System Op Reply Job Outcome σ) (note : γ → σ → γ) :
    System Op Reply Job Outcome (σ × γ) where
  body := sys.body
  exec o c s := (sys.exec o c s.1).map fun rs => (rs.1, rs.2, note s.2 rs.2)

/-- The configuration without the history. -/
def Config.forget (cfg : Config Op Reply Job (σ × γ)) : Config Op Reply Job σ :=
  ⟨cfg.procs, cfg.state.1, cfg.trace⟩

variable {sys : System Op Reply Job Outcome σ} {note : γ → σ → γ}

theorem step_forget (cfg : Config Op Reply Job (σ × γ)) (a : Act Job Outcome) :
    (step (sys.recording note) cfg a).forget = step sys cfg.forget a := by
  cases a with
  | spawn j => rfl
  | crash pid => rfl
  | run pid c =>
      have hprocs : cfg.forget.procs[pid]? = cfg.procs[pid]? := rfl
      cases hp : cfg.procs[pid]? with
      | none => simp [step, hp, hprocs]
      | some q =>
          obtain ⟨j, _ | (a | ⟨o, k⟩)⟩ := q
          · simp [step, hp, hprocs]
          · simp [step, hp, hprocs]
          · have hexec : (sys.recording note).exec o c cfg.state =
                (sys.exec o c cfg.state.1).map fun rs => (rs.1, rs.2, note cfg.state.2 rs.2) := rfl
            have hstate : cfg.forget.state = cfg.state.1 := rfl
            cases hx : sys.exec o c cfg.state.1 with
            | none => simp [step, hp, hprocs, hexec, hstate, hx]
            | some rs =>
                simp only [step, hp, hprocs, hexec, hstate, hx, Option.map_some]
                rfl

/-- **Recording changes nothing.** -/
theorem runSched_forget (sched : List (Act Job Outcome)) :
    ∀ cfg : Config Op Reply Job (σ × γ),
      (runSched (sys.recording note) cfg sched).forget = runSched sys cfg.forget sched := by
  induction sched with
  | nil => exact fun _ => rfl
  | cons a as ih =>
      intro cfg
      rw [runSched, ih, step_forget, runSched]

end

/-! ## Properties of every state -/

section

variable {Op : Type} {Reply : Op → Type} {Job Outcome σ : Type}

/-- All runs in which each call is one that `meant` allows in the state before it. -/
def Regime.calls (meant : σ → Op → Outcome → Prop) : Regime Op Reply Job Outcome σ :=
  ⟨fun _ => True, fun s _ _ o c => meant s o c, True⟩

instance (meant : σ → Op → Outcome → Prop) :
    DecidablePred (Regime.calls meant : Regime Op Reply Job Outcome σ).job :=
  fun _ => .isTrue trivial

instance (meant : σ → Op → Outcome → Prop) :
    Decidable (Regime.calls meant : Regime Op Reply Job Outcome σ).crash :=
  .isTrue trivial

instance (meant : σ → Op → Outcome → Prop) [∀ s o c, Decidable (meant s o c)] (s : σ)
    (t : Trace Op Reply) (pid : Nat) (o : Op) (c : Outcome) :
    Decidable ((Regime.calls meant : Regime Op Reply Job Outcome σ).call s t pid o c) :=
  inferInstanceAs (Decidable (meant s o c))

variable {sys : System Op Reply Job Outcome σ}

theorem state_mem_states (cfg : Config Op Reply Job σ) (sched : List (Act Job Outcome)) :
    cfg.state ∈ states sys cfg sched := by
  cases sched <;> exact List.mem_cons_self

/-- A move of the process `pid`: nothing can be carried out for it, or its pending operation is. -/
theorem run_cases (cfg : Config Op Reply Job σ) (pid : Nat) (c : Outcome) :
    ((∀ o ∈ cfg.pending pid, sys.exec o c cfg.state = none) ∧
      (step sys cfg (.run pid c)).state = cfg.state) ∨
    ∃ o r s', cfg.pending pid = some o ∧ sys.exec o c cfg.state = some (r, s') ∧
      (step sys cfg (.run pid c)).state = s' := by
  unfold step Config.pending
  dsimp only
  split
  · rename_i j o k hp
    cases hx : sys.exec o c cfg.state with
    | none =>
        refine .inl ⟨?_, rfl⟩
        intro o' ho
        cases ho
        exact hx
    | some rs => exact .inr ⟨o, rs.1, rs.2, rfl, hx, rfl⟩
  · exact .inl ⟨nofun, rfl⟩

/-- **The exactness rule.** In states with the invariant `J`, let a call keep `I` exactly when it is
meant. Then `I` holds of all states of a run exactly when all its calls are meant. -/
theorem throughout_iff_meets {I J : σ → Prop} {meant : σ → Op → Outcome → Prop}
    (keeps : ∀ s o c r s', J s → sys.exec o c s = some (r, s') → J s')
    (exact_ : ∀ s o c r s', J s → I s → sys.exec o c s = some (r, s') → (I s' ↔ meant s o c))
    (stuck : ∀ s o c, sys.exec o c s = none → meant s o c) (sched : List (Act Job Outcome)) :
    ∀ cfg : Config Op Reply Job σ, J cfg.state → I cfg.state →
      ((∀ s ∈ states sys cfg sched, I s) ↔ Meets sys (.calls meant) cfg sched) := by
  induction sched with
  | nil =>
      intro cfg _ hI
      simp only [states, List.mem_singleton, forall_eq, Meets, iff_true]
      exact hI
  | cons a as ih =>
      intro cfg hJ hI
      have hstep : J (step sys cfg a).state ∧
          (I (step sys cfg a).state ↔ Permits (.calls meant) cfg a) := by
        cases a with
        | spawn j => exact ⟨hJ, fun _ => trivial, fun _ => hI⟩
        | crash pid => exact ⟨hJ, fun _ => trivial, fun _ => hI⟩
        | run pid c =>
            rcases run_cases cfg pid c with ⟨hnone, hs⟩ | ⟨o, r, s', ho, hx, hs⟩
            · rw [hs]
              exact ⟨hJ, fun _ o ho => stuck _ _ _ (hnone o ho), fun _ => hI⟩
            · rw [hs]
              refine ⟨keeps _ _ _ _ _ hJ hx, (exact_ _ _ _ _ _ hJ hI hx).trans ?_⟩
              show _ ↔ ∀ o' ∈ cfg.pending pid, meant cfg.state o' c
              simp [ho]
      obtain ⟨hJ', hiff⟩ := hstep
      rw [states, List.forall_mem_cons, Meets]
      -- the first call that is not meant breaks `I`, so up to there the run is meant
      constructor
      · rintro ⟨-, hall⟩
        have hI' := hall _ (state_mem_states _ as)
        exact ⟨hiff.mp hI', (ih _ hJ' hI').mp hall⟩
      · rintro ⟨hperm, hrest⟩
        exact ⟨hI, (ih _ hJ' (hiff.mpr hperm)).mpr hrest⟩

/-- **The transfer rule.** A run that a regime means has only calls that `meant` allows, if that
follows for every explained call from an invariant of the run. -/
theorem Meets.calls {R : Regime Op Reply Job Outcome σ} {P : Job → Past Op Reply → Op → Prop}
    {Q : Job → Past Op Reply → Prop} {I : σ → Trace Op Reply → Prop}
    {meant : σ → Op → Outcome → Prop}
    (body : ∀ j, R.job j → Follows (P j) (fun h _ => Q j h) (sys.body j) [])
    (call : ∀ s t pid j o c r s', I s t → R.job j → P j (own pid t) o → R.call s t pid o c →
      sys.exec o c s = some (r, s') → I s' (⟨pid, o, r⟩ :: t))
    (allowed : ∀ s t pid j o c, I s t → P j (own pid t) o → R.call s t pid o c → meant s o c)
    (sched : List (Act Job Outcome)) : ∀ cfg : Config Op Reply Job σ,
      I cfg.state cfg.trace → Explained R P Q cfg → Meets sys R cfg sched →
      Meets sys (.calls meant) cfg sched := by
  induction sched with
  | nil => exact fun _ _ _ _ => trivial
  | cons a as ih =>
      rintro cfg hI he ⟨hperm, hrest⟩
      obtain ⟨he', hstep⟩ := he.step_cases body hperm
      refine ⟨?_, ih _ ?_ he' hrest⟩
      · cases a with
        | spawn j => trivial
        | crash pid => trivial
        | run pid c =>
            intro o ho
            obtain ⟨j, -, hP⟩ := he.issued ho
            exact allowed _ _ pid j o c hI hP (hperm o ho)
      · rcases hstep with ⟨hs, ht⟩ | ⟨pid, j, o, c, r, s', -, hj, hP, hR, hx, hs, ht⟩
        · rw [hs, ht]; exact hI
        · rw [hs, ht]; exact call _ _ pid j o c r s' hI hj hP hR hx

end

end TrustGate.Resumption
