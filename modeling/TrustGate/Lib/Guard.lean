import TrustGate.Lib.Resumption

set_option autoImplicit false

/-! # Re-entrancy guards

A flag in the shared state keeps a section of code to one process at a time. It is tested and set in
one step on the way in and cleared on the way out. A process can also leave the section with the flag
still set, and is then stranded outside it with all others: nobody gets in any more
(`Guard.Kept.shut`). -/

namespace TrustGate.Resumption

section

variable {Op : Type} {Reply : Op → Type} {σ : Type}

inductive GuardStep where
  | enter | clear | strand
  deriving DecidableEq

/-- A flag, and the calls that have to do with it. -/
structure Guard (Op : Type) (Reply : Op → Type) (σ : Type) where
  flag : σ → Bool
  step : Done Op Reply → Option GuardStep

variable (g : Guard Op Reply σ)

namespace Guard

/-- A process with this past is in the section. -/
def inside : Past Op Reply → Bool
  | [] => false
  | d :: h =>
      match g.step d with
      | some .enter => true
      | some .clear => false
      | some .strand => false
      | none => inside h

/-- The flag was left set. -/
def Stranded (t : Trace Op Reply) : Prop :=
  ∃ call ∈ t, g.step ⟨call.op, call.reply⟩ = some .strand

/-- What a call of a process with the past `h` does to the flag. -/
def Respects (h : Past Op Reply) (d : Done Op Reply) (s s' : σ) : Prop :=
  match g.step d with
  | some .enter => g.flag s = false ∧ g.flag s' = true
  | some .clear => g.inside h = true ∧ g.flag s' = false
  | some .strand => g.inside h = true ∧ g.flag s' = g.flag s
  | none => g.flag s' = g.flag s

/-- **The guard does its work**: one process at most is in the section, and the flag is set while one
is, or was left set. -/
structure Kept (s : σ) (t : Trace Op Reply) : Prop where
  alone : ∀ pid pid', g.inside (own pid t) = true → g.inside (own pid' t) = true → pid = pid'
  shut : g.flag s = true ↔ (∃ pid, g.inside (own pid t) = true) ∨ g.Stranded t
  empty : g.Stranded t → ∀ pid, g.inside (own pid t) = false

variable {g} {s s' : σ} {t : Trace Op Reply} {pid : Nat} {o : Op} {r : Reply o}

theorem inside_cons {d : Done Op Reply} {h : Past Op Reply} (hd : g.step d = none) :
    g.inside (d :: h) = g.inside h := by
  rw [inside, hd]

/-- Other calls do not matter. -/
theorem inside_append {l h : Past Op Reply} (hl : ∀ d ∈ l, g.step d = none) :
    g.inside (l ++ h) = g.inside h := by
  induction l with
  | nil => rfl
  | cons d l ih =>
      rw [List.cons_append, inside_cons (hl d List.mem_cons_self)]
      exact ih fun d' hd' => hl d' (List.mem_cons_of_mem _ hd')

theorem stranded_cons :
    g.Stranded (⟨pid, o, r⟩ :: t) ↔ g.step ⟨o, r⟩ = some .strand ∨ g.Stranded t := by
  simp [Stranded]

theorem Kept.initial (hs : g.flag s = false) : g.Kept s [] where
  alone _ _ h := nomatch h
  shut := by simp [hs, Stranded, inside]
  empty := by simp [Stranded]

/-- A call that has nothing to do with the flag. -/
theorem Kept.other (h : g.Kept s t) (hstep : g.step ⟨o, r⟩ = none)
    (hflag : g.flag s' = g.flag s) : g.Kept s' (⟨pid, o, r⟩ :: t) := by
  have hinside (i : Nat) : g.inside (own i (⟨pid, o, r⟩ :: t)) = g.inside (own i t) := by
    by_cases hi : pid = i
    · subst hi
      rw [own_cons_self, inside_cons hstep]
    · rw [own_cons_ne hi]
  have hstranded : g.Stranded (⟨pid, o, r⟩ :: t) ↔ g.Stranded t := by
    rw [stranded_cons, hstep]
    simp
  constructor
  · intro i i' hi hi'
    rw [hinside] at hi hi'
    exact h.alone i i' hi hi'
  · simp only [hinside, hstranded, hflag]
    exact h.shut
  · intro hs i
    rw [hinside]
    exact h.empty (hstranded.mp hs) i

/-- A process gets in: nobody was inside. -/
theorem Kept.enter (h : g.Kept s t) (hstep : g.step ⟨o, r⟩ = some .enter)
    (hopen : g.flag s = false) (hset : g.flag s' = true) : g.Kept s' (⟨pid, o, r⟩ :: t) := by
  have hnobody : ¬ ((∃ i, g.inside (own i t) = true) ∨ g.Stranded t) := by
    rw [← h.shut, hopen]
    simp
  rw [not_or, not_exists] at hnobody
  have hself : g.inside (own pid (⟨pid, o, r⟩ :: t)) = true := by
    rw [own_cons_self, inside, hstep]
  have honly (i : Nat) (hi : g.inside (own i (⟨pid, o, r⟩ :: t)) = true) : i = pid := by
    by_contra hne
    rw [own_cons_ne (Ne.symm hne)] at hi
    exact hnobody.1 i hi
  have hstranded : ¬ g.Stranded (⟨pid, o, r⟩ :: t) := by
    rw [stranded_cons, hstep]
    simpa using hnobody.2
  constructor
  · intro i i' hi hi'
    rw [honly i hi, honly i' hi']
  · exact iff_of_true hset (.inl ⟨pid, hself⟩)
  · exact fun hs => absurd hs hstranded

/-- The process inside gets out: nobody is inside any more. -/
theorem Kept.leave (h : g.Kept s t) (hin : g.inside (own pid t) = true)
    (hout : g.inside (⟨o, r⟩ :: own pid t) = false) (i : Nat) :
    g.inside (own i (⟨pid, o, r⟩ :: t)) = false := by
  by_cases hi : pid = i
  · subst hi
    rw [own_cons_self]
    exact hout
  · rw [own_cons_ne hi]
    by_contra hinside
    exact hi (h.alone pid i hin (by simpa using hinside))

/-- **Every call keeps the guard.** -/
theorem Kept.call (h : g.Kept s t) (hd : g.Respects (own pid t) ⟨o, r⟩ s s') :
    g.Kept s' (⟨pid, o, r⟩ :: t) := by
  unfold Respects at hd
  cases hstep : g.step ⟨o, r⟩ with
  | none =>
      rw [hstep] at hd
      exact h.other hstep hd
  | some what =>
      rw [hstep] at hd
      cases what with
      | enter => exact h.enter hstep hd.1 hd.2
      | clear =>
          obtain ⟨hin, hflag⟩ := hd
          have hempty := h.leave hin (by rw [inside, hstep])
          have hstranded : ¬ g.Stranded (⟨pid, o, r⟩ :: t) := by
            rw [stranded_cons, hstep]
            rintro (hs | hs)
            · cases hs
            · rw [h.empty hs pid] at hin
              cases hin
          constructor
          · intro i i' hi
            rw [hempty i] at hi
            cases hi
          · simp [hflag, hempty, hstranded]
          · exact fun _ => hempty
      | strand =>
          obtain ⟨hin, hflag⟩ := hd
          have hempty := h.leave hin (by rw [inside, hstep])
          have hset : g.flag s' = true := hflag.trans (h.shut.mpr (.inl ⟨pid, hin⟩))
          have hstranded : g.Stranded (⟨pid, o, r⟩ :: t) := stranded_cons.mpr (.inl hstep)
          constructor
          · intro i i' hi
            rw [hempty i] at hi
            cases hi
          · exact iff_of_true hset (.inr hstranded)
          · exact fun _ => hempty

/-- When nobody is inside, the flag is set if and only if it was left set. -/
theorem Kept.flag_iff (h : g.Kept s t) (hnobody : ∀ pid, ¬ g.inside (own pid t) = true) :
    g.flag s = true ↔ g.Stranded t := by
  rw [h.shut, or_iff_right]
  rintro ⟨pid, hin⟩
  exact hnobody pid hin

end Guard

end

/-! ## What a process awaits next -/

section

variable {Op : Type} {Reply : Op → Type} {Job Outcome σ : Type}
  {sys : System Op Reply Job Outcome σ} {R : Regime Op Reply Job Outcome σ}
  {P : Job → Past Op Reply → Op → Prop} {Q : Job → Past Op Reply → Prop}
  {cfg : Config Op Reply Job σ}

/-- A new process awaits the first operation of its job. -/
theorem pending_spawn {j : Job} {o : Op} {k : Reply o → Prog Op Reply Unit}
    (hbody : sys.body j = .await o k) :
    (step sys cfg (.spawn j)).pending cfg.procs.length = some o := by
  unfold Config.pending step
  rw [List.getElem?_append_right (Nat.le_refl _), Nat.sub_self, hbody]
  rfl

/-- A pending operation is carried out. -/
theorem trace_run {pid : Nat} {o : Op} {c : Outcome} {r : Reply o} {s' : σ}
    (hp : cfg.pending pid = some o) (hx : sys.exec o c cfg.state = some (r, s')) :
    (step sys cfg (.run pid c)).trace = ⟨pid, o, r⟩ :: cfg.trace := by
  unfold Config.pending at hp
  split at hp
  · rename_i j o₁ k heq
    cases hp
    simp only [step, heq, hx]
  · cases hp

/-- The operation `o` is carried out for the process `pid`, which is told `r`. If after that nothing
but `o'` is explained, it awaits `o'`. -/
theorem Explained.pending_run {pid : Nat} {o o' : Op} {c : Outcome} {r : Reply o} {s' : σ}
    (he : Explained R P Q cfg) (hp : cfg.pending pid = some o)
    (hx : sys.exec o c cfg.state = some (r, s'))
    (hnext : ∀ j o'', P j (⟨o, r⟩ :: own pid cfg.trace) o'' → o'' = o')
    (hend : ∀ j, ¬ Q j (⟨o, r⟩ :: own pid cfg.trace)) :
    (step sys cfg (.run pid c)).pending pid = some o' := by
  unfold Config.pending at hp
  split at hp
  · rename_i j o₁ k heq
    cases hp
    have hfollows := (he.follows pid j _ heq).2 r
    have hprocs : (cfg.setRest pid (some (k r)))[pid]? = some ⟨j, some (k r)⟩ := by
      simp [Config.setRest, heq]
    simp only [step, heq, hx]
    unfold Config.pending
    dsimp only
    rw [hprocs]
    cases hk : k r with
    | ret a =>
        rw [hk] at hfollows
        exact absurd hfollows (hend j)
    | await o₂ k₂ =>
        rw [hk] at hfollows
        exact congrArg some (hnext j o₂ hfollows.1)
  · cases hp

end

end TrustGate.Resumption
