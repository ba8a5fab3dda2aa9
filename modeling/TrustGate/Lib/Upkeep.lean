import TrustGate.Lib.Resumption

set_option autoImplicit false

/-! # Programs that keep a condition on their past

`Only` is about the class of a program's operations alone. Where an operation has to follow
another, what has been done so far counts as well: `Upkeep P S x` says that from a past with `S` on,
whatever it is replied, `x` issues only operations that `P` explains and is left with `S` again. -/

namespace TrustGate.Resumption

/-- A class of operations that need no past, and leave the condition alone. -/
theorem Follows.upkeep {Op : Type} {Reply : Op → Type} {α : Type} {T : Op → Prop}
    {P : Past Op Reply → Op → Prop} {S : Past Op Reply → Prop} {p : Prog Op Reply α}
    {h : Past Op Reply} (hp : Follows (fun _ o => T o) (fun _ _ => True) p h)
    (hP : ∀ h o, S h → T o → P h o) (hS : ∀ h o r, S h → T o → S (⟨o, r⟩ :: h)) (hs : S h) :
    Follows P (fun h' _ => S h') p h := by
  induction p generalizing h with
  | ret a => exact hs
  | await o k ih => exact ⟨hP h o hs hp.1, fun r => ih r (hp.2 r) (hS h o r hs hp.1)⟩

section

variable {Op : Type} {Value : Op → Type} {ε α β : Type}

def Upkeep (P : Past Op (fun o => Except ε (Value o)) → Op → Prop)
    (S : Past Op (fun o => Except ε (Value o)) → Prop) (x : Fallible Op Value ε α) : Prop :=
  ∀ h, S h → Ensures P (fun h' _ => S h') x h

variable {P : Past Op (fun o => Except ε (Value o)) → Op → Prop}
  {S : Past Op (fun o => Except ε (Value o)) → Prop}

namespace Upkeep

theorem pure (a : α) : Upkeep P S (pure a : Fallible Op Value ε α) := fun _ hs => hs

theorem throw (e : ε) : Upkeep P S (throw e : Fallible Op Value ε α) := fun _ hs => hs

theorem bind {x : Fallible Op Value ε α} {f : α → Fallible Op Value ε β} (hx : Upkeep P S x)
    (hf : ∀ a, Upkeep P S (f a)) : Upkeep P S (x >>= f) := by
  intro h hs
  rw [ensures_bind]
  refine (hx h hs).mono (fun _ _ hp => hp) ?_
  rintro h' (e | a) hs'
  · exact hs'
  · exact hf a h' hs'

theorem attempt {x : Fallible Op Value ε α} (hx : Upkeep P S x) : Upkeep P S (attempt x) := by
  intro h hs
  rw [ensures_attempt]
  exact hx h hs

end Upkeep

theorem Only.upkeep {T : Op → Prop} {x : Fallible Op Value ε α} (hx : Only T x)
    (hP : ∀ h o, S h → T o → P h o) (hS : ∀ h o r, S h → T o → S (⟨o, r⟩ :: h)) :
    Upkeep P S x := fun h hs => (hx h).upkeep hP hS hs

/-- A class of operations is a condition that asks nothing of the past. -/
theorem Only.unconditional {T : Op → Prop} {x : Fallible Op Value ε α} (hx : Only T x) :
    Upkeep (fun _ o => T o) (fun _ => True) x := fun h _ => hx h

theorem Upkeep.only {T : Op → Prop} {x : Fallible Op Value ε α}
    (hx : Upkeep (fun _ o => T o) (fun _ => True) x) : Only T x := fun h => hx h trivial

end

/-! ## Processes that do not move -/

section

variable {Op : Type} {Reply : Op → Type} {Job Outcome σ : Type}
  {sys : System Op Reply Job Outcome σ} {cfg : Config Op Reply Job σ}

theorem pending_eq_some {pid : Nat} {o : Op} (hp : cfg.pending pid = some o) :
    ∃ j k, cfg.procs[pid]? = some ⟨j, some (.await o k)⟩ := by
  unfold Config.pending at hp
  split at hp
  · rename_i j o' k heq
    cases hp
    exact ⟨j, k, heq⟩
  · cases hp

/-- Another process's act leaves a process where it is. -/
theorem pending_kept {pid : Nat} {o : Op} (hp : cfg.pending pid = some o) (a : Act Job Outcome)
    (hrun : ∀ c, a ≠ .run pid c) (hcrash : a ≠ .crash pid) :
    (step sys cfg a).pending pid = some o := by
  obtain ⟨j, k, hget⟩ := pending_eq_some hp
  have hlt : pid < cfg.procs.length := (List.getElem?_eq_some_iff.mp hget).1
  have hother (i : Nat) (rest : Option (Prog Op Reply Unit)) (hne : i ≠ pid) :
      (cfg.setRest i rest)[pid]? = cfg.procs[pid]? := by
    simp [Config.setRest, hget, hne]
  cases a with
  | spawn j' =>
      unfold Config.pending step
      rw [List.getElem?_append_left hlt]
      exact hp
  | crash i =>
      have hne : i ≠ pid := fun h => hcrash (h ▸ rfl)
      unfold Config.pending step
      rw [hother i none hne]
      exact hp
  | run i c =>
      have hne : i ≠ pid := fun h => hrun c (h ▸ rfl)
      unfold step
      dsimp only
      split
      · split
        · unfold Config.pending
          rw [hother i _ hne]
          exact hp
        · exact hp
      · exact hp

/-- A crashed process awaits nothing. -/
theorem pending_crash (pid : Nat) : (step sys cfg (.crash pid)).pending pid = none := by
  unfold Config.pending step Config.setRest
  dsimp only
  rw [List.getElem?_modify_eq]
  cases cfg.procs[pid]? with
  | none => rfl
  | some p => rfl

/-- What a process awaits after an act it awaited before, or it is new, or it has acted. -/
theorem pending_of_step {pid : Nat} {o : Op} {a : Act Job Outcome}
    (hp : (step sys cfg a).pending pid = some o) :
    cfg.pending pid = some o ∨ (∃ j, a = .spawn j ∧ pid = cfg.procs.length) ∨
      ∃ c o' r s', a = .run pid c ∧ cfg.pending pid = some o' ∧
        sys.exec o' c cfg.state = some (r, s') := by
  have hother (i : Nat) (rest : Option (Prog Op Reply Unit)) (hne : i ≠ pid) :
      (cfg.setRest i rest)[pid]? = cfg.procs[pid]? := by
    simp [Config.setRest, hne]
  cases a with
  | spawn j =>
      rcases Nat.lt_trichotomy pid cfg.procs.length with hlt | heq | hgt
      · unfold Config.pending step at hp
        rw [List.getElem?_append_left hlt] at hp
        exact .inl hp
      · exact .inr (.inl ⟨j, rfl, heq⟩)
      · unfold Config.pending step at hp
        rw [List.getElem?_eq_none (by rw [List.length_append, List.length_singleton]; omega)] at hp
        cases hp
  | crash i =>
      by_cases hi : i = pid
      · subst hi
        rw [pending_crash] at hp
        cases hp
      · unfold Config.pending step at hp
        rw [hother i none hi] at hp
        exact .inl hp
  | run i c =>
      unfold step at hp
      dsimp only at hp
      split at hp
      · rename_i j o' k heq
        split at hp
        · rename_i r s' hx
          by_cases hi : i = pid
          · subst hi
            exact .inr (.inr ⟨c, o', r, s', rfl, by rw [Config.pending, heq], hx⟩)
          · unfold Config.pending at hp
            rw [hother i _ hi] at hp
            exact .inl hp
        · exact .inl hp
      · exact .inl hp

end

end TrustGate.Resumption
