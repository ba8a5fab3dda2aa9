import Mathlib.Data.List.Basic

set_option autoImplicit false

/-! # Calls that commit or roll back

A machine takes calls one at a time. A call either commits, with an output and a new state, or
fails and leaves the state as it was. `attempt` is one call and `runCalls` a list of them; a run
keeps one receipt for each call. `runCalls_invariant` is the induction every property of a run
goes through: the invariant may speak about the receipts so far as well as about the state.
-/

namespace TrustGate.Rollback

variable {σ ι α ε : Type}

/-- One call and what came of it. -/
structure Receipt (ι α ε : Type) where
  input : ι
  result : Except ε α

/-- Try one call. A failed call keeps the old state. -/
def attempt (exec : ι → σ → Except ε (α × σ)) (s : σ) (i : ι) : Receipt ι α ε × σ :=
  match exec i s with
  | .ok (a, s') => (⟨i, .ok a⟩, s')
  | .error e => (⟨i, .error e⟩, s)

/-- Try a list of calls, oldest first, and keep their receipts in the same order. -/
def runCalls (exec : ι → σ → Except ε (α × σ)) : σ → List ι → List (Receipt ι α ε) × σ
  | s, [] => ([], s)
  | s, i :: is =>
      let r := attempt exec s i
      let rest := runCalls exec r.2 is
      (r.1 :: rest.1, rest.2)

variable (exec : ι → σ → Except ε (α × σ))

@[simp] theorem runCalls_nil (s : σ) : runCalls exec s [] = ([], s) := rfl

theorem runCalls_cons (s : σ) (i : ι) (is : List ι) :
    runCalls exec s (i :: is)
      = ((attempt exec s i).1 :: (runCalls exec (attempt exec s i).2 is).1,
          (runCalls exec (attempt exec s i).2 is).2) := rfl

/-- A run splits over `++`: the second half starts where the first one ended. -/
theorem runCalls_append (is js : List ι) (s : σ) :
    runCalls exec s (is ++ js)
      = ((runCalls exec s is).1 ++ (runCalls exec (runCalls exec s is).2 js).1,
          (runCalls exec (runCalls exec s is).2 js).2) := by
  induction is generalizing s with
  | nil => rfl
  | cons i is ih =>
      rw [List.cons_append, runCalls_cons, runCalls_cons, ih]
      rfl

theorem attempt_ok {exec : ι → σ → Except ε (α × σ)} {s s' : σ} {i : ι} {a : α}
    (h : exec i s = .ok (a, s')) : attempt exec s i = (⟨i, .ok a⟩, s') := by
  simp only [attempt, h]

theorem attempt_error {exec : ι → σ → Except ε (α × σ)} {s : σ} {i : ι} {e : ε}
    (h : exec i s = .error e) : attempt exec s i = (⟨i, .error e⟩, s) := by
  simp only [attempt, h]

/-- **The run rule.** A property of receipts and state that every committed call keeps, and
that a failed call's receipt does not disturb, is kept by every run. -/
theorem runCalls_invariant {exec : ι → σ → Except ε (α × σ)}
    {P : List (Receipt ι α ε) → σ → Prop}
    (commits : ∀ h s i a s', P h s → exec i s = .ok (a, s') → P (h ++ [⟨i, .ok a⟩]) s')
    (fails : ∀ h s i e, P h s → exec i s = .error e → P (h ++ [⟨i, .error e⟩]) s)
    (is : List ι) : ∀ (h : List (Receipt ι α ε)) (s : σ), P h s →
      P (h ++ (runCalls exec s is).1) (runCalls exec s is).2 := by
  induction is with
  | nil => intro h s hP; simpa using hP
  | cons i is ih =>
      intro h s hP
      rw [runCalls_cons]
      have step : P (h ++ [(attempt exec s i).1]) (attempt exec s i).2 := by
        cases he : exec i s with
        | ok p =>
            obtain ⟨a, s'⟩ := p
            rw [attempt_ok he]
            exact commits h s i a s' hP he
        | error e =>
            rw [attempt_error he]
            exact fails h s i e hP he
      have rest := ih _ _ step
      rwa [List.append_assoc] at rest

/-- A run keeps a receipt for each call, in order. -/
theorem runCalls_inputs (is : List ι) (s : σ) :
    (runCalls exec s is).1.map (·.input) = is := by
  induction is generalizing s with
  | nil => rfl
  | cons i is ih =>
      rw [runCalls_cons, List.map_cons, ih]
      cases he : exec i s with
      | ok p => rw [attempt_ok he]
      | error e => rw [attempt_error he]

/-- **The progress rule.** When the calls that are left allow the next one to commit, and this
allows the calls left after it, the whole run commits. `P` may speak about the calls still to
come, the receipts so far and the state. -/
theorem runCalls_progress {exec : ι → σ → Except ε (α × σ)}
    {P : List ι → List (Receipt ι α ε) → σ → Prop}
    (commits : ∀ i is h s, P (i :: is) h s →
      ∃ a s', exec i s = .ok (a, s') ∧ P is (h ++ [⟨i, .ok a⟩]) s')
    (is : List ι) : ∀ (h : List (Receipt ι α ε)) (s : σ), P is h s →
      P [] (h ++ (runCalls exec s is).1) (runCalls exec s is).2 ∧
      ∀ r ∈ (runCalls exec s is).1, ∃ a, r.result = .ok a := by
  induction is with
  | nil => intro h s hP; exact ⟨by simpa using hP, fun _ hr => nomatch hr⟩
  | cons i is ih =>
      intro h s hP
      obtain ⟨a, s', he, hnext⟩ := commits i is h s hP
      obtain ⟨hend, hrest⟩ := ih _ _ hnext
      rw [runCalls_cons, attempt_ok he]
      rw [List.append_assoc] at hend
      refine ⟨hend, fun r hr => ?_⟩
      rcases List.mem_cons.mp hr with rfl | hr
      · exact ⟨a, rfl⟩
      · exact hrest r hr

end TrustGate.Rollback
