import TrustGate.Lib.Resumption

set_option autoImplicit false

/-! # One program by itself

What a program does when nothing else runs: its operations are carried out one after the other,
each with an outcome that the environment chooses. `Runs` is that execution as a relation, with a
log of the operations, their outcomes and the replies, oldest first. `Solo` says what holds after
every such execution, with one rule for each way a program is put together; that there is an
execution at all is `exists_runs`. -/

namespace TrustGate.Resumption

/-- An operation that was carried out, with what the environment and the caller saw of it. -/
structure Entry (Op : Type) (Reply : Op → Type) (Outcome : Type) where
  op : Op
  outcome : Outcome
  reply : Reply op

/-- What has been carried out, oldest first. -/
abbrev Log (Op : Type) (Reply : Op → Type) (Outcome : Type) := List (Entry Op Reply Outcome)

section

variable {Op : Type} {Reply : Op → Type} {Outcome σ α : Type}

/-- From the state `s` the program is carried out to its end, each operation with an outcome that
`ok` admits: it returns `b` and leaves `s'`. -/
def Runs (exec : (o : Op) → Outcome → σ → Option (Reply o × σ)) (ok : Op → Outcome → Prop) :
    Prog Op Reply α → σ → Log Op Reply Outcome → α → σ → Prop
  | .ret a, s, log, b, s' => log = [] ∧ b = a ∧ s' = s
  | .await o k, s, log, b, s' => ∃ c r s₁ rest, ok o c ∧ exec o c s = some (r, s₁) ∧
      log = ⟨o, c, r⟩ :: rest ∧ Runs exec ok (k r) s₁ rest b s'

variable {exec : (o : Op) → Outcome → σ → Option (Reply o × σ)} {ok : Op → Outcome → Prop}

/-- A program runs to its end if every operation can be carried out. -/
theorem exists_runs (h : ∀ o s, ∃ c, ok o c ∧ exec o c s ≠ none) (p : Prog Op Reply α) (s : σ) :
    ∃ log a s', Runs exec ok p s log a s' := by
  induction p generalizing s with
  | ret a => exact ⟨[], a, s, rfl, rfl, rfl⟩
  | await o k ih =>
      obtain ⟨c, hok, hsome⟩ := h o s
      obtain ⟨⟨r, s₁⟩, hexec⟩ := Option.ne_none_iff_exists'.mp hsome
      obtain ⟨log, a, s', hruns⟩ := ih r s₁
      exact ⟨⟨o, c, r⟩ :: log, a, s', c, r, s₁, log, hok, hexec, rfl, hruns⟩

theorem runs_bind {β : Type} (p : Prog Op Reply α) (f : α → Prog Op Reply β) {s s' : σ}
    {log : Log Op Reply Outcome} {b : β} :
    Runs exec ok (p >>= f) s log b s' ↔ ∃ log₁ a s₁ log₂, Runs exec ok p s log₁ a s₁ ∧
      Runs exec ok (f a) s₁ log₂ b s' ∧ log = log₁ ++ log₂ := by
  induction p generalizing s log with
  | ret a =>
      constructor
      · exact fun h => ⟨[], a, s, log, ⟨rfl, rfl, rfl⟩, h, rfl⟩
      · rintro ⟨_, _, _, log₂, ⟨rfl, rfl, rfl⟩, h, rfl⟩
        exact h
  | await o k ih =>
      constructor
      · rintro ⟨c, r, s₁, rest, hok, hexec, rfl, h⟩
        obtain ⟨log₁, a, s₂, log₂, h₁, h₂, rfl⟩ := (ih r).mp h
        exact ⟨⟨o, c, r⟩ :: log₁, a, s₂, log₂, ⟨c, r, s₁, log₁, hok, hexec, rfl, h₁⟩, h₂, rfl⟩
      · rintro ⟨_, a, s₂, log₂, ⟨c, r, s₁, log₁, hok, hexec, rfl, h₁⟩, h₂, rfl⟩
        exact ⟨c, r, s₁, log₁ ++ log₂, hok, hexec, rfl, (ih r).mpr ⟨log₁, a, s₂, log₂, h₁, h₂, rfl⟩⟩

/-- What explains the operations of a program explains those it carries out. -/
theorem Follows.runs {P : Past Op Reply → Op → Prop} {Q : Past Op Reply → α → Prop}
    {p : Prog Op Reply α} {h : Past Op Reply} (hp : Follows P Q p h) {s s' : σ}
    {log : Log Op Reply Outcome} {a : α} (hruns : Runs exec ok p s log a s') :
    ∀ e ∈ log, ∃ past, P past e.op := by
  induction p generalizing h s log with
  | ret b =>
      obtain ⟨rfl, -, -⟩ := hruns
      simp
  | await o k ih =>
      obtain ⟨c, r, s₁, rest, -, -, rfl, hrest⟩ := hruns
      intro e he
      rcases List.mem_cons.mp he with rfl | he
      · exact ⟨h, hp.1⟩
      · exact ih r (hp.2 r) hrest e he

/-- Carry the program out with these outcomes, one for each operation. -/
def replay (exec : (o : Op) → Outcome → σ → Option (Reply o × σ)) :
    List Outcome → Prog Op Reply α → σ → Option (Log Op Reply Outcome × α × σ)
  | [], .ret a, s => some ([], a, s)
  | c :: cs, .await o k, s =>
      match exec o c s with
      | some (r, s₁) => (replay exec cs (k r) s₁).map fun (log, a, s') => (⟨o, c, r⟩ :: log, a, s')
      | none => none
  | _, _, _ => none

theorem runs_of_replay {cs : List Outcome} {p : Prog Op Reply α} {s s' : σ}
    {log : Log Op Reply Outcome} {a : α} (h : replay exec cs p s = some (log, a, s'))
    (hok : ∀ e ∈ log, ok e.op e.outcome) : Runs exec ok p s log a s' := by
  induction cs generalizing p s log with
  | nil =>
      cases p with
      | ret b => cases h; exact ⟨rfl, rfl, rfl⟩
      | await o k => cases h
  | cons c cs ih =>
      cases p with
      | ret b => cases h
      | await o k =>
          unfold replay at h
          cases hexec : exec o c s with
          | none => simp [hexec] at h
          | some rs =>
              obtain ⟨r, s₁⟩ := rs
              rw [hexec] at h
              obtain ⟨⟨rest, b, s₂⟩, hrest, heq⟩ := Option.map_eq_some_iff.mp h
              cases heq
              exact ⟨c, r, s₁, rest, hok _ List.mem_cons_self, hexec, rfl,
                ih hrest fun e he => hok e (List.mem_cons_of_mem _ he)⟩

/-- The outcomes that were given are the ones logged. -/
theorem mem_of_replay {cs : List Outcome} {p : Prog Op Reply α} {s s' : σ}
    {log : Log Op Reply Outcome} {a : α} (h : replay exec cs p s = some (log, a, s')) :
    ∀ e ∈ log, e.outcome ∈ cs := by
  induction cs generalizing p s log with
  | nil =>
      cases p with
      | ret b => cases h; simp
      | await o k => cases h
  | cons c cs ih =>
      cases p with
      | ret b => cases h
      | await o k =>
          unfold replay at h
          split at h
          · obtain ⟨⟨rest, b, s₂⟩, hrest, heq⟩ := Option.map_eq_some_iff.mp h
            cases heq
            intro e he
            rcases List.mem_cons.mp he with rfl | he
            · exact List.mem_cons_self
            · exact List.mem_cons_of_mem _ (ih hrest e he)
          · cases h

end

/-! ## What holds after every execution -/

section

variable {Op : Type} {Value : Op → Type} {ε Outcome σ α β : Type}

/-- Whenever `x` is carried out from the state `s`, its log, its result and the state it leaves
satisfy `Q`. -/
def Solo (exec : (o : Op) → Outcome → σ → Option (Except ε (Value o) × σ))
    (ok : Op → Outcome → Prop) (x : Fallible Op Value ε α) (s : σ)
    (Q : Log Op (fun o => Except ε (Value o)) Outcome → Except ε α → σ → Prop) : Prop :=
  ∀ log r s', Runs exec ok x.run s log r s' → Q log r s'

variable {exec : (o : Op) → Outcome → σ → Option (Except ε (Value o) × σ)}
  {ok : Op → Outcome → Prop} {s : σ}

@[simp] theorem solo_pure {Q : Log Op (fun o => Except ε (Value o)) Outcome → Except ε α → σ → Prop}
    (a : α) : Solo exec ok (pure a : Fallible Op Value ε α) s Q ↔ Q [] (.ok a) s := by
  constructor
  · exact fun h => h [] (.ok a) s ⟨rfl, rfl, rfl⟩
  · rintro h _ _ _ ⟨rfl, rfl, rfl⟩
    exact h

@[simp] theorem solo_throw
    {Q : Log Op (fun o => Except ε (Value o)) Outcome → Except ε α → σ → Prop} (e : ε) :
    Solo exec ok (throw e : Fallible Op Value ε α) s Q ↔ Q [] (.error e) s := by
  constructor
  · exact fun h => h [] (.error e) s ⟨rfl, rfl, rfl⟩
  · rintro h _ _ _ ⟨rfl, rfl, rfl⟩
    exact h

@[simp] theorem solo_call {o : Op}
    {Q : Log Op (fun o => Except ε (Value o)) Outcome → Except ε (Value o) → σ → Prop} :
    Solo exec ok (call o) s Q ↔
      ∀ c r s₁, ok o c → exec o c s = some (r, s₁) → Q [⟨o, c, r⟩] r s₁ := by
  constructor
  · exact fun h c r s₁ hok hexec =>
      h [⟨o, c, r⟩] r s₁ ⟨c, r, s₁, [], hok, hexec, rfl, rfl, rfl, rfl⟩
  · rintro h _ r s₁ ⟨c, _, _, _, hok, hexec, rfl, rfl, rfl, rfl⟩
    exact h c r s₁ hok hexec

@[simp low] theorem solo_bind
    {Q : Log Op (fun o => Except ε (Value o)) Outcome → Except ε β → σ → Prop}
    {x : Fallible Op Value ε α} {f : α → Fallible Op Value ε β} :
    Solo exec ok (x >>= f) s Q ↔ Solo exec ok x s fun log r s₁ => match r with
      | .ok a => Solo exec ok (f a) s₁ fun log' => Q (log ++ log')
      | .error e => Q log (.error e) s₁ := by
  constructor
  · rintro h log (e | a) s₁ hx
    · refine h log (.error e) s₁
        ((runs_bind _ _).mpr ⟨log, .error e, s₁, [], hx, ⟨rfl, rfl, rfl⟩, ?_⟩)
      rw [List.append_nil]
    · exact fun log' r s' hf =>
        h (log ++ log') r s' ((runs_bind _ _).mpr ⟨log, .ok a, s₁, log', hx, hf, rfl⟩)
  · intro h log r s' hruns
    obtain ⟨log₁, r₁, s₁, log₂, hx, hf, rfl⟩ := (runs_bind _ _).mp hruns
    have hnext := h log₁ r₁ s₁ hx
    cases r₁ with
    | error e =>
        obtain ⟨rfl, rfl, rfl⟩ := hf
        rw [List.append_nil]
        exact hnext
    | ok a => exact hnext log₂ r s' hf

@[simp] theorem solo_attempt
    {Q : Log Op (fun o => Except ε (Value o)) Outcome → Except ε (Except ε α) → σ → Prop}
    {x : Fallible Op Value ε α} :
    Solo exec ok (attempt x) s Q ↔ Solo exec ok x s fun log r s' => Q log (.ok r) s' := by
  constructor
  · intro h log r s' hx
    refine h log (.ok r) s' ((runs_bind _ _).mpr ⟨log, r, s', [], hx, ⟨rfl, rfl, rfl⟩, ?_⟩)
    rw [List.append_nil]
  · intro h log r s' hruns
    obtain ⟨log₁, r₁, s₁, log₂, hx, ⟨rfl, rfl, rfl⟩, rfl⟩ := (runs_bind _ _).mp hruns
    rw [List.append_nil]
    exact h log₁ r₁ _ hx

/-- An awaited operation followed by `f`: the two outcomes of the call. -/
theorem solo_call_bind {Q : Log Op (fun o => Except ε (Value o)) Outcome → Except ε β → σ → Prop}
    {o : Op} {f : Value o → Fallible Op Value ε β} :
    Solo exec ok (call o >>= f) s Q ↔
      (∀ c v s₁, ok o c → exec o c s = some (.ok v, s₁) →
        Solo exec ok (f v) s₁ fun log => Q (⟨o, c, .ok v⟩ :: log)) ∧
      ∀ c e s₁, ok o c → exec o c s = some (.error e, s₁) → Q [⟨o, c, .error e⟩] (.error e) s₁ := by
  rw [solo_bind, solo_call]
  constructor
  · exact fun h => ⟨fun c v s₁ => h c (.ok v) s₁, fun c e s₁ => h c (.error e) s₁⟩
  · rintro ⟨hok, herr⟩ c (e | v) s₁
    · exact herr c e s₁
    · exact hok c v s₁

/-- An awaited operation whose error is caught. -/
theorem solo_attempt_call_bind
    {Q : Log Op (fun o => Except ε (Value o)) Outcome → Except ε β → σ → Prop}
    {o : Op} {f : Except ε (Value o) → Fallible Op Value ε β} :
    Solo exec ok (attempt (call o) >>= f) s Q ↔
      ∀ c r s₁, ok o c → exec o c s = some (r, s₁) →
        Solo exec ok (f r) s₁ fun log => Q (⟨o, c, r⟩ :: log) := by
  rw [solo_bind, solo_attempt, solo_call]
  rfl

theorem Solo.mono {Q Q' : Log Op (fun o => Except ε (Value o)) Outcome → Except ε α → σ → Prop}
    {x : Fallible Op Value ε α} (hx : Solo exec ok x s Q)
    (h : ∀ log r s', Q log r s' → Q' log r s') :
    Solo exec ok x s Q' :=
  fun log r s' hruns => h log r s' (hx log r s' hruns)

theorem Solo.and {Q Q' : Log Op (fun o => Except ε (Value o)) Outcome → Except ε α → σ → Prop}
    {x : Fallible Op Value ε α} (hx : Solo exec ok x s Q) (hx' : Solo exec ok x s Q') :
    Solo exec ok x s fun log r s' => Q log r s' ∧ Q' log r s' :=
  fun log r s' hruns => ⟨hx log r s' hruns, hx' log r s' hruns⟩

/-- **The loop rule.** An invariant of what is left, the log and the state that each round keeps
and, if the round throws, turns into the postcondition. -/
theorem solo_forEach {ι : Type} {f : ι → Fallible Op Value ε Unit}
    {Q : Log Op (fun o => Except ε (Value o)) Outcome → Except ε Unit → σ → Prop}
    (I : List ι → Log Op (fun o => Except ε (Value o)) Outcome → σ → Prop)
    (round : ∀ x xs log s, I (x :: xs) log s → Solo exec ok (f x) s fun log' r s' => match r with
      | .ok _ => I xs (log ++ log') s'
      | .error e => Q (log ++ log') (.error e) s')
    (done : ∀ log s, I [] log s → Q log (.ok ()) s) (xs : List ι) :
    ∀ log s, I xs log s → Solo exec ok (forEach f xs) s fun log' => Q (log ++ log') := by
  induction xs with
  | nil =>
      intro log s hI
      refine (solo_pure ()).mpr ?_
      rw [List.append_nil]
      exact done log s hI
  | cons x xs ih =>
      intro log s hI
      unfold forEach
      rw [solo_bind]
      refine (round x xs log s hI).mono ?_
      rintro log₁ (e | u) s₁ hr
      · exact hr
      · refine (ih (log ++ log₁) s₁ hr).mono fun log₂ r s₂ hQ => ?_
        rwa [← List.append_assoc]

/-- The log of a program of a class. -/
theorem Only.log {T : Op → Prop} {x : Fallible Op Value ε α} (hx : Only T x) :
    Solo exec ok x s fun log _ _ => ∀ e ∈ log, T e.op := by
  intro log r s' hruns e he
  obtain ⟨past, hT⟩ := Follows.runs (hx []) hruns e he
  exact hT

/-- **The class rule.** What every operation of a class does to the state, a program of the class
does as well. -/
theorem Only.solo {T : Op → Prop} {x : Fallible Op Value ε α} (hx : Only T x) (R : σ → σ → Prop)
    (refl : ∀ s, R s s) (trans : ∀ s s₁ s₂, R s s₁ → R s₁ s₂ → R s s₂)
    (one : ∀ o c s r s₁, T o → ok o c → exec o c s = some (r, s₁) → R s s₁) :
    Solo exec ok x s fun _ _ s' => R s s' := by
  intro log r s' hruns
  have hall : Follows (fun _ o => T o) (fun _ _ => True) x.run [] := hx []
  generalize x.run = p at hall hruns
  induction p generalizing s log with
  | ret a =>
      obtain ⟨-, -, rfl⟩ := hruns
      exact refl s'
  | await o k ih =>
      obtain ⟨c, r₁, s₁, rest, hok, hexec, rfl, hrest⟩ := hruns
      exact trans s s₁ s' (one o c s r₁ s₁ hall.1 hok hexec)
        (ih r₁ rest (Follows.of_any (hall.2 r₁) []) hrest)

end

end TrustGate.Resumption
