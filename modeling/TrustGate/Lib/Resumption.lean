import Mathlib.Data.List.Basic

set_option autoImplicit false

/-! # Programs that await replies, run side by side

A program either returns or awaits one reply and goes on with it: what `async` code is between
two `await` points. A system runs any number of programs over one shared state. A schedule says
who moves next: a program starts, its pending operation is carried out and the reply handed to
it, or it crashes and is never heard of again.

`Follows` reads a program by itself: whatever replies it gets, each operation it issues is
explained by the replies it got before. `runSched_rule` puts that together with the other
programs: in a run, every operation that is carried out is explained by the earlier calls of its
own process, so that an invariant of state and trace has one case for each kind of call. -/

namespace TrustGate.Resumption

/-! ## Programs -/

inductive Prog (Op : Type) (Reply : Op → Type) (α : Type) : Type where
  | ret (a : α) : Prog Op Reply α
  | await (o : Op) (k : Reply o → Prog Op Reply α) : Prog Op Reply α

section

variable {Op : Type} {Reply : Op → Type} {α β : Type}

def Prog.bind : Prog Op Reply α → (α → Prog Op Reply β) → Prog Op Reply β
  | .ret a, f => f a
  | .await o k, f => .await o fun r => (k r).bind f

instance : Monad (Prog Op Reply) where
  pure := .ret
  bind := .bind

/-- One operation and the reply it got. -/
structure Done (Op : Type) (Reply : Op → Type) where
  op : Op
  reply : Reply op

/-- What a program has done so far, newest first. -/
abbrev Past (Op : Type) (Reply : Op → Type) := List (Done Op Reply)

/-- Continued from the past `h`, the program `p` issues only operations that `P` explains by the
past at that point, and when it returns, `Q` holds of the past and the result. -/
def Follows (P : Past Op Reply → Op → Prop) (Q : Past Op Reply → α → Prop) :
    Prog Op Reply α → Past Op Reply → Prop
  | .ret a, h => Q h a
  | .await o k, h => P h o ∧ ∀ r, Follows P Q (k r) (⟨o, r⟩ :: h)

variable {P P' : Past Op Reply → Op → Prop}

theorem follows_bind {Q : Past Op Reply → β → Prop} (p : Prog Op Reply α)
    (f : α → Prog Op Reply β) (h : Past Op Reply) :
    Follows P Q (p >>= f) h ↔ Follows P (fun h a => Follows P Q (f a) h) p h := by
  induction p generalizing h with
  | ret a => exact Iff.rfl
  | await o k ih => exact and_congr_right fun _ => forall_congr' fun r => ih r _

/-- The past only grows. -/
theorem Follows.grows {Q : Past Op Reply → α → Prop} {p : Prog Op Reply α}
    {h : Past Op Reply} (hp : Follows P Q p h) :
    Follows (fun h' o => P h' o ∧ h <:+ h') (fun h' a => Q h' a ∧ h <:+ h') p h := by
  suffices ∀ h₀, h <:+ h₀ → Follows P Q p h₀ →
      Follows (fun h' o => P h' o ∧ h <:+ h') (fun h' a => Q h' a ∧ h <:+ h') p h₀ from
    this h (List.suffix_refl h) hp
  clear hp
  intro h₀ hsuffix hp
  induction p generalizing h₀ with
  | ret a => exact ⟨hp, hsuffix⟩
  | await o k ih =>
      exact ⟨⟨hp.1, hsuffix⟩, fun r => ih r _ (hsuffix.trans (List.suffix_cons _ _)) (hp.2 r)⟩

/-- A weaker explanation and a weaker postcondition also fit. -/
theorem Follows.mono {Q Q' : Past Op Reply → α → Prop} (hP : ∀ h o, P h o → P' h o)
    (hQ : ∀ h a, Q h a → Q' h a) {p : Prog Op Reply α} {h : Past Op Reply}
    (hp : Follows P Q p h) : Follows P' Q' p h := by
  induction p generalizing h with
  | ret a => exact hQ h a hp
  | await o k ih => exact ⟨hP h o hp.1, fun r => ih r (hp.2 r)⟩

/-- An explanation that does not look at the past fits any past. -/
theorem Follows.of_any {T : Op → Prop} {p : Prog Op Reply α} {h : Past Op Reply}
    (hp : Follows (fun _ o => T o) (fun _ _ => True) p h) (h' : Past Op Reply) :
    Follows (fun _ o => T o) (fun _ _ => True) p h' := by
  induction p generalizing h h' with
  | ret a => trivial
  | await o k ih => exact ⟨hp.1, fun r => ih r (hp.2 r) _⟩

/-- Two explanations of one program. -/
theorem Follows.and {Q Q' : Past Op Reply → α → Prop} {p : Prog Op Reply α} {h : Past Op Reply}
    (hp : Follows P Q p h) (hp' : Follows P' Q' p h) :
    Follows (fun h o => P h o ∧ P' h o) (fun h a => Q h a ∧ Q' h a) p h := by
  induction p generalizing h with
  | ret a => exact ⟨hp, hp'⟩
  | await o k ih => exact ⟨⟨hp.1, hp'.1⟩, fun r => ih r (hp.2 r) (hp'.2 r)⟩

end

/-! ## Programs that can fail

The programs of interest get either a value or an error from each operation, and can throw. -/

section

variable {Op : Type} {Value : Op → Type} {ε α β : Type}

/-- A program whose operations and result may be errors. -/
abbrev Fallible (Op : Type) (Value : Op → Type) (ε α : Type) :=
  ExceptT ε (Prog Op fun o => Except ε (Value o)) α

/-- Await the operation `o`; its error is thrown. -/
def call (o : Op) : Fallible Op Value ε (Value o) := ExceptT.mk (.await o .ret)

/-- `try x catch`: the error becomes a value. -/
def attempt (x : Fallible Op Value ε α) : Fallible Op Value ε (Except ε α) :=
  ExceptT.mk (x.run >>= fun r => .ret (.ok r))

/-- `for (const x of xs) await f(x)`. -/
def forEach {ι : Type} (f : ι → Fallible Op Value ε Unit) : List ι → Fallible Op Value ε Unit
  | [] => pure ()
  | x :: xs => do f x; forEach f xs

/-- `Follows` for a program that can fail: `Q` sees its result or its error. -/
def Ensures (P : Past Op (fun o => Except ε (Value o)) → Op → Prop)
    (Q : Past Op (fun o => Except ε (Value o)) → Except ε α → Prop)
    (x : Fallible Op Value ε α) (h : Past Op fun o => Except ε (Value o)) : Prop :=
  Follows P Q x.run h

variable {P P' : Past Op (fun o => Except ε (Value o)) → Op → Prop}
  {h : Past Op fun o => Except ε (Value o)}

@[simp] theorem ensures_pure {Q : Past Op (fun o => Except ε (Value o)) → Except ε α → Prop}
    (a : α) : Ensures P Q (pure a : Fallible Op Value ε α) h ↔ Q h (.ok a) := Iff.rfl

@[simp] theorem ensures_throw {Q : Past Op (fun o => Except ε (Value o)) → Except ε α → Prop}
    (e : ε) : Ensures P Q (throw e : Fallible Op Value ε α) h ↔ Q h (.error e) := Iff.rfl

@[simp] theorem ensures_call {o : Op}
    {Q : Past Op (fun o => Except ε (Value o)) → Except ε (Value o) → Prop} :
    Ensures P Q (call o) h ↔ P h o ∧ ∀ r, Q (⟨o, r⟩ :: h) r := Iff.rfl

@[simp] theorem ensures_attempt
    {Q : Past Op (fun o => Except ε (Value o)) → Except ε (Except ε α) → Prop}
    {x : Fallible Op Value ε α} :
    Ensures P Q (attempt x) h ↔ Ensures P (fun h r => Q h (.ok r)) x h := by
  unfold Ensures attempt
  exact follows_bind _ _ _

@[simp low] theorem ensures_bind {Q : Past Op (fun o => Except ε (Value o)) → Except ε β → Prop}
    {x : Fallible Op Value ε α} {f : α → Fallible Op Value ε β} :
    Ensures P Q (x >>= f) h ↔ Ensures P (fun h r => match r with
      | .ok a => Ensures P Q (f a) h
      | .error e => Q h (.error e)) x h := by
  refine (follows_bind _ _ _).trans ?_
  unfold Ensures
  apply iff_of_eq
  congr
  funext h r
  cases r <;> rfl

/-- An awaited operation followed by `f`: the two outcomes of the call. -/
@[simp] theorem ensures_call_bind {Q : Past Op (fun o => Except ε (Value o)) → Except ε β → Prop}
    {o : Op} {f : Value o → Fallible Op Value ε β} :
    Ensures P Q (call o >>= f) h ↔ P h o ∧
      (∀ v, Ensures P Q (f v) (⟨o, .ok v⟩ :: h)) ∧ ∀ e, Q (⟨o, .error e⟩ :: h) (.error e) := by
  rw [ensures_bind, ensures_call]
  refine and_congr_right fun _ => ⟨fun hr => ⟨fun v => hr (.ok v), fun e => hr (.error e)⟩, ?_⟩
  rintro ⟨hok, herr⟩ (e | v)
  · exact herr e
  · exact hok v

/-- An awaited operation whose error is caught. -/
@[simp] theorem ensures_attempt_call_bind
    {Q : Past Op (fun o => Except ε (Value o)) → Except ε β → Prop}
    {o : Op} {f : Except ε (Value o) → Fallible Op Value ε β} :
    Ensures P Q (attempt (call o) >>= f) h ↔ P h o ∧ ∀ r, Ensures P Q (f r) (⟨o, r⟩ :: h) := by
  rw [ensures_bind, ensures_attempt, ensures_call]

@[simp] theorem ensures_attempt_bind
    {Q : Past Op (fun o => Except ε (Value o)) → Except ε β → Prop}
    {x : Fallible Op Value ε α} {f : Except ε α → Fallible Op Value ε β} :
    Ensures P Q (attempt x >>= f) h ↔ Ensures P (fun h r => Ensures P Q (f r) h) x h := by
  rw [ensures_bind, ensures_attempt]

theorem Ensures.grows {Q : Past Op (fun o => Except ε (Value o)) → Except ε α → Prop}
    {x : Fallible Op Value ε α} (hx : Ensures P Q x h) :
    Ensures (fun h' o => P h' o ∧ h <:+ h') (fun h' r => Q h' r ∧ h <:+ h') x h :=
  Follows.grows hx

theorem Ensures.mono {Q Q' : Past Op (fun o => Except ε (Value o)) → Except ε α → Prop}
    {x : Fallible Op Value ε α} (hx : Ensures P Q x h) (hP : ∀ h o, P h o → P' h o)
    (hQ : ∀ h r, Q h r → Q' h r) : Ensures P' Q' x h :=
  Follows.mono hP hQ hx

/-- **The loop rule.** An invariant of the past that each round keeps and, if the round throws,
turns into the postcondition. -/
theorem ensures_forEach {ι : Type} {f : ι → Fallible Op Value ε Unit}
    {Q : Past Op (fun o => Except ε (Value o)) → Except ε Unit → Prop}
    (I : List ι → Past Op (fun o => Except ε (Value o)) → Prop)
    (round : ∀ x xs h, I (x :: xs) h → Ensures P (fun h r => match r with
      | .ok _ => I xs h
      | .error e => Q h (.error e)) (f x) h)
    (done : ∀ h, I [] h → Q h (.ok ())) (xs : List ι) :
    ∀ h, I xs h → Ensures P Q (forEach f xs) h := by
  induction xs with
  | nil => exact done
  | cons x xs ih =>
      intro h hI
      unfold forEach
      rw [ensures_bind]
      refine (round x xs h hI).mono (fun _ _ hp => hp) ?_
      rintro h (e | u) hr
      · exact hr
      · exact ih h hr

/-- A loop whose rounds rest on something that stays known. -/
theorem ensures_forEach_known {ι : Type} {f : ι → Fallible Op Value ε Unit}
    {K : Past Op (fun o => Except ε (Value o)) → Prop} (hK : ∀ h h', h <:+ h' → K h → K h')
    (xs : List ι) (hf : ∀ x ∈ xs, ∀ h, K h → Ensures P (fun _ _ => True) (f x) h) (hk : K h) :
    Ensures P (fun _ _ => True) (forEach f xs) h := by
  refine ensures_forEach (fun rest h => K h ∧ rest ⊆ xs) ?_ (fun _ _ => trivial) _ h
    ⟨hk, List.Subset.refl _⟩
  rintro x rest h ⟨hk, hsub⟩
  refine (hf x (hsub List.mem_cons_self) h hk).grows.mono (fun _ _ hp => hp.1) ?_
  rintro h' (e | _) ⟨-, hsuffix⟩
  · trivial
  · exact ⟨hK h h' hsuffix hk, fun y hy => hsub (List.mem_cons_of_mem _ hy)⟩

/-! ### Programs of one class -/

/-- Whatever it is replied, the program issues only operations that satisfy `T`. -/
def Only (T : Op → Prop) (x : Fallible Op Value ε α) : Prop :=
  ∀ h, Ensures (fun _ o => T o) (fun _ _ => True) x h

variable {T : Op → Prop}

theorem Only.pure (a : α) : Only T (pure a : Fallible Op Value ε α) := fun _ => trivial

theorem Only.throw (e : ε) : Only T (throw e : Fallible Op Value ε α) := fun _ => trivial

theorem Only.call {o : Op} (ho : T o) : Only T (call o : Fallible Op Value ε (Value o)) :=
  fun _ => ⟨ho, fun _ => trivial⟩

theorem Only.bind {x : Fallible Op Value ε α} {f : α → Fallible Op Value ε β} (hx : Only T x)
    (hf : ∀ a, Only T (f a)) : Only T (x >>= f) := by
  intro h
  rw [ensures_bind]
  refine (hx h).mono (fun _ _ ho => ho) ?_
  rintro h' (e | a) _
  · trivial
  · exact hf a h'

theorem Only.mono {T' : Op → Prop} {x : Fallible Op Value ε α} (hx : Only T x)
    (hT : ∀ o, T o → T' o) : Only T' x :=
  fun h => (hx h).mono (fun _ o ho => hT o ho) fun _ _ hq => hq

theorem Only.attempt {x : Fallible Op Value ε α} (hx : Only T x) : Only T (attempt x) := by
  intro h
  rw [ensures_attempt]
  exact hx h

theorem Only.forEach {ι : Type} {f : ι → Fallible Op Value ε Unit} (hf : ∀ x, Only T (f x))
    (xs : List ι) : Only T (forEach f xs) := by
  induction xs with
  | nil => exact .pure ()
  | cons x xs ih => exact .bind (hf x) fun _ => ih

/-- What such a program adds to the past is of the class. -/
theorem Only.ensures {x : Fallible Op Value ε α} (hx : Only T x)
    {Q : Past Op (fun o => Except ε (Value o)) → Except ε α → Prop}
    (hP : ∀ l o, (∀ d ∈ l, T d.op) → T o → P (l ++ h) o)
    (hQ : ∀ l r, (∀ d ∈ l, T d.op) → Q (l ++ h) r) : Ensures P Q x h := by
  suffices ∀ l, (∀ d ∈ l, T d.op) → Follows P Q x.run (l ++ h) from this [] (by simp)
  have hall : ∀ h, Follows (fun _ o => T o) (fun _ _ => True) x.run h := hx
  generalize x.run = p at hall
  induction p with
  | ret r => exact fun l hl => hQ l r hl
  | await o k ih =>
      intro l hl
      have ho : T o := (hall []).1
      refine ⟨hP l o hl ho, fun r => ?_⟩
      refine ih r (fun h' => ?_) (⟨o, r⟩ :: l) ?_
      · -- a class does not look at the past
        exact Follows.of_any ((hall []).2 r) h'
      · rintro d (_ | ⟨_, hd⟩)
        · exact ho
        · exact hl d hd

/-! ### Programs explained from any past -/

/-- Whatever was done before and whatever it is replied, the program issues only operations that
`P` explains. -/
def Throughout (P : Past Op (fun o => Except ε (Value o)) → Op → Prop)
    (x : Fallible Op Value ε α) : Prop :=
  ∀ h, Ensures P (fun _ _ => True) x h

theorem Throughout.pure (a : α) : Throughout P (pure a : Fallible Op Value ε α) := fun _ => trivial

theorem Throughout.throw (e : ε) : Throughout P (throw e : Fallible Op Value ε α) := fun _ => trivial

theorem Throughout.call {o : Op} (ho : ∀ h, P h o) :
    Throughout P (call o : Fallible Op Value ε (Value o)) := fun h => ⟨ho h, fun _ => trivial⟩

theorem Throughout.bind {x : Fallible Op Value ε α} {f : α → Fallible Op Value ε β}
    (hx : Throughout P x) (hf : ∀ a, Throughout P (f a)) : Throughout P (x >>= f) := by
  intro h
  rw [ensures_bind]
  refine (hx h).mono (fun _ _ ho => ho) ?_
  rintro h' (e | a) _
  · trivial
  · exact hf a h'

theorem Throughout.attempt {x : Fallible Op Value ε α} (hx : Throughout P x) :
    Throughout P (attempt x) := by
  intro h
  rw [ensures_attempt]
  exact hx h

theorem Throughout.forEach {ι : Type} {f : ι → Fallible Op Value ε Unit}
    (hf : ∀ x, Throughout P (f x)) (xs : List ι) : Throughout P (forEach f xs) := by
  induction xs with
  | nil => exact .pure ()
  | cons x xs ih => exact .bind (hf x) fun _ => ih

/-- Every program issues some operations. -/
theorem Throughout.any (x : Fallible Op Value ε α) : Throughout (fun _ _ => True) x := by
  intro h
  unfold Ensures
  generalize x.run = p
  induction p generalizing h with
  | ret r => trivial
  | await o k ih => exact ⟨trivial, fun r => ih r _⟩

/-- A class of operations that `P` explains whatever was done before. -/
theorem Only.throughout {x : Fallible Op Value ε α} (hx : Only T x) (hP : ∀ h o, T o → P h o) :
    Throughout P x :=
  fun h => (hx h).mono (hP) fun _ _ hq => hq

end

/-! ## Systems -/

/-- A call that was carried out for the process `pid`. -/
structure Call (Op : Type) (Reply : Op → Type) where
  pid : Nat
  op : Op
  reply : Reply op

/-- All calls so far, newest first. -/
abbrev Trace (Op : Type) (Reply : Op → Type) := List (Call Op Reply)

/-- The past of the process `pid`. -/
def own {Op : Type} {Reply : Op → Type} (pid : Nat) (trace : Trace Op Reply) : Past Op Reply :=
  trace.filterMap fun c => if c.pid = pid then some ⟨c.op, c.reply⟩ else none

/-- What the processes run, and what an operation does to the shared state. `exec` has no result
where the outcome asked for is not possible. -/
structure System (Op : Type) (Reply : Op → Type) (Job Outcome σ : Type) where
  body : Job → Prog Op Reply Unit
  exec : (o : Op) → Outcome → σ → Option (Reply o × σ)

/-- A process is a job and what is left of it; nothing is left of a crashed one. -/
structure Proc (Op : Type) (Reply : Op → Type) (Job : Type) where
  job : Job
  rest : Option (Prog Op Reply Unit)

structure Config (Op : Type) (Reply : Op → Type) (Job σ : Type) where
  procs : List (Proc Op Reply Job)
  state : σ
  trace : Trace Op Reply

inductive Act (Job Outcome : Type) where
  | spawn (j : Job)
  | run (pid : Nat) (c : Outcome)
  | crash (pid : Nat)

section

variable {Op : Type} {Reply : Op → Type} {Job Outcome σ : Type}

@[simp] theorem own_nil (pid : Nat) : own pid ([] : Trace Op Reply) = [] := rfl

@[simp] theorem own_cons_self (pid : Nat) (o : Op) (r : Reply o) (t : Trace Op Reply) :
    own pid (⟨pid, o, r⟩ :: t) = ⟨o, r⟩ :: own pid t := by
  simp [own]

@[simp] theorem own_cons_ne {pid pid' : Nat} (hne : pid' ≠ pid) (o : Op) (r : Reply o)
    (t : Trace Op Reply) : own pid (⟨pid', o, r⟩ :: t) = own pid t := by
  simp [own, hne]

theorem mem_own {pid : Nat} {d : Done Op Reply} {t : Trace Op Reply} :
    d ∈ own pid t ↔ (⟨pid, d.op, d.reply⟩ : Call Op Reply) ∈ t := by
  induction t with
  | nil => simp
  | cons c t ih =>
      obtain ⟨pid', o, r⟩ := c
      by_cases hp : pid' = pid
      · subst hp
        rw [own_cons_self, List.mem_cons, List.mem_cons, ih]
        apply or_congr_left
        obtain ⟨o', r'⟩ := d
        simp [Done.mk.injEq, Call.mk.injEq]
      · rw [own_cons_ne hp, List.mem_cons, ih]
        simp [Call.mk.injEq, Ne.symm hp]

/-- A process with a past has made a call. -/
theorem exists_call_of_ne_nil {pid : Nat} {t : Trace Op Reply} (h : own pid t ≠ []) :
    ∃ call ∈ t, call.pid = pid := by
  obtain ⟨d, hd⟩ := List.exists_mem_of_ne_nil _ h
  exact ⟨_, mem_own.mp hd, rfl⟩

/-- A call of a process, and the calls before it. -/
theorem exists_call_of_suffix {pid : Nat} {d : Done Op Reply} {h : Past Op Reply}
    {t : Trace Op Reply} (ht : d :: h <:+ own pid t) :
    ∃ earlier, (⟨pid, d.op, d.reply⟩ : Call Op Reply) :: earlier <:+ t ∧ own pid earlier = h := by
  induction t with
  | nil => cases List.suffix_nil.mp ht
  | cons c t ih =>
      have hlater (ht : d :: h <:+ own pid t) : ∃ earlier,
          (⟨pid, d.op, d.reply⟩ : Call Op Reply) :: earlier <:+ c :: t ∧ own pid earlier = h := by
        obtain ⟨earlier, hsuffix, hown⟩ := ih ht
        exact ⟨earlier, hsuffix.trans (List.suffix_cons _ _), hown⟩
      obtain ⟨pid', o, r⟩ := c
      by_cases hp : pid' = pid
      · subst hp
        rw [own_cons_self] at ht
        rcases List.suffix_cons_iff.mp ht with heq | hold
        · cases heq
          exact ⟨t, List.suffix_rfl, rfl⟩
        · exact hlater hold
      · rw [own_cons_ne hp] at ht
        exact hlater ht

/-- The newest call of a process, and the calls before it. -/
theorem exists_call_of_own {pid : Nat} {d : Done Op Reply} {h : Past Op Reply}
    {t : Trace Op Reply} (ht : own pid t = d :: h) :
    ∃ earlier, (⟨pid, d.op, d.reply⟩ : Call Op Reply) :: earlier <:+ t ∧ own pid earlier = h :=
  exists_call_of_suffix (ht ▸ List.suffix_rfl)

/-- Of two things that were done, one was done before the other. -/
theorem suffix_cons_cases {α : Type} {d d' : α} {h h' l : List α} (hs : d :: h <:+ l)
    (hs' : d' :: h' <:+ l) : (d = d' ∧ h = h') ∨ d :: h <:+ h' ∨ d' :: h' <:+ h := by
  rcases List.suffix_or_suffix_of_suffix hs hs' with hle | hle
  · rcases List.suffix_cons_iff.mp hle with heq | hle
    · exact .inl (List.cons.inj heq)
    · exact .inr (.inl hle)
  · rcases List.suffix_cons_iff.mp hle with heq | hle
    · exact .inl ⟨(List.cons.inj heq).1.symm, (List.cons.inj heq).2.symm⟩
    · exact .inr (.inr hle)

/-- What was done is the newest, or something was done next. -/
theorem suffix_eq_or_next {α : Type} {h l : List α} (hs : h <:+ l) :
    h = l ∨ ∃ d, d :: h <:+ l := by
  obtain ⟨newer, rfl⟩ := hs
  rcases List.eq_nil_or_concat newer with rfl | ⟨newer, d, rfl⟩
  · exact .inl rfl
  · exact .inr ⟨d, newer, by simp⟩

/-- Each call satisfies `P`, after the calls before it. -/
def EachCall (P : Trace Op Reply → Call Op Reply → Prop) : Trace Op Reply → Prop
  | [] => True
  | c :: earlier => P earlier c ∧ EachCall P earlier

instance EachCall.decidable (P : Trace Op Reply → Call Op Reply → Prop)
    [∀ t c, Decidable (P t c)] : ∀ t, Decidable (EachCall P t)
  | [] => .isTrue trivial
  | _ :: earlier => @instDecidableAnd _ _ _ (EachCall.decidable P earlier)

/-- What is known of a call in a trace. -/
theorem EachCall.at {P : Trace Op Reply → Call Op Reply → Prop} {c : Call Op Reply}
    {earlier t : Trace Op Reply} (h : EachCall P t) (hs : c :: earlier <:+ t) : P earlier c := by
  induction t with
  | nil => cases List.suffix_nil.mp hs
  | cons c' t ih =>
      rcases List.suffix_cons_iff.mp hs with heq | hs
      · cases heq
        exact h.1
      · exact ih h.2 hs

/-- A call and what its process did before it are the newest part of that process's past. -/
theorem own_suffix {pid : Nat} {o : Op} {r : Reply o} {earlier t : Trace Op Reply}
    (hs : ⟨pid, o, r⟩ :: earlier <:+ t) : ⟨o, r⟩ :: own pid earlier <:+ own pid t := by
  obtain ⟨newer, rfl⟩ := hs
  rw [← own_cons_self]
  unfold own
  rw [List.filterMap_append]
  exact List.suffix_append _ _

theorem own_mono (pid : Nat) {t t' : Trace Op Reply} (ht : t <:+ t') : own pid t <:+ own pid t' := by
  obtain ⟨newer, rfl⟩ := ht
  unfold own
  rw [List.filterMap_append]
  exact List.suffix_append _ _

theorem eachCall_of_at {P : Trace Op Reply → Call Op Reply → Prop} {t : Trace Op Reply}
    (h : ∀ c earlier, c :: earlier <:+ t → P earlier c) : EachCall P t := by
  induction t with
  | nil => trivial
  | cons c t ih =>
      exact ⟨h c t List.suffix_rfl, ih fun c' e hs => h c' e (hs.trans (List.suffix_cons _ _))⟩

/-- Calls that are explained by the jobs of their processes stay so when more processes join in. -/
theorem EachCall.more {P : Job → Past Op Reply → Op → Prop} {jobs jobs' : Nat → Option Job}
    {t : Trace Op Reply}
    (h : EachCall (fun earlier c => ∃ j, jobs c.pid = some j ∧ P j (own c.pid earlier) c.op) t)
    (hjobs : ∀ pid j, jobs pid = some j → jobs' pid = some j) :
    EachCall (fun earlier c => ∃ j, jobs' c.pid = some j ∧ P j (own c.pid earlier) c.op) t := by
  refine eachCall_of_at fun c earlier hs => ?_
  obtain ⟨j, hj, hc⟩ := h.at hs
  exact ⟨j, hjobs _ _ hj, hc⟩

/-- What explains something that a process has done. -/
theorem EachCall.of_own {P : Job → Past Op Reply → Op → Prop} {jobs : Nat → Option Job}
    {t : Trace Op Reply}
    (h : EachCall (fun earlier c => ∃ j, jobs c.pid = some j ∧ P j (own c.pid earlier) c.op) t)
    {pid : Nat} {d : Done Op Reply} {past : Past Op Reply} (hs : d :: past <:+ own pid t) :
    ∃ j, jobs pid = some j ∧ P j past d.op := by
  obtain ⟨earlier, hsuffix, rfl⟩ := exists_call_of_suffix hs
  exact h.at hsuffix

/-- What explains a call of the trace. -/
theorem EachCall.of_mem {P : Job → Past Op Reply → Op → Prop} {jobs : Nat → Option Job}
    {t : Trace Op Reply}
    (h : EachCall (fun earlier c => ∃ j, jobs c.pid = some j ∧ P j (own c.pid earlier) c.op) t)
    {pid : Nat} {o : Op} {r : Reply o} (hmem : ⟨pid, o, r⟩ ∈ t) :
    ∃ j past, jobs pid = some j ∧ P j past o ∧ ⟨o, r⟩ :: past <:+ own pid t := by
  obtain ⟨newer, earlier, ht⟩ := List.append_of_mem hmem
  have hs : ⟨pid, o, r⟩ :: earlier <:+ t := ⟨newer, ht.symm⟩
  obtain ⟨j, hj, hc⟩ := h.at hs
  exact ⟨j, _, hj, hc, own_suffix hs⟩

namespace Config

/-- The operation the process `pid` awaits. -/
def pending (cfg : Config Op Reply Job σ) (pid : Nat) : Option Op :=
  match cfg.procs[pid]? with
  | some ⟨_, some (.await o _)⟩ => some o
  | _ => none

/-- The job that the process `pid` was started for. -/
def jobOf (cfg : Config Op Reply Job σ) (pid : Nat) : Option Job := cfg.procs[pid]?.map Proc.job

/-- Every process has returned or crashed. -/
def Quiet (cfg : Config Op Reply Job σ) : Prop := ∀ pid, cfg.pending pid = none

theorem quiet_iff (cfg : Config Op Reply Job σ) :
    cfg.Quiet ↔ ∀ pid < cfg.procs.length, (cfg.pending pid).isNone = true := by
  refine ⟨fun h pid _ => by rw [h pid]; rfl, fun h pid => ?_⟩
  rcases Nat.lt_or_ge pid cfg.procs.length with hlt | hge
  · exact Option.isNone_iff_eq_none.mp (h pid hlt)
  · rw [pending, List.getElem?_eq_none hge]

instance (cfg : Config Op Reply Job σ) : Decidable cfg.Quiet :=
  decidable_of_iff _ cfg.quiet_iff.symm

/-- The process `pid` is given the rest `rest`. -/
def setRest (cfg : Config Op Reply Job σ) (pid : Nat) (rest : Option (Prog Op Reply Unit)) :
    List (Proc Op Reply Job) :=
  cfg.procs.modify pid fun p => { p with rest := rest }

end Config

variable (sys : System Op Reply Job Outcome σ)

def step (cfg : Config Op Reply Job σ) : Act Job Outcome → Config Op Reply Job σ
  | .spawn j => { cfg with procs := cfg.procs ++ [⟨j, some (sys.body j)⟩] }
  | .run pid c =>
      match cfg.procs[pid]? with
      | some ⟨_, some (.await o k)⟩ =>
          match sys.exec o c cfg.state with
          | some (r, s) => ⟨cfg.setRest pid (some (k r)), s, ⟨pid, o, r⟩ :: cfg.trace⟩
          | none => cfg
      | _ => cfg
  | .crash pid => { cfg with procs := cfg.setRest pid none }

/-- Follow a schedule. -/
def runSched : Config Op Reply Job σ → List (Act Job Outcome) → Config Op Reply Job σ
  | cfg, [] => cfg
  | cfg, a :: as => runSched (step sys cfg a) as

/-- The states a schedule goes through, the first one included. -/
def states (cfg : Config Op Reply Job σ) : List (Act Job Outcome) → List σ
  | [] => [cfg.state]
  | a :: as => cfg.state :: states (step sys cfg a) as

/-- Which runs are meant: the jobs that may start, the calls that may be carried out in a given
state after a given trace, and whether processes may crash. -/
structure Regime (Op : Type) (Reply : Op → Type) (Job Outcome σ : Type) where
  job : Job → Prop
  call : σ → Trace Op Reply → Nat → Op → Outcome → Prop
  crash : Prop

/-- The next act is one the regime means. -/
def Permits (R : Regime Op Reply Job Outcome σ) (cfg : Config Op Reply Job σ) :
    Act Job Outcome → Prop
  | .spawn j => R.job j
  | .run pid c => ∀ o ∈ cfg.pending pid, R.call cfg.state cfg.trace pid o c
  | .crash _ => R.crash

/-- Every act of the schedule is one the regime means, at the point where it happens. -/
def Meets (R : Regime Op Reply Job Outcome σ) :
    Config Op Reply Job σ → List (Act Job Outcome) → Prop
  | _, [] => True
  | cfg, a :: as => Permits R cfg a ∧ Meets R (step sys cfg a) as

instance (R : Regime Op Reply Job Outcome σ) [DecidablePred R.job]
    [∀ s t pid o c, Decidable (R.call s t pid o c)] [Decidable R.crash]
    (cfg : Config Op Reply Job σ) : DecidablePred (Permits R cfg)
  | .spawn j => inferInstanceAs (Decidable (R.job j))
  | .run pid _ => inferInstanceAs (Decidable (∀ o ∈ cfg.pending pid, _))
  | .crash _ => inferInstanceAs (Decidable R.crash)

instance Meets.decidable (R : Regime Op Reply Job Outcome σ) [DecidablePred R.job]
    [∀ s t pid o c, Decidable (R.call s t pid o c)] [Decidable R.crash] :
    ∀ (as : List (Act Job Outcome)) (cfg : Config Op Reply Job σ), Decidable (Meets sys R cfg as)
  | [], _ => .isTrue trivial
  | a :: as, cfg => @instDecidableAnd _ _ _ (Meets.decidable R as (step sys cfg a))

/-- Every act of the schedule satisfies `G` in the configuration where it happens. -/
def Heeds (G : Config Op Reply Job σ → Act Job Outcome → Prop) :
    Config Op Reply Job σ → List (Act Job Outcome) → Prop
  | _, [] => True
  | cfg, a :: as => G cfg a ∧ Heeds G (step sys cfg a) as

instance Heeds.decidable (G : Config Op Reply Job σ → Act Job Outcome → Prop)
    [∀ cfg a, Decidable (G cfg a)] :
    ∀ (as : List (Act Job Outcome)) (cfg : Config Op Reply Job σ),
      Decidable (Heeds sys G cfg as)
  | [], _ => .isTrue trivial
  | a :: as, cfg => @instDecidableAnd _ _ _ (Heeds.decidable G as (step sys cfg a))

/-- Every run. -/
def Regime.any : Regime Op Reply Job Outcome σ := ⟨fun _ => True, fun _ _ _ _ _ => True, True⟩

theorem meets_any (as : List (Act Job Outcome)) :
    ∀ cfg : Config Op Reply Job σ, Meets sys .any cfg as := by
  induction as with
  | nil => exact fun _ => trivial
  | cons a as ih =>
      refine fun cfg => ⟨?_, ih _⟩
      cases a with
      | spawn j => trivial
      | run pid c => exact fun _ _ => trivial
      | crash pid => trivial

/-- A schedule that starts only jobs the regime means, where it means every call. -/
theorem meets_of_jobs {R : Regime Op Reply Job Outcome σ} (hcall : ∀ s t pid o c, R.call s t pid o c)
    (hcrash : R.crash) {as : List (Act Job Outcome)} (hjobs : ∀ j, .spawn j ∈ as → R.job j) :
    ∀ cfg : Config Op Reply Job σ, Meets sys R cfg as := by
  induction as with
  | nil => exact fun _ => trivial
  | cons a as ih =>
      refine fun cfg => ⟨?_, ih (fun j hj => hjobs j (List.mem_cons_of_mem _ hj)) _⟩
      cases a with
      | spawn j => exact hjobs j List.mem_cons_self
      | run pid c => exact fun _ _ => hcall _ _ _ _ _
      | crash pid => exact hcrash

/-! ## The run rule -/

/-- Nothing has been called yet. -/
def Config.initial (s : σ) : Config Op Reply Job σ := ⟨[], s, []⟩

/-- What is left of every process is explained by its past, and a process that has returned
satisfies the postcondition of its job. -/
structure Explained (R : Regime Op Reply Job Outcome σ) (P : Job → Past Op Reply → Op → Prop)
    (Q : Job → Past Op Reply → Prop) (cfg : Config Op Reply Job σ) : Prop where
  started : ∀ c ∈ cfg.trace, c.pid < cfg.procs.length
  jobs : ∀ p ∈ cfg.procs, R.job p.job
  alive : ¬ R.crash → ∀ p ∈ cfg.procs, p.rest ≠ none
  follows : ∀ pid j p, cfg.procs[pid]? = some ⟨j, some p⟩ →
    Follows (P j) (fun h _ => Q j h) p (own pid cfg.trace)

variable {sys} {R : Regime Op Reply Job Outcome σ} {P : Job → Past Op Reply → Op → Prop}
  {Q : Job → Past Op Reply → Prop} {cfg : Config Op Reply Job σ}

theorem Explained.initial (s : σ) : Explained R P Q (Config.initial s) where
  started := fun _ hc => nomatch hc
  jobs := fun _ hp => nomatch hp
  alive := fun _ _ hp => nomatch hp
  follows := fun _ _ _ hp => nomatch hp

theorem own_eq_nil {pid : Nat} {t : Trace Op Reply} (h : ∀ c ∈ t, c.pid < pid) :
    own pid t = [] := by
  unfold own
  rw [List.filterMap_eq_nil_iff]
  intro c hc
  rw [if_neg (Nat.ne_of_lt (h c hc))]

theorem Explained.spawn {j : Job} (hj : R.job j)
    (hbody : Follows (P j) (fun h _ => Q j h) (sys.body j) [])
    (he : Explained R P Q cfg) : Explained R P Q (step sys cfg (.spawn j)) := by
  refine ⟨?_, ?_, ?_, ?_⟩
  · intro c hc
    have := he.started c hc
    simp only [step, List.length_append, List.length_singleton]
    omega
  · intro p hp
    simp only [step, List.mem_append, List.mem_singleton] at hp
    rcases hp with hp | rfl
    · exact he.jobs p hp
    · exact hj
  · intro hcrash p hp
    simp only [step, List.mem_append, List.mem_singleton] at hp
    rcases hp with hp | rfl
    · exact he.alive hcrash p hp
    · simp
  · intro pid j' p hp
    simp only [step] at hp
    rcases Nat.lt_or_ge pid cfg.procs.length with hlt | hge
    · rw [List.getElem?_append_left hlt] at hp
      exact he.follows pid j' p hp
    · rw [List.getElem?_append_right hge, List.getElem?_singleton] at hp
      split at hp
      · rename_i h0
        cases hp
        -- a new process has no past
        rw [show own pid (step sys cfg (.spawn j)).trace = [] from
          own_eq_nil fun c hc => Nat.lt_of_lt_of_le (he.started c hc) hge]
        exact hbody
      · cases hp

/-- What a process is after `setRest` has changed the rest of one. -/
theorem setRest_cases {pid i : Nat} {rest : Option (Prog Op Reply Unit)} {p : Proc Op Reply Job}
    (hp : (cfg.setRest pid rest)[i]? = some p) :
    ∃ q, cfg.procs[i]? = some q ∧ p = if pid = i then { q with rest := rest } else q := by
  simp only [Config.setRest, List.getElem?_modify] at hp
  cases hq : cfg.procs[i]? with
  | none => simp [hq] at hp
  | some q =>
      rw [hq] at hp
      refine ⟨q, rfl, ?_⟩
      split_ifs at hp ⊢ <;> exact (Option.some.inj hp).symm

theorem Explained.crash {pid : Nat} (hcrash : R.crash) (he : Explained R P Q cfg) :
    Explained R P Q (step sys cfg (.crash pid)) := by
  refine ⟨?_, ?_, fun hno => absurd hcrash hno, ?_⟩
  · intro c hc
    simpa [step, Config.setRest] using he.started c hc
  · intro p hp
    obtain ⟨i, hi⟩ := List.mem_iff_getElem?.mp hp
    obtain ⟨q, hq, rfl⟩ := setRest_cases hi
    have hjob := he.jobs q (List.mem_of_getElem? hq)
    split_ifs <;> exact hjob
  · intro i j p hp
    obtain ⟨q, hq, heq⟩ := setRest_cases hp
    split_ifs at heq
    · cases heq
    · exact he.follows i j p (heq ▸ hq)

theorem Explained.call {pid : Nat} {j : Job} {o : Op} {k : Reply o → Prog Op Reply Unit}
    {r : Reply o} {s : σ} (he : Explained R P Q cfg)
    (hp : cfg.procs[pid]? = some ⟨j, some (.await o k)⟩) :
    Explained R P Q ⟨cfg.setRest pid (some (k r)), s, ⟨pid, o, r⟩ :: cfg.trace⟩ := by
  have hlt : pid < cfg.procs.length := (List.getElem?_eq_some_iff.mp hp).1
  refine ⟨?_, ?_, ?_, ?_⟩
  · intro c hc
    simp only [Config.setRest, List.length_modify]
    rcases List.mem_cons.mp hc with rfl | hc
    · exact hlt
    · exact he.started c hc
  · intro p hpm
    obtain ⟨i, hi⟩ := List.mem_iff_getElem?.mp hpm
    obtain ⟨q, hq, rfl⟩ := setRest_cases hi
    have hjob := he.jobs q (List.mem_of_getElem? hq)
    split_ifs <;> exact hjob
  · intro hcrash p hpm
    obtain ⟨i, hi⟩ := List.mem_iff_getElem?.mp hpm
    obtain ⟨q, hq, rfl⟩ := setRest_cases hi
    have halive := he.alive hcrash q (List.mem_of_getElem? hq)
    split_ifs
    · simp
    · exact halive
  -- only the caller's past grows, by the call that its list allows
  · intro i j' p hi
    obtain ⟨q, hq, heq⟩ := setRest_cases hi
    split_ifs at heq with hpi
    · subst hpi
      rw [hp] at hq
      cases hq
      cases heq
      rw [own_cons_self]
      exact (he.follows pid j _ hp).2 r
    · rw [own_cons_ne hpi]
      exact he.follows i j' p (heq ▸ hq)

/-- The call a process is about to make is explained by its past. -/
theorem Explained.issued {pid : Nat} {o : Op} (he : Explained R P Q cfg)
    (hp : o ∈ cfg.pending pid) : ∃ j, R.job j ∧ P j (own pid cfg.trace) o := by
  unfold Config.pending at hp
  split at hp
  · rename_i j o' k heq
    cases hp
    exact ⟨j, he.jobs _ (List.mem_of_getElem? heq), (he.follows pid j _ heq).1⟩
  · cases hp

/-- The process has run to its end. -/
def Config.Returned (cfg : Config Op Reply Job σ) (pid : Nat) : Prop :=
  ∃ j, cfg.procs[pid]? = some ⟨j, some (.ret ())⟩

theorem Explained.ends {pid : Nat} {j : Job} (he : Explained R P Q cfg) (hr : cfg.Returned pid)
    (hj : cfg.jobOf pid = some j) : Q j (own pid cfg.trace) := by
  obtain ⟨j', hp⟩ := hr
  rw [Config.jobOf, hp] at hj
  cases hj
  exact he.follows pid j' _ hp

/-- In a quiet configuration, a process that did not crash satisfies its postcondition. -/
theorem Explained.returned {pid : Nat} {j : Job} {p : Prog Op Reply Unit}
    (he : Explained R P Q cfg) (hq : cfg.Quiet) (hp : cfg.procs[pid]? = some ⟨j, some p⟩) :
    Q j (own pid cfg.trace) := by
  have hf := he.follows pid j p hp
  cases p with
  | ret a => exact hf
  | await o k =>
      have := hq pid
      unfold Config.pending at this
      rw [hp] at this
      cases this

/-- In a quiet configuration where nothing crashes, whoever made a call has returned. -/
theorem Explained.ended {c : Call Op Reply} (he : Explained R P Q cfg) (hq : cfg.Quiet)
    (hcrash : ¬ R.crash) (hc : c ∈ cfg.trace) : ∃ j, R.job j ∧ Q j (own c.pid cfg.trace) := by
  have hlt := he.started c hc
  have hp : cfg.procs[c.pid]? = some cfg.procs[c.pid] := List.getElem?_eq_getElem hlt
  have hmem := List.mem_of_getElem? hp
  cases hrest : cfg.procs[c.pid].rest with
  | none => exact absurd hrest (he.alive hcrash _ hmem)
  | some p =>
      refine ⟨_, he.jobs _ hmem, he.returned hq (p := p) ?_⟩
      rw [hp, ← hrest]

/-- A process keeps its job. -/
theorem jobOf_step {pid : Nat} {j : Job} (hp : cfg.jobOf pid = some j) (a : Act Job Outcome) :
    (step sys cfg a).jobOf pid = some j := by
  have hrest : ∀ i rest, ((cfg.setRest i rest)[pid]?).map Proc.job = some j := by
    intro i rest
    obtain ⟨q, hq, rfl⟩ := Option.map_eq_some_iff.mp hp
    simp only [Config.setRest, List.getElem?_modify, hq]
    split_ifs <;> rfl
  cases a with
  | spawn j' =>
      obtain ⟨q, hq, rfl⟩ := Option.map_eq_some_iff.mp hp
      have hlt : pid < cfg.procs.length := (List.getElem?_eq_some_iff.mp hq).1
      simp only [step, Config.jobOf, List.getElem?_append_left hlt, hq, Option.map_some]
  | crash i => exact hrest i none
  | run i c =>
      unfold step
      dsimp only
      split
      · split
        · exact hrest i _
        · exact hp
      · exact hp

theorem jobOf_runSched {pid : Nat} {j : Job} (sched : List (Act Job Outcome)) :
    ∀ cfg : Config Op Reply Job σ, cfg.jobOf pid = some j →
      (runSched sys cfg sched).jobOf pid = some j := by
  induction sched with
  | nil => exact fun _ h => h
  | cons a as ih => exact fun cfg h => ih _ (jobOf_step h a)

/-- Whoever has made a call keeps its job. -/
theorem Explained.jobOf_step (he : Explained R P Q cfg) {call : Call Op Reply}
    (hmem : call ∈ cfg.trace) (a : Act Job Outcome) :
    (step sys cfg a).jobOf call.pid = cfg.jobOf call.pid := by
  have hlt := he.started call hmem
  have hjob : cfg.jobOf call.pid = some cfg.procs[call.pid].job := by
    unfold Config.jobOf
    rw [List.getElem?_eq_getElem hlt, Option.map_some]
  rw [hjob]
  exact Resumption.jobOf_step hjob a

/-- A process that awaits nothing stays so. -/
theorem pending_step {pid : Nat} {j : Job} (hp : cfg.jobOf pid = some j)
    (hidle : cfg.pending pid = none) (a : Act Job Outcome) :
    (step sys cfg a).pending pid = none := by
  obtain ⟨p, hget, -⟩ := Option.map_eq_some_iff.mp hp
  have hlt : pid < cfg.procs.length := (List.getElem?_eq_some_iff.mp hget).1
  have hother : ∀ i rest, i ≠ pid → (cfg.setRest i rest)[pid]? = cfg.procs[pid]? := by
    intro i rest hne
    simp [Config.setRest, hget, hne]
  cases a with
  | spawn j' =>
      unfold Config.pending step
      rw [List.getElem?_append_left hlt]
      exact hidle
  | crash i =>
      unfold Config.pending step
      by_cases hi : i = pid
      · subst hi
        simp [Config.setRest, hget]
      · rw [hother i none hi]
        exact hidle
  | run i c =>
      unfold step
      dsimp only
      split
      · rename_i j' o k heq
        split
        · by_cases hi : i = pid
          · subst hi
            simp [Config.pending, heq] at hidle
          · unfold Config.pending
            rw [hother i _ hi]
            exact hidle
        · exact hidle
      · exact hidle

/-- **What an act does.** The state and the trace stay as they are, or one explained call that
the regime means is carried out. -/
theorem Explained.step_cases
    (body : ∀ j, R.job j → Follows (P j) (fun h _ => Q j h) (sys.body j) [])
    (he : Explained R P Q cfg) {a : Act Job Outcome} (hperm : Permits R cfg a) :
    Explained R P Q (step sys cfg a) ∧
    ((step sys cfg a).state = cfg.state ∧ (step sys cfg a).trace = cfg.trace ∨
      ∃ pid j o c r s', cfg.jobOf pid = some j ∧ R.job j ∧ P j (own pid cfg.trace) o ∧
        R.call cfg.state cfg.trace pid o c ∧ sys.exec o c cfg.state = some (r, s') ∧
        (step sys cfg a).state = s' ∧ (step sys cfg a).trace = ⟨pid, o, r⟩ :: cfg.trace) := by
  cases a with
  | spawn j => exact ⟨he.spawn hperm (body j hperm), .inl ⟨rfl, rfl⟩⟩
  | crash pid => exact ⟨he.crash hperm, .inl ⟨rfl, rfl⟩⟩
  | run pid c =>
      cases hp : cfg.procs[pid]? with
      | none => simpa [step, hp] using he
      | some q =>
          obtain ⟨j, rest⟩ := q
          match rest, hp with
          | none, hp => simpa [step, hp] using he
          | some (.ret a), hp => simpa [step, hp] using he
          | some (.await o k), hp =>
              cases hx : sys.exec o c cfg.state with
              -- a call that cannot be carried out yet waits
              | none => simpa [step, hp, hx] using he
              | some rs =>
                  obtain ⟨r, s⟩ := rs
                  have hcall : R.call cfg.state cfg.trace pid o c :=
                    hperm o (by simp [Config.pending, hp])
                  have hjob := he.jobs _ (List.mem_of_getElem? hp)
                  simp only [step, hp, hx]
                  exact ⟨he.call hp, .inr ⟨pid, j, o, c, r, s, by rw [Config.jobOf, hp]; rfl, hjob,
                    (he.follows pid j _ hp).1, hcall, hx, rfl, rfl⟩⟩

/-- **The run rule, with authors.** Let every job be explained by `P`. An invariant of the jobs
of the processes, the state and the trace that a new process keeps, and that every explained call
keeps under the regime, holds after every run the regime means. -/
theorem runSched_authored {I : (Nat → Option Job) → σ → Trace Op Reply → Prop}
    (body : ∀ j, R.job j → Follows (P j) (fun h _ => Q j h) (sys.body j) [])
    (more : ∀ jobs jobs' s t, (∀ pid j, jobs pid = some j → jobs' pid = some j) → I jobs s t →
      I jobs' s t)
    (call : ∀ jobs s t pid j o c r s', I jobs s t → jobs pid = some j → R.job j →
      P j (own pid t) o → R.call s t pid o c → sys.exec o c s = some (r, s') →
      I jobs s' (⟨pid, o, r⟩ :: t))
    (sched : List (Act Job Outcome)) : ∀ cfg : Config Op Reply Job σ,
      I cfg.jobOf cfg.state cfg.trace → Explained R P Q cfg → Meets sys R cfg sched →
      I (runSched sys cfg sched).jobOf (runSched sys cfg sched).state (runSched sys cfg sched).trace ∧
        Explained R P Q (runSched sys cfg sched) := by
  induction sched with
  | nil => exact fun cfg hI he _ => ⟨hI, he⟩
  | cons a as ih =>
      rintro cfg hI he ⟨hperm, hrest⟩
      obtain ⟨he', hstep⟩ := he.step_cases body hperm
      refine ih _ (more _ _ _ _ (fun _ _ hj => jobOf_step hj a) ?_) he' hrest
      rcases hstep with ⟨hs, ht⟩ | ⟨pid, j, o, c, r, s', hp, hj, hP, hR, hx, hs, ht⟩
      · rw [hs, ht]; exact hI
      · rw [hs, ht]; exact call _ _ _ pid j o c r s' hI hp hj hP hR hx

/-- **The run rule.** Let every job be explained by `P`. An invariant of state and trace that
every explained call keeps, under the regime, holds after every run the regime means. -/
theorem runSched_rule {I : σ → Trace Op Reply → Prop}
    (body : ∀ j, R.job j → Follows (P j) (fun h _ => Q j h) (sys.body j) [])
    (call : ∀ s t pid j o c r s', I s t → R.job j → P j (own pid t) o → R.call s t pid o c →
      sys.exec o c s = some (r, s') → I s' (⟨pid, o, r⟩ :: t))
    (sched : List (Act Job Outcome)) : ∀ cfg : Config Op Reply Job σ,
      I cfg.state cfg.trace → Explained R P Q cfg → Meets sys R cfg sched →
      I (runSched sys cfg sched).state (runSched sys cfg sched).trace ∧
        Explained R P Q (runSched sys cfg sched) :=
  runSched_authored (I := fun _ s t => I s t) body (fun _ _ _ _ _ hI => hI)
    (fun _ s t pid j o c r s' hI _ => call s t pid j o c r s' hI) sched

/-- **Every call of a run is explained** by the job of its process and the calls before it. -/
theorem runSched_explained (s : σ) (sched : List (Act Job Outcome))
    (meets : Meets sys R (.initial s) sched)
    (body : ∀ j, R.job j → Follows (P j) (fun h _ => Q j h) (sys.body j) []) :
    let cfg := runSched sys (.initial s) sched
    EachCall (fun earlier c => ∃ j, cfg.jobOf c.pid = some j ∧ R.job j ∧
      P j (own c.pid earlier) c.op) cfg.trace := by
  refine (runSched_authored (I := fun jobs _ t => EachCall (fun earlier c => ∃ j,
    jobs c.pid = some j ∧ R.job j ∧ P j (own c.pid earlier) c.op) t) body ?_ ?_ sched (.initial s)
    trivial (.initial s) meets).1
  · intro jobs jobs' _ t hjobs h
    refine eachCall_of_at fun c earlier hs => ?_
    obtain ⟨j, hj, hrest⟩ := h.at hs
    exact ⟨j, hjobs _ _ hj, hrest⟩
  · intro jobs _ t pid j o c r s' h hjob hj hP _ _
    exact ⟨⟨j, hjob, hj, hP⟩, h⟩

/-- **The chain rule.** If moreover every such call takes the state to one that `Rel` allows, the
states of a run are a chain. -/
theorem states_chain {I : σ → Trace Op Reply → Prop} {Rel : σ → σ → Prop}
    (body : ∀ j, R.job j → Follows (P j) (fun h _ => Q j h) (sys.body j) [])
    (call : ∀ s t pid j o c r s', I s t → R.job j → P j (own pid t) o → R.call s t pid o c →
      sys.exec o c s = some (r, s') → I s' (⟨pid, o, r⟩ :: t) ∧ Rel s s')
    (idle : ∀ s t, I s t → Rel s s) (sched : List (Act Job Outcome)) : ∀ cfg : Config Op Reply Job σ,
      I cfg.state cfg.trace → Explained R P Q cfg → Meets sys R cfg sched →
      (states sys cfg sched).IsChain Rel := by
  induction sched with
  | nil => exact fun cfg _ _ _ => .singleton _
  | cons a as ih =>
      rintro cfg hI he ⟨hperm, hrest⟩
      obtain ⟨he', hstep⟩ := he.step_cases body hperm
      have hnext : I (step sys cfg a).state (step sys cfg a).trace ∧
          Rel cfg.state (step sys cfg a).state := by
        rcases hstep with ⟨hs, ht⟩ | ⟨pid, j, o, c, r, s', -, hj, hP, hR, hx, hs, ht⟩
        · rw [hs, ht]; exact ⟨hI, idle _ _ hI⟩
        · rw [hs, ht]; exact call _ _ pid j o c r s' hI hj hP hR hx
      have htail := ih _ hnext.1 he' hrest
      cases as with
      | nil => exact .cons_cons hnext.2 htail
      | cons b bs => exact .cons_cons hnext.2 htail

/-- **What an act does, and whose.** Nothing is called, or the pending operation of a process is
carried out. -/
theorem Explained.act_cases
    (body : ∀ j, Follows (P j) (fun h _ => Q j h) (sys.body j) [])
    (he : Explained (.any : Regime Op Reply Job Outcome σ) P Q cfg) (a : Act Job Outcome) :
    Explained (.any : Regime Op Reply Job Outcome σ) P Q (step sys cfg a) ∧
    ((step sys cfg a).state = cfg.state ∧ (step sys cfg a).trace = cfg.trace ∨
      ∃ pid j o c r s', a = .run pid c ∧ cfg.pending pid = some o ∧ cfg.jobOf pid = some j ∧
        P j (own pid cfg.trace) o ∧ sys.exec o c cfg.state = some (r, s') ∧
        (step sys cfg a).state = s' ∧ (step sys cfg a).trace = ⟨pid, o, r⟩ :: cfg.trace) := by
  -- the regime that tells who acts
  let R : Regime Op Reply Job Outcome σ :=
    ⟨fun _ => True, fun _ _ pid o c => a = .run pid c ∧ cfg.pending pid = some o, True⟩
  have he' : Explained R P Q cfg :=
    ⟨he.started, he.jobs, fun hno => absurd trivial hno, he.follows⟩
  have hperm : Permits R cfg a := by
    cases a with
    | spawn j => trivial
    | crash pid => trivial
    | run pid c => exact fun o ho => ⟨rfl, ho⟩
  obtain ⟨hnext, hstep⟩ := he'.step_cases (fun j _ => body j) hperm
  refine ⟨⟨hnext.started, hnext.jobs, fun hno => absurd trivial hno, hnext.follows⟩, ?_⟩
  rcases hstep with hidle | ⟨pid, j, o, c, r, s', hj, -, hP, ⟨ha, ho⟩, hx, hs, ht⟩
  · exact .inl hidle
  · exact .inr ⟨pid, j, o, c, r, s', ha, ho, hj, hP, hx, hs, ht⟩

/-- **The run rule, for configurations.** -/
theorem runSched_heeds {G : Config Op Reply Job σ → Act Job Outcome → Prop}
    {I : Config Op Reply Job σ → Prop}
    (body : ∀ j, Follows (P j) (fun h _ => Q j h) (sys.body j) [])
    (keeps : ∀ cfg a, Explained (.any : Regime Op Reply Job Outcome σ) P Q cfg → I cfg →
      G cfg a → I (step sys cfg a))
    (sched : List (Act Job Outcome)) : ∀ cfg : Config Op Reply Job σ,
      I cfg → Explained (.any : Regime Op Reply Job Outcome σ) P Q cfg →
      Heeds sys G cfg sched → I (runSched sys cfg sched) := by
  induction sched with
  | nil => exact fun _ hI _ _ => hI
  | cons a as ih =>
      rintro cfg hI he ⟨hG, hrest⟩
      exact ih _ (keeps cfg a he hI hG) (he.act_cases body a).1 hrest

theorem runSched_append (as bs : List (Act Job Outcome)) (cfg : Config Op Reply Job σ) :
    runSched sys cfg (as ++ bs) = runSched sys (runSched sys cfg as) bs := by
  induction as generalizing cfg with
  | nil => rfl
  | cons a as ih => exact ih _

theorem meets_append (as bs : List (Act Job Outcome)) (cfg : Config Op Reply Job σ) :
    Meets sys R cfg (as ++ bs) ↔
      Meets sys R cfg as ∧ Meets sys R (runSched sys cfg as) bs := by
  induction as generalizing cfg with
  | nil => exact ⟨fun h => ⟨trivial, h⟩, And.right⟩
  | cons a as ih =>
      rw [List.cons_append, Meets, Meets, ih, and_assoc]
      rfl

end

end TrustGate.Resumption
