import TrustGate.Lib.Resumption

set_option autoImplicit false

/-! # A program and its replies

A program that talks to nothing shared is known by its replies alone. `Ends` says with which log of
operations and replies, oldest first, it comes to its end and what it returns there. -/

namespace TrustGate.Resumption

section

variable {Op : Type} {Reply : Op → Type} {α β : Type}

/-- Await the reply to `o`. -/
def ask (o : Op) : Prog Op Reply (Reply o) := .await o .ret

/-- With the log `log` the program ends and returns `b`. -/
def Ends : Prog Op Reply α → List (Done Op Reply) → α → Prop
  | .ret a, log, b => log = [] ∧ b = a
  | .await o k, log, b => ∃ r rest, log = ⟨o, r⟩ :: rest ∧ Ends (k r) rest b

/-- Whatever is replied, the program comes to an end. -/
theorem exists_ends_of (reply : ∀ o, Reply o) (p : Prog Op Reply α) :
    ∃ log a, Ends p log a ∧ ∀ d ∈ log, d.reply = reply d.op := by
  induction p with
  | ret a => exact ⟨[], a, ⟨rfl, rfl⟩, fun _ hd => nomatch hd⟩
  | await o k ih =>
      obtain ⟨log, a, h, hreplies⟩ := ih (reply o)
      refine ⟨⟨o, reply o⟩ :: log, a, ⟨reply o, log, rfl, h⟩, fun d hd => ?_⟩
      rcases List.mem_cons.mp hd with rfl | hd
      · rfl
      · exact hreplies d hd

@[simp] theorem ends_pure {a b : α} {log : List (Done Op Reply)} :
    Ends (pure a : Prog Op Reply α) log b ↔ log = [] ∧ b = a := Iff.rfl

theorem ends_bind {p : Prog Op Reply α} {f : α → Prog Op Reply β} {log : List (Done Op Reply)}
    {b : β} : Ends (p >>= f) log b ↔
      ∃ log₁ a log₂, Ends p log₁ a ∧ Ends (f a) log₂ b ∧ log = log₁ ++ log₂ := by
  induction p generalizing log with
  | ret a =>
      constructor
      · exact fun h => ⟨[], a, log, ⟨rfl, rfl⟩, h, rfl⟩
      · rintro ⟨_, _, log₂, ⟨rfl, rfl⟩, h, rfl⟩
        exact h
  | await o k ih =>
      constructor
      · rintro ⟨r, rest, rfl, h⟩
        obtain ⟨log₁, a, log₂, h₁, h₂, rfl⟩ := (ih r).mp h
        exact ⟨⟨o, r⟩ :: log₁, a, log₂, ⟨r, log₁, rfl, h₁⟩, h₂, rfl⟩
      · rintro ⟨_, a, log₂, ⟨r, log₁, rfl, h₁⟩, h₂, rfl⟩
        exact ⟨r, log₁ ++ log₂, rfl, (ih r).mpr ⟨log₁, a, log₂, h₁, h₂, rfl⟩⟩

theorem ends_ask_bind {o : Op} {f : Reply o → Prog Op Reply β} {log : List (Done Op Reply)} {b : β} :
    Ends (ask o >>= f) log b ↔ ∃ r rest, log = ⟨o, r⟩ :: rest ∧ Ends (f r) rest b := Iff.rfl

/-- Replies that depend on what was asked before: a reply to each operation, and what it leaves. -/
abbrev Handler (Op : Type) (Reply : Op → Type) (σ : Type) := (o : Op) → σ → Reply o × σ

/-- What the program returns and leaves when it is replied to by the handler. -/
def handle {σ : Type} (handler : Handler Op Reply σ) : Prog Op Reply α → σ → α × σ
  | .ret a, s => (a, s)
  | .await o k, s => handle handler (k (handler o s).1) (handler o s).2

theorem handle_bind {σ : Type} (handler : Handler Op Reply σ) (p : Prog Op Reply α)
    (f : α → Prog Op Reply β) (s : σ) : handle handler (p >>= f) s =
      handle handler (f (handle handler p s).1) (handle handler p s).2 := by
  induction p generalizing s with
  | ret a => rfl
  | await o k ih => exact ih _ _

theorem handle_ask_bind {σ : Type} (handler : Handler Op Reply σ) (o : Op)
    (f : Reply o → Prog Op Reply β) (s : σ) : handle handler (ask o >>= f) s =
      handle handler (f (handler o s).1) (handler o s).2 := rfl

/-- What explains the operations of a program explains those of its log. -/
theorem Follows.of_ends {P : Past Op Reply → Op → Prop} {Q : Past Op Reply → α → Prop}
    {p : Prog Op Reply α} {h : Past Op Reply} (hp : Follows P Q p h) {log : List (Done Op Reply)}
    {a : α} (hends : Ends p log a) : ∀ d ∈ log, ∃ past, P past d.op := by
  induction p generalizing h log with
  | ret b =>
      obtain ⟨rfl, -⟩ := hends
      simp
  | await o k ih =>
      obtain ⟨r, rest, rfl, hrest⟩ := hends
      intro d hd
      rcases List.mem_cons.mp hd with rfl | hd
      · exact ⟨h, hp.1⟩
      · exact ih r (hp.2 r) hrest d hd

end

end TrustGate.Resumption
