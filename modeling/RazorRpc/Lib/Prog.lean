import Mathlib.Order.Basic
import Mathlib.Data.List.Basic

/-!
# Programs of atomic operations

A program is a tree of operations, each with a continuation for every answer.
It says what a piece of code does between two shared accesses and leaves open
who answers; what is left of a program that waits is again a program, so a
suspended future needs no representation of its own.

Three ways to run one:

* `poll` — against a handler that answers from a state, until an operation waits;
  `Returns` is a triple for programs that none of their operations holds up;
* `Runs` — against any environment at all: the traces of operations and answers;
* `Follows` — no run, but a check of every path against a protocol, in the
  manner of a typestate. `Follows.bind` composes it, `Follows.step` is what one
  operation keeps.
-/

universe u v

/-- Programs over the operations `Op`, with `Res o` the answers to `o`. -/
inductive Prog (Op : Type u) (Res : Op → Type u) (α : Type u) : Type u where
  /-- finished -/
  | ret (a : α)
  /-- do `o`, then go on with its answer -/
  | act (o : Op) (k : Res o → Prog Op Res α)

namespace Prog

variable {Op : Type u} {Res : Op → Type u} {α β γ : Type u}

/-- Graft a continuation onto every `ret`. -/
protected def bind : Prog Op Res α → (α → Prog Op Res β) → Prog Op Res β
  | ret a, f => f a
  | act o k, f => act o fun r => (k r).bind f

instance : Monad (Prog Op Res) where
  pure := ret
  bind := Prog.bind

/-- A single operation. -/
def perform (o : Op) : Prog Op Res (Res o) := act o ret

@[simp] theorem pure_eq (a : α) : (pure a : Prog Op Res α) = ret a := rfl

@[simp] theorem ret_bind (a : α) (f : α → Prog Op Res β) : ret a >>= f = f a := rfl

@[simp] theorem act_bind (o : Op) (k : Res o → Prog Op Res α) (f : α → Prog Op Res β) :
    act o k >>= f = act o fun r => k r >>= f := rfl

@[simp] theorem perform_bind (o : Op) (f : Res o → Prog Op Res β) :
    perform o >>= f = act o f := rfl

theorem bind_assoc (p : Prog Op Res α) (f : α → Prog Op Res β) (g : β → Prog Op Res γ) :
    p >>= f >>= g = p >>= fun a => f a >>= g := by
  induction p with
  | ret a => rfl
  | act o k ih =>
    simp only [act_bind]
    exact congrArg (act o) (funext ih)

/-! ## Against a handler -/

section Handler

variable {σ : Type v}

/-- What answers operations from a state: the state afterwards, and the answer,
if there is one already. -/
abbrev Handler (Op : Type u) (Res : Op → Type u) (σ : Type v) : Type max u v :=
  (o : Op) → σ → σ × Option (Res o)

/-- Run until an operation waits. What is left is `ret` when nothing is. -/
def poll (h : Handler Op Res σ) : Prog Op Res α → σ → σ × Prog Op Res α
  | ret a, s => (s, ret a)
  | act o k, s =>
    match h o s with
    | (s, some r) => poll h (k r) s
    | (s, none) => (s, act o k)

@[simp] theorem poll_ret (h : Handler Op Res σ) (a : α) (s : σ) :
    poll h (ret a) s = (s, ret a) := rfl

/-- An operation that is answered at once. -/
theorem poll_act {h : Handler Op Res σ} {o : Op} {r : Res o} {s s' : σ}
    (hr : h o s = (s', some r)) (k : Res o → Prog Op Res α) :
    poll h (act o k) s = poll h (k r) s' := by
  rw [poll, hr]

/-- A part that runs to its end. -/
theorem poll_bind {h : Handler Op Res σ} {p : Prog Op Res α} {s s' : σ} {a : α}
    (hp : poll h p s = (s', ret a)) (f : α → Prog Op Res β) :
    poll h (p >>= f) s = poll h (f a) s' := by
  induction p generalizing s with
  | ret b =>
    cases hp
    rfl
  | act o k ih =>
    rw [act_bind]
    rw [poll] at hp ⊢
    rcases hr : h o s with ⟨s'', _ | r⟩
    · rw [hr] at hp
      cases hp
    · rw [hr] at hp
      exact ih r hp

/-- A part that waits, and with it what follows. -/
theorem poll_bind_wait {h : Handler Op Res σ} {p : Prog Op Res α} {s s' : σ} {o : Op}
    {k : Res o → Prog Op Res α} (hp : poll h p s = (s', act o k)) (f : α → Prog Op Res β) :
    poll h (p >>= f) s = (s', act o k >>= f) := by
  induction p generalizing s with
  | ret b => cases hp
  | act o' k' ih =>
    rw [act_bind]
    rw [poll] at hp ⊢
    rcases hr : h o' s with ⟨s'', _ | r⟩
    · rw [hr] at hp
      cases hp
      rfl
    · rw [hr] at hp
      exact ih r hp

/-- The program runs to its end, and `Q` holds there. -/
def Returns (h : Handler Op Res σ) (p : Prog Op Res α) (s : σ) (Q : α → σ → Prop) : Prop :=
  ∃ s' a, poll h p s = (s', ret a) ∧ Q a s'

theorem Returns.of_ret {h : Handler Op Res σ} {a : α} {s : σ} {Q : α → σ → Prop} (hQ : Q a s) :
    Returns h (ret a) s Q := ⟨s, a, rfl, hQ⟩

theorem Returns.of_act {h : Handler Op Res σ} {o : Op} {r : Res o} {s s' : σ}
    {k : Res o → Prog Op Res α} {Q : α → σ → Prop} (hr : h o s = (s', some r))
    (hk : Returns h (k r) s' Q) : Returns h (act o k) s Q := by
  obtain ⟨s'', a, hpoll, hQ⟩ := hk
  exact ⟨s'', a, (poll_act hr k).trans hpoll, hQ⟩

/-- The rule of sequencing. -/
theorem Returns.bind {h : Handler Op Res σ} {p : Prog Op Res α} {f : α → Prog Op Res β} {s : σ}
    {Q : α → σ → Prop} {Q' : β → σ → Prop} (hp : Returns h p s Q)
    (hf : ∀ a s', Q a s' → Returns h (f a) s' Q') : Returns h (p >>= f) s Q' := by
  obtain ⟨s', a, hpoll, hQ⟩ := hp
  obtain ⟨s'', b, hrest, hQ'⟩ := hf a s' hQ
  exact ⟨s'', b, (poll_bind hpoll f).trans hrest, hQ'⟩

/-- Nothing is left to do. -/
def isRet : Prog Op Res α → Bool
  | ret _ => true
  | act _ _ => false

/-- What is left is stuck at an operation. -/
theorem not_returns {h : Handler Op Res σ} {p : Prog Op Res α} {s : σ} {Q : α → σ → Prop}
    (hp : (poll h p s).2.isRet = false) : ¬ Returns h p s Q := by
  rintro ⟨s', a, hpoll, -⟩
  rw [hpoll] at hp
  cases hp

theorem not_returns_of_wait {h : Handler Op Res σ} {p : Prog Op Res α} {s s' : σ} {o : Op}
    {k : Res o → Prog Op Res α} {Q : α → σ → Prop} (hp : poll h p s = (s', act o k)) :
    ¬ Returns h p s Q :=
  not_returns (by rw [hp]; rfl)

end Handler

/-! ## Against any environment -/

/-- An operation with the answer it got. -/
abbrev Event (Op : Type u) (Res : Op → Type u) : Type u := (o : Op) × Res o

/-- The complete runs of a program: what it did, and what it returned. -/
inductive Runs : Prog Op Res α → List (Event Op Res) → α → Prop
  | ret (a : α) : Runs (ret a) [] a
  | act {o : Op} {k : Res o → Prog Op Res α} {tr : List (Event Op Res)} {a : α} (r : Res o) :
      Runs (k r) tr a → Runs (act o k) (⟨o, r⟩ :: tr) a

theorem runs_act {o : Op} {k : Res o → Prog Op Res α} {tr : List (Event Op Res)} {a : α} :
    Runs (act o k) tr a ↔ ∃ r tr', tr = ⟨o, r⟩ :: tr' ∧ Runs (k r) tr' a := by
  constructor
  · intro h
    cases h with
    | act r h => exact ⟨r, _, rfl, h⟩
  · rintro ⟨r, tr', rfl, h⟩
    exact Runs.act r h

/-- A run of a sequence is a run of its first part and a run of its second. -/
theorem runs_bind {p : Prog Op Res α} {f : α → Prog Op Res β} {tr : List (Event Op Res)} {b : β} :
    Runs (p >>= f) tr b ↔ ∃ tr₁ tr₂ a, tr = tr₁ ++ tr₂ ∧ Runs p tr₁ a ∧ Runs (f a) tr₂ b := by
  constructor
  · intro h
    induction p generalizing tr with
    | ret a => exact ⟨[], tr, a, rfl, Runs.ret a, h⟩
    | act o k ih =>
      obtain ⟨r, tr', rfl, hrest⟩ := runs_act.mp h
      obtain ⟨tr₁, tr₂, a, rfl, h₁, h₂⟩ := ih r hrest
      exact ⟨⟨o, r⟩ :: tr₁, tr₂, a, rfl, Runs.act r h₁, h₂⟩
  · rintro ⟨tr₁, tr₂, a, rfl, h₁, h₂⟩
    induction h₁ with
    | ret a => exact h₂
    | act r _ ih => exact Runs.act r (ih h₂)

/-! ## Protocols -/

/-- A protocol with states `φ`: which operations a state allows, and the state
after an answer. -/
structure Protocol (Op : Type u) (Res : Op → Type u) (φ : Type v) where
  ok : φ → Op → Prop
  next : φ → (o : Op) → Res o → φ

variable {φ : Type v}

/-- Every path of the program keeps to the protocol and ends with `post`. -/
def Follows (P : Protocol Op Res φ) (post : α → φ → Prop) : φ → Prog Op Res α → Prop
  | s, ret a => post a s
  | s, act o k => P.ok s o ∧ ∀ r, Follows P post (P.next s o r) (k r)

variable {P : Protocol Op Res φ} {post : α → φ → Prop}

/-- What is left after an operation follows the protocol from the state after
it. -/
theorem Follows.step {s : φ} {o : Op} {k : Res o → Prog Op Res α}
    (h : Follows P post s (act o k)) (r : Res o) : Follows P post (P.next s o r) (k r) :=
  h.2 r

theorem Follows.mono {post' : α → φ → Prop} {s : φ} {p : Prog Op Res α}
    (h : Follows P post s p) (himp : ∀ a s, post a s → post' a s) : Follows P post' s p := by
  induction p generalizing s with
  | ret a => exact himp a s h
  | act o k ih => exact ⟨h.1, fun r => ih r (h.2 r)⟩

/-- Where every operation is allowed and the protocol stays, any program will do. -/
theorem Follows.of_closed {C : φ → Prop} (hok : ∀ s o, C s → P.ok s o)
    (hnext : ∀ s o r, C s → C (P.next s o r)) (hpost : ∀ a s, C s → post a s) {s : φ} (hs : C s)
    (p : Prog Op Res α) : Follows P post s p := by
  induction p generalizing s with
  | ret a => exact hpost a s hs
  | act o k ih => exact ⟨hok s o hs, fun r => ih r (hnext s o r hs)⟩

/-- The state at the end of a complete run. -/
theorem Follows.of_runs {s : φ} {p : Prog Op Res α} {tr : List (Event Op Res)} {a : α}
    (h : Follows P post s p) (hr : Runs p tr a) :
    post a (tr.foldl (fun s e => P.next s e.1 e.2) s) := by
  induction hr generalizing s with
  | ret a => exact h
  | act r _ ih => exact ih (h.2 r)

/-- The rule of sequencing. -/
theorem Follows.bind {post' : β → φ → Prop} {s : φ} {p : Prog Op Res α}
    {f : α → Prog Op Res β} (hp : Follows P post s p)
    (hf : ∀ a s', post a s' → Follows P post' s' (f a)) : Follows P post' s (p >>= f) := by
  induction p generalizing s with
  | ret a => exact hf a s hp
  | act o k ih => exact ⟨hp.1, fun r => ih r (hp.2 r)⟩

/-! ## Operations used -/

/-- Only these operations are used. -/
def Uses (S : Op → Prop) : Prog Op Res α → Prop
  | ret _ => True
  | act o k => S o ∧ ∀ r, Uses S (k r)

theorem Uses.bind {S : Op → Prop} {p : Prog Op Res α} {f : α → Prog Op Res β} (hp : Uses S p)
    (hf : ∀ a, Uses S (f a)) : Uses S (p >>= f) := by
  induction p with
  | ret a => exact hf a
  | act o k ih => exact ⟨hp.1, fun r => ih r (hp.2 r)⟩

/-- Under a protocol that leaves its state alone at these operations. -/
theorem Uses.follows {S : Op → Prop} {p : Prog Op Res α} (h : Uses S p) {s : φ}
    (hS : ∀ o, S o → P.ok s o ∧ ∀ r, P.next s o r = s) :
    Follows P (fun _ s' => s' = s) s p := by
  induction p with
  | ret a => exact rfl
  | act o k ih =>
    refine ⟨(hS o h.1).1, fun r => ?_⟩
    rw [(hS o h.1).2 r]
    exact ih r (h.2 r)

end Prog
