import Mathlib.Data.Option.Basic

/-!
# Labelled transition systems

A system is a partial function `next` from states and labels to states. `Reach`
collects the states of runs in which every step meets a condition `ok`, and has
one rule, `Reach.invariant`. Runs with given labels are computed (`exec`), so a
particular run is a matter of evaluation (`Reach.of_exec`).

`watch` puts a record beside the state that reads along and decides nothing: what
a property says about the past of a run is then about the state.
-/

universe u v w

namespace Lts

variable {S : Type u} {L : Type v}

/-- The states reached from `init` by steps that meet `ok`. -/
inductive Reach (next : S → L → Option S) (ok : S → L → Prop) (init : S) : S → Prop
  | init : Reach next ok init init
  | step {s s' : S} (l : L) :
      Reach next ok init s → ok s l → next s l = some s' → Reach next ok init s'

variable {next : S → L → Option S} {ok : S → L → Prop} {init : S}

/-- What holds at first and is kept by every step holds of every state reached. -/
theorem Reach.invariant {I : S → Prop} (hinit : I init)
    (hstep : ∀ s l s', I s → ok s l → next s l = some s' → I s') {s : S}
    (h : Reach next ok init s) : I s := by
  induction h with
  | init => exact hinit
  | step l _ hok hnext ih => exact hstep _ l _ ih hok hnext

/-- A condition on steps may be weakened. -/
theorem Reach.mono {ok' : S → L → Prop} {s : S} (h : Reach next ok init s)
    (himp : ∀ s l, ok s l → ok' s l) : Reach next ok' init s := by
  induction h with
  | init => exact .init
  | step l _ hok hnext ih => exact .step l ih (himp _ l hok) hnext

/-- A run with these labels, each step checked against `ok`. -/
def exec (next : S → L → Option S) (ok : S → L → Prop) [∀ s l, Decidable (ok s l)] :
    S → List L → Option S
  | s, [] => some s
  | s, l :: ls => if ok s l then (next s l).bind fun s' => exec next ok s' ls else none

theorem Reach.of_exec_from [∀ s l, Decidable (ok s l)] {s s' : S} (h : Reach next ok init s)
    (ls : List L) (hexec : exec next ok s ls = some s') :
    Reach next ok init s' := by
  induction ls generalizing s with
  | nil =>
    cases hexec
    exact h
  | cons l ls ih =>
    rw [exec] at hexec
    split at hexec
    · rename_i hok
      obtain ⟨s₁, hnext, hrest⟩ := Option.bind_eq_some_iff.mp hexec
      exact ih (Reach.step l h hok hnext) hrest
    · cases hexec

/-- The state a run ends in is reached. -/
theorem Reach.of_exec [∀ s l, Decidable (ok s l)] {s : S} (ls : List L)
    (hexec : exec next ok init ls = some s) : Reach next ok init s :=
  Reach.init.of_exec_from ls hexec

/-- A run whose last state passes a test. -/
theorem Reach.exists_of_exec [∀ s l, Decidable (ok s l)] {test : S → Bool} {ls : List L}
    (h : (exec next ok init ls).any test = true) : ∃ s, Reach next ok init s ∧ test s = true := by
  rcases hexec : exec next ok init ls with _ | s
  · rw [hexec] at h
    cases h
  · rw [hexec] at h
    exact ⟨s, Reach.of_exec ls hexec, h⟩

/-! ## Reading along -/

section Watch

variable {X : Type w}

/-- The system with a record beside its state. -/
def watch (next : S → L → Option S) (update : X → S → L → X) (p : S × X) (l : L) :
    Option (S × X) :=
  (next p.1 l).map fun s' => (s', update p.2 p.1 l)

variable {update : X → S → L → X}

theorem watch_eq_some {p q : S × X} {l : L} :
    watch next update p l = some q ↔ next p.1 l = some q.1 ∧ update p.2 p.1 l = q.2 := by
  constructor
  · intro h
    obtain ⟨s', hnext, rfl⟩ := Option.map_eq_some_iff.mp h
    exact ⟨hnext, rfl⟩
  · rintro ⟨hnext, hupdate⟩
    rw [watch, hnext, Option.map_some, hupdate]

end Watch

end Lts
