import RazorRpc.Lib.Lts
import Mathlib.Order.WellFounded

/-!
# Fair runs

A run goes on for ever, but may pause, so that a run that ends is one that only pauses from
some moment on. The labels of a system belong to its processes, and a run is fair to a process
if it does not pass it over for ever: again and again the process takes a step, or could not.

* `Run.leadsTo` — the rule: at every moment some process helps; its steps bring the goal
  nearer, and those of the others do not take it further away;
* `Run.ofExec` — a run with given labels, after which it pauses.
-/

universe u v w x

namespace Lts

variable {S : Type u} {L : Type v} {next : S → L → Option S} {ok : S → L → Prop} {init : S}

/-- A run from `init`, moment by moment. -/
structure Run (next : S → L → Option S) (ok : S → L → Prop) (init : S) where
  state : ℕ → S
  /-- the step that is taken; `none` for a pause -/
  label : ℕ → Option L
  start : state 0 = init
  pace : ∀ n, (label n = none ∧ state (n + 1) = state n) ∨
    ∃ l, label n = some l ∧ ok (state n) l ∧ next (state n) l = some (state (n + 1))

namespace Run

variable (r : Run next ok init)

theorem reach (n : ℕ) : Reach next ok init (r.state n) := by
  induction n with
  | zero =>
    rw [r.start]
    exact .init
  | succ n ih =>
    rcases r.pace n with ⟨-, hsame⟩ | ⟨l, -, hok, hnext⟩
    · exact hsame ▸ ih
    · exact .step l ih hok hnext

/-- What every step does, the run does. -/
theorem rel_of_le {R : S → S → Prop} (hrefl : ∀ s, R s s) (htrans : ∀ a b c, R a b → R b c → R a c)
    (hstep : ∀ s l s', next s l = some s' → R s s') {n m : ℕ} (h : n ≤ m) :
    R (r.state n) (r.state m) := by
  induction m, h using Nat.le_induction with
  | base => exact hrefl _
  | succ m _ ih =>
    rcases r.pace m with ⟨-, hsame⟩ | ⟨l, -, -, hnext⟩
    · rw [hsame]
      exact ih
    · exact htrans _ _ _ ih (hstep _ l _ hnext)

end Run

/-! ## Fairness -/

section Fair

variable {I : Type w}

/-- Process `i`, which owns some of the labels, can take a step. -/
def Enabled (next : S → L → Option S) (ok : S → L → Prop) (own : L → Option I) (i : I) (s : S) :
    Prop :=
  ∃ l s', own l = some i ∧ ok s l ∧ next s l = some s'

namespace Run

variable (r : Run next ok init) (own : L → Option I)

/-- Process `i` is not passed over for ever. -/
def Fair (i : I) : Prop :=
  ∀ n, ∃ m, n ≤ m ∧ ((r.label m).bind own = some i ∨ ¬ Enabled next ok own i (r.state m))

variable {r own} {α : Type x} [LT α] {Helps : I → S → Prop} {rank : I → S → α} {Q : S → Prop}

/-- As long as the process that helps takes no step, it goes on helping, unless something
better happens. -/
theorem helps_until
    (hstep : ∀ i s l s', Helps i s → ok s l → next s l = some s' →
      Q s' ∨ ∃ j, Helps j s' ∧
        (rank j s' < rank i s ∨ j = i ∧ rank i s' = rank i s ∧ own l ≠ some i))
    {n : ℕ} {i : I} (hhelps : Helps i (r.state n)) (d : ℕ) :
    (∃ m, n ≤ m ∧ Q (r.state m)) ∨
      (∃ m j, n ≤ m ∧ Helps j (r.state m) ∧ rank j (r.state m) < rank i (r.state n)) ∨
      (Helps i (r.state (n + d)) ∧ rank i (r.state (n + d)) = rank i (r.state n) ∧
        ∀ c < d, (r.label (n + c)).bind own ≠ some i) := by
  induction d with
  | zero => exact Or.inr (Or.inr ⟨hhelps, rfl, fun c hc => absurd hc (Nat.not_lt_zero c)⟩)
  | succ d ih =>
    rcases ih with hQ | hless | ⟨hstill, hrank, hquiet⟩
    · exact Or.inl hQ
    · exact Or.inr (Or.inl hless)
    · have hquiet' : ∀ c < d + 1, (r.label (n + d)).bind own ≠ some i →
          (r.label (n + c)).bind own ≠ some i := by
        intro c hc hlast
        rcases Nat.lt_succ_iff_lt_or_eq.mp hc with hc | rfl
        · exact hquiet c hc
        · exact hlast
      rcases r.pace (n + d) with ⟨hlabel, hsame⟩ | ⟨l, hlabel, hok, hnext⟩
      · refine Or.inr (Or.inr ⟨hsame ▸ hstill, hsame ▸ hrank, fun c hc => hquiet' c hc ?_⟩)
        rw [hlabel]
        exact Option.some_ne_none i ∘ Eq.symm
      · rcases hstep i _ l _ hstill hok hnext with hQ | ⟨j, hj, hless | ⟨rfl, hsame, hother⟩⟩
        · exact Or.inl ⟨_, Nat.le_add_right n (d + 1), hQ⟩
        · exact Or.inr (Or.inl ⟨_, j, Nat.le_add_right n (d + 1), hj, hrank ▸ hless⟩)
        · refine Or.inr (Or.inr ⟨hj, hsame.trans hrank, fun c hc => hquiet' c hc ?_⟩)
          rw [hlabel]
          exact hother

/-- **The goal is reached** in a run that is fair to every process, if whoever helps can
take a step, and every step reaches the goal, or leaves a process that helps with less to do,
or is the step of another and leaves everything as it is. -/
theorem leadsTo [WellFoundedLT α] (Helps : I → S → Prop) (rank : I → S → α) (Q : S → Prop)
    (hfair : ∀ i, r.Fair own i)
    (henabled : ∀ i s, Helps i s → Enabled next ok own i s)
    (hstep : ∀ i s l s', Helps i s → ok s l → next s l = some s' →
      Q s' ∨ ∃ j, Helps j s' ∧
        (rank j s' < rank i s ∨ j = i ∧ rank i s' = rank i s ∧ own l ≠ some i))
    {n : ℕ} {i : I} (hhelps : Helps i (r.state n)) : ∃ m, n ≤ m ∧ Q (r.state m) := by
  generalize ha : rank i (r.state n) = a
  induction a using WellFoundedLT.induction generalizing n i with
  | ind a ih =>
    subst ha
    have hless : ∀ {m j}, n ≤ m → Helps j (r.state m) →
        rank j (r.state m) < rank i (r.state n) → ∃ m, n ≤ m ∧ Q (r.state m) := by
      intro m j hm hj hlt
      obtain ⟨m', hm', hQ⟩ := ih _ hlt hj rfl
      exact ⟨m', hm.trans hm', hQ⟩
    -- at this moment the process takes a step, if nothing better has happened before
    obtain ⟨m, hm, hturn⟩ := hfair i n
    obtain ⟨d, rfl⟩ := Nat.exists_eq_add_of_le hm
    rcases helps_until hstep hhelps (d + 1) with hQ | ⟨m, j, hm, hj, hlt⟩ | ⟨-, -, hquiet⟩
    · exact hQ
    · exact hless hm hj hlt
    · rcases hturn with hturn | hstuck
      · exact absurd hturn (hquiet d (Nat.lt_succ_self d))
      · rcases helps_until hstep hhelps d with hQ | ⟨m, j, hm, hj, hlt⟩ | ⟨hstill, -, -⟩
        · exact hQ
        · exact hless hm hj hlt
        · exact absurd (henabled i _ hstill) hstuck

end Run

end Fair

/-! ## Runs with given labels -/

section OfExec

variable [∀ s l, Decidable (ok s l)]

theorem exec_append (s : S) (ls ls' : List L) :
    exec next ok s (ls ++ ls') = (exec next ok s ls).bind (exec next ok · ls') := by
  induction ls generalizing s with
  | nil => rfl
  | cons l ls ih =>
    rw [List.cons_append, exec, exec]
    split
    · rw [Option.bind_assoc]
      exact congrArg _ (funext fun s' => ih s')
    · rfl

theorem exec_concat {s s' : S} {ls : List L} {l : L}
    (h : exec next ok s (ls ++ [l]) = some s') :
    ∃ s₁, exec next ok s ls = some s₁ ∧ ok s₁ l ∧ next s₁ l = some s' := by
  rw [exec_append] at h
  obtain ⟨s₁, hfirst, hlast⟩ := Option.bind_eq_some_iff.mp h
  rw [exec] at hlast
  split at hlast
  · rename_i hok
    obtain ⟨s₂, hnext, hrest⟩ := Option.bind_eq_some_iff.mp hlast
    cases hrest
    exact ⟨s₁, hfirst, hok, hnext⟩
  · cases hlast

namespace Run

/-- The run with the labels `ls`, which pauses after them. -/
def ofExec (ls : List L) {s : S} (h : exec next ok init ls = some s) : Run next ok init where
  state n := (exec next ok init (ls.take n)).getD init
  label n := ls[n]?
  start := rfl
  pace n := by
    have hsome : ∀ n, ∃ s', exec next ok init (ls.take n) = some s' := by
      intro n
      rw [← List.take_append_drop n ls, exec_append] at h
      obtain ⟨s', hs', -⟩ := Option.bind_eq_some_iff.mp h
      exact ⟨s', hs'⟩
    obtain ⟨s', hs'⟩ := hsome (n + 1)
    rcases hl : ls[n]? with _ | l
    · refine Or.inl ⟨rfl, ?_⟩
      rw [List.take_add_one, hl, Option.toList_none, List.append_nil]
    · rw [hs']
      rw [List.take_add_one, hl] at hs'
      obtain ⟨s₁, hfirst, hok, hnext⟩ := exec_concat hs'
      rw [hfirst]
      exact Or.inr ⟨l, rfl, hok, hnext⟩

variable {ls : List L} {s : S} (h : exec next ok init ls = some s)

theorem state_ofExec {n : ℕ} (hn : ls.length ≤ n) : (ofExec ls h).state n = s := by
  change (exec next ok init (ls.take n)).getD init = s
  rw [List.take_of_length_le hn, h, Option.getD_some]

/-- A run that ends where nobody can take a step is fair. -/
theorem fair_ofExec {I : Type w} {own : L → Option I} {i : I}
    (hstuck : ¬ Enabled next ok own i s) : (ofExec ls h).Fair own i := by
  intro n
  refine ⟨max n ls.length, le_max_left _ _, Or.inr ?_⟩
  rw [state_ofExec h (le_max_right _ _)]
  exact hstuck

end Run

end OfExec

end Lts
