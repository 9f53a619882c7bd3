import Mathlib.Algebra.Ring.Periodic
import Mathlib.Data.Int.CardIntervalMod
import Mathlib.Data.List.Chain
import Mathlib.Data.Nat.Count
import Mathlib.Data.Nat.ModEq

/-!
# Going round

A property of numbers that repeats with period `l` is one of `l` places on a circle.
From a number to the next that has the property (`Next`), and on from there, the places
come round one after another:

* `count_place`, `even_iff` — how often a place is met on a number of steps;
* `count_of_chain` — what is passed on the way is what has been met;
* `le_of_chain` — meeting no more than there are in a round takes one round at most;
* `nodup_mod_of_chain`, `last_of_chain` — the places met are different, and the place
  at the start comes last.
-/

namespace Cyclic

/-! ## Places on a circle -/

/-- The way from `seed` on to the end of its round and to the place `j` of the next one. -/
theorem add_way (seed : ℕ) {l : ℕ} (hl : 0 < l) (j : ℕ) :
    seed + (j + (l - seed % l)) = j + l * (seed / l + 1) := by
  have hmod := Nat.mod_lt seed hl
  have := Nat.mod_add_div seed l
  rw [Nat.mul_add, Nat.mul_one]
  omega

theorem add_way_mod (seed : ℕ) {l j : ℕ} (hj : j < l) : (seed + (j + (l - seed % l))) % l = j := by
  rw [add_way seed (Nat.lt_of_le_of_lt (Nat.zero_le j) hj), Nat.add_mul_mod_self_left,
    Nat.mod_eq_of_lt hj]

/-- From any place, every other one is met on the way round. -/
theorem exists_add_mod_eq {l j : ℕ} (seed : ℕ) (hj : j < l) : ∃ k, k < l ∧ (seed + k) % l = j := by
  refine ⟨(j + (l - seed % l)) % l, Nat.mod_lt _ (Nat.lt_of_le_of_lt (Nat.zero_le j) hj), ?_⟩
  rw [Nat.add_mod_mod, add_way_mod seed hj]

/-- Less than a round does not lead back. -/
theorem add_mod_ne {l k : ℕ} (i : ℕ) (hpos : 0 < k) (hk : k < l) : (i + k) % l ≠ i % l := by
  intro h
  have hdvd : l ∣ k := (Nat.modEq_zero_iff_dvd).mp (Nat.ModEq.add_left_cancel' i (by
    rw [Nat.add_zero]
    exact h))
  exact absurd (Nat.le_of_dvd hpos hdvd) (Nat.not_le_of_lt hk)

/-! ## How often -/

/-- How often a place is met on `m` steps. -/
theorem count_place {l j : ℕ} (hj : j < l) (start m : ℕ) :
    Nat.count (fun i => (start + i) % l = j) m =
      m / l + if (j + (l - start % l)) % l < m % l then 1 else 0 := by
  have hl : 0 < l := Nat.lt_of_le_of_lt (Nat.zero_le j) hj
  -- the place is met where the step is right modulo `l`
  have hsame : ∀ i, (start + i) % l = j ↔ i ≡ j + (l - start % l) [MOD l] := by
    intro i
    constructor
    · intro h
      exact Nat.ModEq.add_left_cancel' start (h.trans (add_way_mod start hj).symm)
    · intro h
      exact Eq.trans (h.add_left start) (add_way_mod start hj)
  rw [Nat.count_eq_card_filter_range, Finset.filter_congr fun i _ => hsame i,
    ← Nat.count_eq_card_filter_range]
  exact Nat.count_modEq_card m hl _

/-- The last place of the round has been met once for each round that is complete. -/
theorem exists_count_place {l : ℕ} (hl : 0 < l) (start m : ℕ) :
    ∃ j, j < l ∧ Nat.count (fun i => (start + i) % l = j) m = m / l := by
  refine ⟨(start + (l - 1)) % l, Nat.mod_lt _ hl, ?_⟩
  have hlast : ((start + (l - 1)) % l + (l - start % l)) % l = l - 1 := by
    rw [Nat.mod_add_mod, Nat.add_assoc, add_way_mod start (by omega)]
  rw [count_place (Nat.mod_lt _ hl), hlast, if_neg, Nat.add_zero]
  have := Nat.mod_lt m hl
  omega

/-- Of `n` steps the first `m` count: all places are met as often as in `n` steps, up to
one, exactly if no complete round is missing. -/
theorem even_iff {l m n : ℕ} (hl : 0 < l) (hle : m ≤ n) (start : ℕ) :
    (∀ j, j < l → Nat.count (fun i => (start + i) % l = j) m = n / l ∨
        Nat.count (fun i => (start + i) % l = j) m = (n + (l - 1)) / l) ↔ n / l = m / l := by
  constructor
  · intro h
    obtain ⟨j, hj, hcount⟩ := exists_count_place hl start m
    have hdiv : m / l ≤ n / l := Nat.div_le_div_right hle
    have hceil : n / l ≤ (n + (l - 1)) / l := Nat.div_le_div_right (Nat.le_add_right _ _)
    have := h j hj
    omega
  · intro heq j hj
    rw [count_place hj]
    split
    · -- a round has begun among the first `m`, so it has among the `n`
      rename_i hlt
      refine Or.inr ?_
      have hn := Nat.div_add_mod n l
      have hm := Nat.div_add_mod m l
      have hpos : 0 < n % l := by
        rw [heq] at hn
        omega
      have hlast := Nat.mod_lt n hl
      have hsplit : n + (l - 1) = l * (n / l + 1) + (n % l - 1) := by
        rw [Nat.mul_add, Nat.mul_one]
        omega
      rw [hsplit, Nat.mul_add_div hl, Nat.div_eq_of_lt (a := n % l - 1) (by omega), heq]
    · exact Or.inl (by rw [heq, Nat.add_zero])

/-! ## One after another -/

/-- `j` is the first number after `i` with the property. -/
structure Next (P : ℕ → Prop) (i j : ℕ) : Prop where
  lt : i < j
  holds : P j
  least : ∀ k, i < k → k < j → ¬ P k

variable {P : ℕ → Prop} [DecidablePred P] {i j l : ℕ} {js : List ℕ}

/-- Each round has the same number of them. -/
theorem count_add_period (hper : Function.Periodic P l) (n : ℕ) :
    Nat.count P (n + l) = Nat.count P n + Nat.count P l := by
  induction n with
  | zero => rw [Nat.zero_add, Nat.count_zero, Nat.zero_add]
  | succ n ih =>
    have hsame : P (n + l) ↔ P n := Iff.of_eq (hper n)
    rw [Nat.add_right_comm, Nat.count_succ, ih, Nat.count_succ, Nat.add_right_comm]
    simp only [hsame]

/-- Only the next one is passed. -/
theorem Next.count (h : Next P i j) : Nat.count P (j + 1) = Nat.count P (i + 1) + 1 := by
  have hnone : ∀ k, i + 1 + k ≤ j → Nat.count P (i + 1 + k) = Nat.count P (i + 1) := by
    intro k hk
    induction k with
    | zero => rfl
    | succ k ih =>
      have hnot : ¬ P (i + 1 + k) := h.least _ (by omega) (by omega)
      rw [← Nat.add_assoc, Nat.count_succ_eq_count hnot]
      exact ih (by omega)
  obtain ⟨k, rfl⟩ := Nat.exists_eq_add_of_le h.lt
  rw [Nat.count_succ_eq_succ_count h.holds, hnone k (Nat.le_refl _)]

/-- What is passed on the way to `j` is what has been met. -/
theorem count_of_chain (h : List.IsChain (Next P) (i :: (js ++ [j]))) :
    P j ∧ Nat.count P (j + 1) = Nat.count P (i + 1) + (js.length + 1) := by
  induction js generalizing i with
  | nil =>
    have hnext : Next P i j := (List.isChain_cons_cons.mp h).1
    exact ⟨hnext.holds, hnext.count⟩
  | cons k js ih =>
    obtain ⟨hnext, hrest⟩ := List.isChain_cons_cons.mp h
    obtain ⟨hj, hcount⟩ := ih hrest
    refine ⟨hj, ?_⟩
    rw [hcount, hnext.count, List.length_cons]
    omega

omit [DecidablePred P] in
theorem pairwise_of_chain (h : List.IsChain (Next P) (i :: js)) :
    (i :: js).Pairwise (· < ·) :=
  (h.imp fun _ _ hnext => hnext.lt).pairwise

/-- As many as there are in a round are met within a round. -/
theorem le_of_chain (hper : Function.Periodic P l) (h : List.IsChain (Next P) (i :: js))
    (hlen : js.length ≤ Nat.count P l) (hj : j ∈ js) : j ≤ i + l := by
  obtain ⟨before, after, rfl⟩ := List.append_of_mem hj
  have hprefix : List.IsChain (Next P) (i :: (before ++ [j])) := by
    refine h.prefix ⟨after, ?_⟩
    simp
  obtain ⟨hholds, hcount⟩ := count_of_chain hprefix
  by_contra hlt
  have hround := count_add_period hper (i + 1)
  have hmono : Nat.count P (i + 1 + l) ≤ Nat.count P j := Nat.count_monotone P (by omega)
  rw [Nat.count_succ_eq_succ_count hholds] at hcount
  rw [List.length_append, List.length_cons] at hlen
  omega

/-- They are at different places. -/
theorem nodup_mod_of_chain (hper : Function.Periodic P l) (h : List.IsChain (Next P) (i :: js))
    (hlen : js.length ≤ Nat.count P l) : (js.map (· % l)).Nodup := by
  obtain ⟨hfirst, hpairwise⟩ := List.pairwise_cons.mp (pairwise_of_chain h)
  refine List.pairwise_map.mpr (hpairwise.imp_of_mem fun {x y} hx hy hlt hmod => ?_)
  have hlow := hfirst x hx
  have hhigh := le_of_chain hper h hlen hy
  obtain ⟨k, rfl⟩ := Nat.exists_eq_add_of_le (Nat.le_of_lt hlt)
  exact add_mod_ne x (by omega) (by omega) hmod.symm

/-- The place at the start is met at the end of the round. -/
theorem last_of_chain (hper : Function.Periodic P l)
    (h : List.IsChain (Next P) (i :: (js ++ [j]))) (hlen : js.length + 1 = Nat.count P l)
    (hi : P i) : j = i + l := by
  obtain ⟨-, hcount⟩ := count_of_chain h
  have hle : j ≤ i + l := by
    refine le_of_chain hper h ?_ (List.mem_append_right _ (List.mem_singleton_self j))
    rw [List.length_append, List.length_singleton, hlen]
  by_contra hne
  have hround := count_add_period hper (i + 1)
  have hback : P (i + l) := (Iff.of_eq (hper i)).mpr hi
  have hlast : Nat.count P (i + 1 + l) = Nat.count P (i + l) + 1 := by
    rw [Nat.add_right_comm]
    exact Nat.count_succ_eq_succ_count hback
  have hmono : Nat.count P (j + 1) ≤ Nat.count P (i + l) := Nat.count_monotone P (by omega)
  omega

end Cyclic
