import Mathlib.Data.List.Perm.Basic
import Mathlib.Order.Lattice
import Mathlib.Order.Nat

/-!
# An ordered map

A map kept as the list of its entries in strictly increasing order of keys, the
order in which iteration visits them. The order is a field of the structure, so
there is at most one entry per key (`eq_of_mem`) and every operation answers for
it once.
-/

universe u v

/-- A finite map with ordered keys. -/
@[ext] structure BTreeMap (K : Type u) (V : Type v) [LinearOrder K] where
  /-- the entries, in order -/
  entries : List (K × V)
  sorted : entries.Pairwise fun a b => a.1 < b.1

namespace BTreeMap

variable {K : Type u} {V : Type v} [LinearOrder K]

instance [DecidableEq V] : DecidableEq (BTreeMap K V) := fun m m' =>
  decidable_of_iff (m.entries = m'.entries) BTreeMap.ext_iff.symm

/-- The empty map. -/
def empty : BTreeMap K V := ⟨[], List.Pairwise.nil⟩

/-- The values, in the order of their keys. -/
def values (m : BTreeMap K V) : List V := m.entries.map Prod.snd

def isEmpty (m : BTreeMap K V) : Bool := m.entries.isEmpty

/-- Insert `v` at `k`, replacing the value that was there. -/
def insert (m : BTreeMap K V) (k : K) (v : V) : BTreeMap K V where
  entries := m.entries.filter (·.1 < k) ++ (k, v) :: m.entries.filter (k < ·.1)
  sorted := by
    rw [List.pairwise_append, List.pairwise_cons]
    refine ⟨m.sorted.filter _, ⟨?_, m.sorted.filter _⟩, ?_⟩
    · intro e he
      simpa using (List.mem_filter.mp he).2
    · intro e he f hf
      have he' : e.1 < k := by simpa using (List.mem_filter.mp he).2
      rcases List.mem_cons.mp hf with rfl | hf
      · exact he'
      · have hf' : k < f.1 := by simpa using (List.mem_filter.mp hf).2
        exact lt_trans he' hf'

/-- The value at `k`. -/
def get? (m : BTreeMap K V) (k : K) : Option V := (m.entries.find? (·.1 = k)).map Prod.snd

/-- The map without `k`. -/
def erase (m : BTreeMap K V) (k : K) : BTreeMap K V where
  entries := m.entries.filter (·.1 ≠ k)
  sorted := m.sorted.filter _

@[simp] theorem entries_empty : (empty : BTreeMap K V).entries = [] := rfl

@[simp] theorem values_empty : (empty : BTreeMap K V).values = [] := rfl

@[simp] theorem length_values (m : BTreeMap K V) : m.values.length = m.entries.length :=
  List.length_map _

/-- A new greatest key goes to the end and replaces nothing. -/
theorem entries_insert_of_lt {m : BTreeMap K V} {k : K} (h : ∀ e ∈ m.entries, e.1 < k) (v : V) :
    (m.insert k v).entries = m.entries ++ [(k, v)] := by
  have hlow : m.entries.filter (·.1 < k) = m.entries :=
    List.filter_eq_self.mpr fun e he => by simpa using h e he
  have hhigh : m.entries.filter (k < ·.1) = [] :=
    List.filter_eq_nil_iff.mpr fun e he => by simpa using le_of_lt (h e he)
  simp only [insert, hlow, hhigh]

/-- A key has one value. -/
theorem eq_of_mem {m : BTreeMap K V} {k : K} {v w : V} (hv : (k, v) ∈ m.entries)
    (hw : (k, w) ∈ m.entries) : v = w := by
  obtain ⟨i, hi, hvi⟩ := List.mem_iff_getElem.mp hv
  obtain ⟨j, hj, hwj⟩ := List.mem_iff_getElem.mp hw
  have hsorted := List.pairwise_iff_getElem.mp m.sorted
  rcases lt_trichotomy i j with hij | rfl | hij
  · have := hsorted i j hi hj hij
    rw [hvi, hwj] at this
    exact absurd this (lt_irrefl k)
  · rw [hvi] at hwj
    exact (Prod.mk.inj hwj).2
  · have := hsorted j i hj hi hij
    rw [hvi, hwj] at this
    exact absurd this (lt_irrefl k)

theorem get?_eq_some {m : BTreeMap K V} {k : K} {v : V} :
    m.get? k = some v ↔ (k, v) ∈ m.entries := by
  constructor
  · intro h
    obtain ⟨e, he, rfl⟩ := Option.map_eq_some_iff.mp h
    have hk : e.1 = k := by simpa using List.find?_some he
    rw [← hk]
    exact List.mem_of_find?_eq_some he
  · intro h
    rcases hfind : m.entries.find? (·.1 = k) with _ | e
    · have := List.find?_eq_none.mp hfind (k, v) h
      simp at this
    · have hk : e.1 = k := by simpa using List.find?_some hfind
      have hmem : (k, e.2) ∈ m.entries := by
        rw [← hk]
        exact List.mem_of_find?_eq_some hfind
      rw [get?, hfind, eq_of_mem h hmem]
      rfl

theorem get?_eq_none {m : BTreeMap K V} {k : K} :
    m.get? k = none ↔ ∀ e ∈ m.entries, e.1 ≠ k := by
  simp [get?, List.find?_eq_none]

theorem mem_erase {m : BTreeMap K V} {k : K} {e : K × V} :
    e ∈ (m.erase k).entries ↔ e ∈ m.entries ∧ e.1 ≠ k := by
  simp [erase]

theorem values_erase_subset (m : BTreeMap K V) (k : K) : (m.erase k).values ⊆ m.values :=
  List.map_subset _ (List.filter_subset_self _)

theorem mem_values_insert {m : BTreeMap K V} {k : K} {v w : V}
    (h : w ∈ (m.insert k v).values) : w = v ∨ w ∈ m.values := by
  obtain ⟨e, he, rfl⟩ := List.mem_map.mp h
  rcases List.mem_append.mp he with he | he
  · exact Or.inr (List.mem_map_of_mem (List.mem_of_mem_filter he))
  · rcases List.mem_cons.mp he with rfl | he
    · exact Or.inl rfl
    · exact Or.inr (List.mem_map_of_mem (List.mem_of_mem_filter he))

/-- A new key replaces nothing: its value is added to the others. -/
theorem values_insert_perm {m : BTreeMap K V} {k : K} (h : m.get? k = none) (v : V) :
    (m.insert k v).values.Perm (v :: m.values) := by
  have hhigh : m.entries.filter (k < ·.1) = m.entries.filter fun e => !decide (e.1 < k) :=
    List.filter_congr fun e he => by
      have hle : k < e.1 ↔ k ≤ e.1 := ⟨le_of_lt, fun hle => lt_of_le_of_ne hle
        (get?_eq_none.mp h e he).symm⟩
      simp only [hle, ← not_lt, decide_not]
  have hsplit : (m.entries.filter (·.1 < k) ++ m.entries.filter (k < ·.1)).Perm m.entries := by
    rw [hhigh]
    exact List.filter_append_perm _ _
  exact (List.perm_middle.trans (hsplit.cons (k, v))).map Prod.snd

/-- Erasing a key that is there takes out one entry. -/
theorem length_erase (m : BTreeMap K V) (k : K) :
    (m.erase k).entries.length + (m.get? k).isSome.toNat = m.entries.length := by
  rcases hget : m.get? k with _ | v
  · have hnone : m.entries.filter (·.1 ≠ k) = m.entries :=
      List.filter_eq_self.mpr fun e he => by simpa using get?_eq_none.mp hget e he
    exact congrArg List.length hnone
  · have hone : ∀ l : List (K × V), l.Pairwise (fun a b => a.1 < b.1) → (k, v) ∈ l →
        (l.filter (·.1 ≠ k)).length + 1 = l.length := by
      intro l hsorted hmem
      induction l with
      | nil => cases hmem
      | cons e l ih =>
        obtain ⟨hlt, hsorted⟩ := List.pairwise_cons.mp hsorted
        by_cases he : e.1 = k
        · have hrest : l.filter (·.1 ≠ k) = l :=
            List.filter_eq_self.mpr fun f hf => by simpa using ne_of_gt (he ▸ hlt f hf)
          rw [List.filter_cons_of_neg (by simpa using he), hrest, List.length_cons]
        · have hmem : (k, v) ∈ l := (List.mem_cons.mp hmem).resolve_left fun h => he (h ▸ rfl)
          rw [List.filter_cons_of_pos (by simpa using he), List.length_cons, List.length_cons,
            ih hsorted hmem]
    exact hone m.entries m.sorted (get?_eq_some.mp hget)

/-- Inserting adds an entry, unless the key was there. -/
theorem length_insert (m : BTreeMap K V) (k : K) (v : V) :
    (m.insert k v).entries.length + (m.get? k).isSome.toNat = m.entries.length + 1 := by
  have hsplit : ∀ l : List (K × V),
      (l.filter (·.1 < k)).length + (l.filter (k < ·.1)).length = (l.filter (·.1 ≠ k)).length := by
    intro l
    induction l with
    | nil => rfl
    | cons e l ih =>
      rcases lt_trichotomy e.1 k with h | h | h
      · simp [h, h.ne, h.not_gt] at ih ⊢
        omega
      · simpa [h] using ih
      · simp [h, h.ne', h.not_gt] at ih ⊢
        omega
  have herase := m.length_erase k
  have hentries := hsplit m.entries
  simp only [insert, erase, List.length_append, List.length_cons] at herase ⊢
  omega

end BTreeMap
