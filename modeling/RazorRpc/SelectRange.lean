import RazorRpc.NextNode

/-!
# The indices of `select` (`stream/src/client/failover.rs`)

`select` goes through `seed..seed + l`, where `seed` is the counter as it is or the last
index plus one. Neither is ever reduced modulo the number of pools, so the additions
may go beyond `usize`, and a range that wraps is empty.

How soon depends on the width of `usize`, so the selection is given here for a target of
any width (`selectAt`); at 64 bits it is `ClusterConfig.select` (`select_eq_selectAt`).

* `selectAt_of_fits`, `selectAt_of_wrap` — what is selected: the first healthy pool of the
  round, or nothing where the range wraps;
* `select_sound_iff` — the selection can be relied on exactly while nothing overflows.
-/

namespace RazorRpc

/-- `a..b` over a `usize` of `w` bits. -/
def rangeAt {w : ℕ} (a b : BitVec w) : List (BitVec w) :=
  (List.range (b.toNat - a.toNat)).map fun k => a + BitVec.ofNat w k

theorem toNat_add_ofNat {w k : ℕ} {a : BitVec w} (h : a.toNat + k < 2 ^ w) :
    (a + BitVec.ofNat w k).toNat = a.toNat + k := by
  rw [BitVec.toNat_add, BitVec.toNat_ofNat, Nat.add_mod_mod, Nat.mod_eq_of_lt h]

/-- Where to start looking: at `next_node`, or behind the last index. -/
inductive RouteAt (w : ℕ) : Type where
  | start
  | after (lastIndex : BitVec w)

def Route.toBitVec : Route → RouteAt 64
  | .start => .start
  | .after lastIndex => .after lastIndex.toBitVec

namespace ClusterConfig

variable {w : ℕ}

/-- `select` on a target whose `usize` has `w` bits, with the counter afterwards. -/
def selectAt (c : ClusterConfig) (stateless : Bool) (healthy : PoolRef → Bool)
    (nextNode : BitVec w) (route : RouteAt w) : BitVec w × Option (PoolRef × BitVec w) :=
  let l := c.pools.length
  if l = 0 then (nextNode, none)
  else
    let (nextNode, seed) :=
      match route with
      | .after index => (nextNode, index + 1)
      | .start => if stateless then (nextNode + 1, nextNode) else (nextNode, nextNode)
    (nextNode, (rangeAt seed (seed + BitVec.ofNat w l)).findSome? fun i =>
      (c.pools[i.toNat % l]?).bind fun pool => if healthy pool then some (pool, i) else none)

/-- The selection on a 64-bit target. -/
theorem select_eq_selectAt (c : ClusterConfig) (stateless : Bool) (healthy : PoolRef → Bool)
    (nextNode : UInt64) (route : Route) :
    c.select stateless healthy nextNode route =
      ((c.selectAt stateless healthy nextNode.toBitVec route.toBitVec).map UInt64.ofBitVec
        (Option.map (Prod.map id UInt64.ofBitVec))) := by
  have hrange : ∀ a b : UInt64,
      usizeRange a b = (rangeAt a.toBitVec b.toBitVec).map UInt64.ofBitVec := by
    intro a b
    rw [usizeRange, rangeAt, List.map_map]
    rfl
  simp only [select, selectAt]
  split
  · rfl
  · -- the same walk, index by index
    have hwalk : ∀ seed : UInt64,
        (usizeRange seed (seed + UInt64.ofNat c.pools.length)).findSome? (fun i =>
          (c.pools[i.toNat % c.pools.length]?).bind fun pool =>
            if healthy pool then some (pool, i) else none) =
        ((rangeAt seed.toBitVec (seed.toBitVec + BitVec.ofNat 64 c.pools.length)).findSome?
          fun i => (c.pools[i.toNat % c.pools.length]?).bind fun pool =>
            if healthy pool then some (pool, i) else none).map (Prod.map id UInt64.ofBitVec) := by
      intro seed
      rw [hrange, List.findSome?_map, List.map_findSome?]
      refine congrArg (List.findSome? · _) (funext fun i => ?_)
      change (c.pools[i.toNat % _]?).bind _ = Option.map _ ((c.pools[i.toNat % _]?).bind _)
      rcases c.pools[i.toNat % c.pools.length]? with _ | pool
      · rfl
      · rw [Option.bind_some, Option.bind_some]
        split <;> rfl
    cases route with
    | after index =>
      refine Prod.ext rfl ?_
      exact hwalk (index + 1)
    | start =>
      cases stateless with
      | true =>
        refine Prod.ext rfl ?_
        exact hwalk nextNode
      | false =>
        refine Prod.ext rfl ?_
        exact hwalk nextNode

/-! ## What is selected -/

/-- The index looked at first. -/
def seedAt (nextNode : BitVec w) : RouteAt w → BitVec w
  | .start => nextNode
  | .after index => index + 1

variable {c : ClusterConfig} {healthy : PoolRef → Bool} {stateless : Bool} {nextNode : BitVec w}
  {route : RouteAt w}

/-- The range of indices does not wrap. -/
def RangeFits (c : ClusterConfig) (nextNode : BitVec w) (route : RouteAt w) : Prop :=
  (seedAt nextNode route).toNat + c.pools.length < 2 ^ w

theorem selectAt_eq (hne : c.pools ≠ []) :
    (c.selectAt stateless healthy nextNode route).2 =
      (rangeAt (seedAt nextNode route)
        (seedAt nextNode route + BitVec.ofNat w c.pools.length)).findSome? fun i =>
          (c.pools[i.toNat % c.pools.length]?).bind fun pool =>
            if healthy pool then some (pool, i) else none := by
  have hl : c.pools.length ≠ 0 := fun hzero => hne (List.length_eq_zero_iff.mp hzero)
  simp only [selectAt, if_neg hl]
  cases route with
  | after index => rfl
  | start =>
    cases stateless with
    | true => rfl
    | false => rfl

/-- A range that wraps is empty: nothing is selected. -/
theorem selectAt_of_wrap (hne : c.pools ≠ []) (hlen : c.pools.length < 2 ^ w)
    (hwrap : ¬ c.RangeFits nextNode route) :
    (c.selectAt stateless healthy nextNode route).2 = none := by
  have hempty : (seedAt nextNode route + BitVec.ofNat w c.pools.length).toNat -
      (seedAt nextNode route).toNat = 0 := by
    have hlt := (seedAt nextNode route).isLt
    rw [RangeFits] at hwrap
    rw [BitVec.toNat_add, BitVec.toNat_ofNat, Nat.mod_eq_of_lt hlen]
    have hmod : ((seedAt nextNode route).toNat + c.pools.length) % 2 ^ w =
        (seedAt nextNode route).toNat + c.pools.length - 2 ^ w := by
      rw [Nat.mod_eq_sub_mod (Nat.le_of_not_lt hwrap), Nat.mod_eq_of_lt (by omega)]
    omega
  rw [selectAt_eq hne, rangeAt, hempty]
  rfl

/-- Otherwise the first healthy pool of the round is. -/
theorem selectAt_of_fits (hne : c.pools ≠ []) (hfits : c.RangeFits nextNode route) :
    (c.selectAt stateless healthy nextNode route).2 =
      (List.range c.pools.length).findSome? fun k =>
        (c.healthyAt healthy (seedAt nextNode route).toNat k).map
          (·, seedAt nextNode route + BitVec.ofNat w k) := by
  rw [RangeFits] at hfits
  have hlen : (seedAt nextNode route + BitVec.ofNat w c.pools.length).toNat -
      (seedAt nextNode route).toNat = c.pools.length := by
    rw [toNat_add_ofNat hfits, Nat.add_sub_cancel_left]
  rw [selectAt_eq hne, rangeAt, hlen, List.findSome?_map, ← List.head?_filterMap,
    ← List.head?_filterMap]
  refine congrArg List.head? (List.filterMap_congr fun k hk => ?_)
  have hindex : (seedAt nextNode route + BitVec.ofNat w k).toNat =
      (seedAt nextNode route).toNat + k := by
    have hk := List.mem_range.mp hk
    exact toNat_add_ofNat (by omega)
  rw [Function.comp_apply, hindex, healthyAt]
  rcases c.pools[((seedAt nextNode route).toNat + k) % c.pools.length]? with _ | p
  · rfl
  · rw [Option.bind_some, Option.filter_some]
    split <;> rfl

/-- What is selected is healthy and stands at its index. -/
theorem selectAt_eq_some {p : PoolRef} {i : BitVec w}
    (h : (c.selectAt stateless healthy nextNode route).2 = some (p, i)) :
    c.pools[i.toNat % c.pools.length]? = some p ∧ healthy p = true := by
  have hne : c.pools ≠ [] := by
    intro hnil
    rw [selectAt.eq_def, hnil] at h
    cases h
  rw [selectAt_eq hne] at h
  obtain ⟨i', -, hfound⟩ := List.exists_of_findSome?_eq_some h
  obtain ⟨p', hget, hfound⟩ := Option.bind_eq_some_iff.mp hfound
  split at hfound
  · rename_i hhealthy
    obtain ⟨rfl, rfl⟩ := Prod.mk.inj (Option.some.inj hfound)
    exact ⟨hget, hhealthy⟩
  · cases hfound

/-! ## When it can be relied on -/

/-- A healthy pool is selected, at its index, if and only if there is one. -/
def Selects (c : ClusterConfig) (stateless : Bool) (healthy : PoolRef → Bool)
    (nextNode : BitVec w) (route : RouteAt w) : Prop :=
  (∃ p i, (c.selectAt stateless healthy nextNode route).2 = some (p, i) ∧
      c.pools[i.toNat % c.pools.length]? = some p ∧ healthy p = true) ↔
    ∃ p ∈ c.pools, healthy p = true

/-- No addition of the selection overflows: neither that of the counter or of the index,
nor that of the end of the range. -/
def NoOverflow (c : ClusterConfig) (stateless : Bool) (nextNode : BitVec w) (route : RouteAt w) :
    Prop :=
  (match route with
    | .start => stateless = true → nextNode.toNat + 1 < 2 ^ w
    | .after index => index.toNat + 1 < 2 ^ w) ∧
  (seedAt nextNode route).toNat + c.pools.length < 2 ^ w

/-- The counter, or the last index, is far enough from the end of `usize`. -/
def Below (c : ClusterConfig) (nextNode : BitVec w) : RouteAt w → Prop
  | .start => nextNode.toNat + c.pools.length < 2 ^ w
  | .after index => index.toNat + 1 + c.pools.length < 2 ^ w

/-- While the range does not wrap, a healthy pool is found if there is one. -/
theorem selects_of_fits (hne : c.pools ≠ []) (hfits : c.RangeFits nextNode route) :
    c.Selects stateless healthy nextNode route := by
  constructor
  · rintro ⟨p, i, -, hget, hhealthy⟩
    exact ⟨p, List.mem_of_getElem? hget, hhealthy⟩
  · rintro ⟨p, hp, hhealthy⟩
    obtain ⟨j, hj, hgetj⟩ := List.mem_iff_getElem.mp hp
    obtain ⟨k, hk, hkj⟩ := Cyclic.exists_add_mod_eq (seedAt nextNode route).toNat hj
    have hsome : (c.healthyAt healthy (seedAt nextNode route).toNat k).isSome = true := by
      rw [healthyAt, hkj, List.getElem?_eq_getElem hj, hgetj]
      simp [hhealthy]
    have hselected : ((c.selectAt stateless healthy nextNode route).2).isSome = true := by
      rw [selectAt_of_fits hne hfits]
      refine List.findSome?_isSome_iff.mpr ⟨k, List.mem_range.mpr hk, ?_⟩
      rw [Option.isSome_map]
      exact hsome
    obtain ⟨⟨p', i⟩, hsel⟩ := Option.isSome_iff_exists.mp hselected
    exact ⟨p', i, hsel, selectAt_eq_some hsel⟩

/-- Where it wraps, none is found. -/
theorem selects_of_wrap (hne : c.pools ≠ []) (hlen : c.pools.length < 2 ^ w)
    (hwrap : ¬ c.RangeFits nextNode route) :
    c.Selects stateless healthy nextNode route ↔ ∀ p ∈ c.pools, healthy p = false := by
  rw [Selects, selectAt_of_wrap hne hlen hwrap]
  constructor
  · intro h p hp
    rcases hhealthy : healthy p with _ | _
    · rfl
    · obtain ⟨p', i, hsel, -⟩ := h.mpr ⟨p, hp, hhealthy⟩
      cases hsel
  · intro hnone
    constructor
    · rintro ⟨p, i, hsel, -⟩
      cases hsel
    · rintro ⟨p, hp, hhealthy⟩
      rw [hnone p hp] at hhealthy
      cases hhealthy

theorem noOverflow_iff (hne : c.pools ≠ []) :
    c.NoOverflow stateless nextNode route ↔ c.Below nextNode route := by
  cases route with
  | start =>
    have hpos : 0 < c.pools.length := List.length_pos_iff.mpr hne
    constructor
    · exact fun h => h.2
    · intro h
      change nextNode.toNat + _ < _ at h
      exact ⟨fun _ => by omega, h⟩
  | after index =>
    have hseed : index.toNat + 1 < 2 ^ w → (index + 1).toNat = index.toNat + 1 :=
      toNat_add_ofNat (k := 1)
    constructor
    · rintro ⟨hindex, hend⟩
      change (index + 1).toNat + _ < _ at hend
      rw [hseed hindex] at hend
      exact hend
    · intro h
      have hindex : index.toNat + 1 < 2 ^ w := Nat.lt_of_le_of_lt (Nat.le_add_right _ _) h
      refine ⟨hindex, ?_⟩
      change (index + 1).toNat + _ < _
      rw [hseed hindex]
      exact h

/-- **When the selection can be relied on.** On a target of any width, for every counter,
last index and health of the pools: a healthy pool is selected if and only if there is
one, and nothing overflows, exactly while the counter (or the last index plus one) is
more than the number of pools away from the end of `usize`. Where the range of indices
wraps, a cluster with a healthy pool is reported unreachable. -/
theorem select_sound_iff (hne : c.pools ≠ []) (hlen : c.pools.length < 2 ^ w) :
    (c.Selects stateless healthy nextNode route ∧ c.NoOverflow stateless nextNode route ↔
        c.Below nextNode route) ∧
      (c.Selects stateless healthy nextNode route ↔
        c.RangeFits nextNode route ∨ ∀ p ∈ c.pools, healthy p = false) := by
  constructor
  · constructor
    · exact fun h => (noOverflow_iff hne).mp h.2
    · intro h
      have hover : c.NoOverflow stateless nextNode route := (noOverflow_iff hne).mpr h
      exact ⟨selects_of_fits hne hover.2, hover⟩
  · by_cases hfits : c.RangeFits nextNode route
    · exact iff_of_true (selects_of_fits hne hfits) (Or.inl hfits)
    · rw [selects_of_wrap hne hlen hfits]
      constructor
      · exact Or.inr
      · exact fun h => h.resolve_left hfits

end ClusterConfig

/-- Two nodes. -/
def twoNodes : ClusterConfig := ⟨[⟨"a", 0⟩, ⟨"b", 1⟩], 0, by decide⟩

/-- On a 32-bit target, behind index 3. -/
theorem select_sound_behind_three :
    twoNodes.Selects false (·.addr = "b") (0 : BitVec 32) (.after 3) ∧
      twoNodes.NoOverflow false (0 : BitVec 32) (.after 3) :=
  (ClusterConfig.select_sound_iff (by decide) (by decide)).1.mpr
    (show 3 + 1 + 2 < 2 ^ 32 by decide)

/-- Both nodes are healthy, and the counter has come to `usize::MAX - 1`, on 64 bits and on
32: nothing is selected. -/
theorem select_unreachable_at_end :
    twoNodes.select true (fun _ => true) 18446744073709551614 .start =
        (18446744073709551615, none) ∧
      twoNodes.selectAt true (fun _ => true) (4294967294 : BitVec 32) .start =
        (4294967295, none) := by
  constructor
  · decide
  · decide

end RazorRpc
