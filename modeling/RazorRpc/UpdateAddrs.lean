import RazorRpc.RetryRound

/-!
# Changing the addresses (`stream/src/client/failover.rs`)

`update_addrs` puts the old pools into a hash map by address and takes them out again
while it goes through the new addresses: an address that is met a second time finds
nothing and gets a new pool, as one that was not there before.

* `FailoverPoolInner.Identified` — what it is to be the same pool; kept by all changes of
  the view (`identified_of_reach`);
* `rebuildPools_getElem?` — what stands at each place of the new list;
* `updateAddrs_exact` — the result.
-/

namespace RazorRpc

/-- The identity of a pool says which one it is, and no pool in use has that of the one to
be created next. -/
structure FailoverPoolInner.Identified (s : FailoverPoolInner) : Prop where
  same : ∀ p ∈ s.pools.pools, ∀ q ∈ s.pools.pools, p.id = q.id → p = q
  lt : ∀ p ∈ s.pools.pools, p.id < s.nextPool

/-! ## The new list -/

/-- An address that has a pool is in the map. -/
theorem poolsMap_eq_none {pools : List PoolRef} {addr : String} :
    poolsMap pools addr = none ↔ addr ∉ pools.map PoolRef.addr := by
  -- the map built so far loses nothing
  have hfold : ∀ (pools : List PoolRef) (m : String → Option PoolRef),
      (pools.foldl (fun (m : String → Option PoolRef) (pool : PoolRef) =>
        Function.update m pool.addr (some pool)) m) addr = none ↔
      m addr = none ∧ addr ∉ pools.map PoolRef.addr := by
    intro pools
    induction pools with
    | nil => exact fun m => ⟨fun h => ⟨h, List.not_mem_nil⟩, And.left⟩
    | cons pool pools ih =>
      intro m
      rw [List.foldl_cons, ih, List.map_cons, List.mem_cons, not_or]
      by_cases haddr : addr = pool.addr
      · rw [haddr, Function.update_self]
        constructor
        · rintro ⟨h, -⟩
          cases h
        · exact fun h => absurd rfl h.2.1
      · rw [Function.update_of_ne haddr]
        exact ⟨fun h => ⟨h.1, haddr, h.2⟩, fun h => ⟨h.1, h.2.2⟩⟩
  exact (hfold pools _).trans ⟨And.right, fun h => ⟨rfl, h⟩⟩

/-- What stands at a place: the old pool of an address that comes for the first time, and
a new one otherwise. -/
theorem rebuildPools_getElem? (m : String → Option PoolRef) (n : ℕ) {addrs : List String} {i : ℕ}
    {addr : String} (hi : addrs[i]? = some addr) :
    (addr ∉ addrs.take i → ∀ p, m addr = some p → (rebuildPools m n addrs).1[i]? = some p) ∧
      (addr ∈ addrs.take i ∨ m addr = none →
        ∃ id, n ≤ id ∧ (rebuildPools m n addrs).1[i]? = some ⟨addr, id⟩) := by
  induction addrs generalizing m n i with
  | nil => cases hi
  | cons addr₀ addrs ih =>
    rw [rebuildPools]
    cases i with
    | zero =>
      obtain rfl : addr₀ = addr := Option.some.inj hi
      rcases hold : m addr₀ with _ | pool
      · refine ⟨?_, fun _ => ⟨n, Nat.le_refl n, rfl⟩⟩
        rintro hnew p ⟨⟩
      · refine ⟨fun _ p hp => hp, fun h => ?_⟩
        rcases h with h | h
        · cases h
        · cases h
    | succ i =>
      rw [List.getElem?_cons_succ] at hi
      rw [List.take_succ_cons, List.mem_cons, not_or]
      rcases hold : m addr₀ with _ | pool
      · -- nothing has been taken out of the map
        obtain ⟨hreuse, hcreate⟩ := ih m (n + 1) hi
        refine ⟨fun h => hreuse h.2, fun h => ?_⟩
        obtain ⟨id, hle, hget⟩ := hcreate (by
          rcases h with (rfl | h) | h
          · exact Or.inr hold
          · exact Or.inl h
          · exact Or.inr h)
        exact ⟨id, Nat.le_of_succ_le hle, hget⟩
      · obtain ⟨hreuse, hcreate⟩ := ih (Function.update m addr₀ none) n hi
        refine ⟨fun h p hp => ?_, fun h => ?_⟩
        · refine hreuse h.2 p ?_
          rw [Function.update_of_ne h.1]
          exact hp
        · refine hcreate ?_
          rcases h with (rfl | h) | h
          · exact Or.inr (Function.update_self _ _ _)
          · exact Or.inl h
          · by_cases haddr : addr = addr₀
            · rw [haddr]
              exact Or.inr (Function.update_self _ _ _)
            · rw [Function.update_of_ne haddr]
              exact Or.inr h

/-- No object stands at two places. -/
theorem rebuildPools_nodup {m : String → Option PoolRef} (hm : ByAddr m) {n : ℕ}
    (hlt : ∀ a p, m a = some p → p.id < n)
    (hsame : ∀ a p b q, m a = some p → m b = some q → p.id = q.id → p = q)
    (addrs : List String) : ((rebuildPools m n addrs).1.map PoolRef.id).Nodup := by
  induction addrs generalizing m n with
  | nil => exact List.nodup_nil
  | cons addr addrs ih =>
    rw [rebuildPools]
    rcases hold : m addr with _ | pool
    · have hlt' : ∀ a p, m a = some p → p.id < n + 1 := fun a p h => Nat.lt_succ_of_lt (hlt a p h)
      refine List.nodup_cons.mpr ⟨fun hmem => ?_, ih hm hlt' hsame⟩
      obtain ⟨q, hq, hid⟩ := List.mem_map.mp hmem
      change q.id = n at hid
      have hfound := ((rebuildPools_distinct hm hlt' addrs).2.2 q hq).2 (by omega)
      exact absurd (hlt _ _ hfound) (by omega)
    · have hkept : ∀ a p, Function.update m addr none a = some p → a ≠ addr ∧ m a = some p :=
        fun a p h => eq_some_of_update_none h
      have hm' : ByAddr (Function.update m addr none) := hm.update_none addr
      have hlt' : ∀ a p, Function.update m addr none a = some p → p.id < n := fun a p h =>
        hlt a p (hkept a p h).2
      refine List.nodup_cons.mpr ⟨fun hmem => ?_, ih hm' hlt' fun a p b q ha hb =>
        hsame a p b q (hkept a p ha).2 (hkept b q hb).2⟩
      obtain ⟨q, hq, hid⟩ := List.mem_map.mp hmem
      have hfound := ((rebuildPools_distinct hm' hlt' addrs).2.2 q hq).2
        (hid ▸ hlt addr pool hold)
      obtain ⟨hne, hfound⟩ := hkept _ _ hfound
      -- the same object, so the same address
      obtain rfl := hsame _ _ _ _ hfound hold hid
      exact hne (hm addr q hold)

namespace FailoverPoolInner

variable {s s' : FailoverPoolInner}

/-- The pools that the map holds are old ones. -/
theorem Identified.poolsMap (h : s.Identified) :
    (∀ a p, poolsMap s.pools.pools a = some p → p.id < s.nextPool) ∧
      ∀ a p b q, RazorRpc.poolsMap s.pools.pools a = some p →
        RazorRpc.poolsMap s.pools.pools b = some q → p.id = q.id → p = q :=
  ⟨fun _ p hp => h.lt p (mem_of_poolsMap hp), fun _ p _ q hp hq =>
    h.same p (mem_of_poolsMap hp) q (mem_of_poolsMap hq)⟩

/-- **`update_addrs` rebuilds the view exactly.** Whatever the old pools and the new
addresses, repetitions included: afterwards the addresses are the new ones, in order; the
first occurrence of one that had a pool is served by a pool that it had, every other
place by a pool that is created for it; no pool stands at two places; and the version is
the next one. -/
theorem updateAddrs_exact (h : s.Identified) {addrs : List String}
    (hlen : addrs.length ≤ isizeMax) :
    ∃ s', s.updateAddrs addrs = some s' ∧ s'.pools.addrs = addrs ∧
      (∀ i addr, addrs[i]? = some addr →
        if addr ∉ addrs.take i ∧ addr ∈ s.pools.addrs then
          ∃ p ∈ s.pools.pools, p.addr = addr ∧ s'.pools.pools[i]? = some p
        else ∃ id, s.nextPool ≤ id ∧ s'.pools.pools[i]? = some ⟨addr, id⟩) ∧
      (s'.pools.pools.map PoolRef.id).Nodup ∧
      s'.pools.ver.toNat = (s.pools.ver.toNat + 1) % 2 ^ 64 := by
  have haddrs := addrs_rebuildPools (byAddr_poolsMap s.pools.pools) s.nextPool addrs
  have hfits : (rebuildPools (poolsMap s.pools.pools) s.nextPool addrs).1.length ≤ isizeMax := by
    rw [← List.length_map (f := PoolRef.addr), haddrs]
    exact hlen
  refine ⟨_, dif_pos hfits, haddrs, fun i addr hi => ?_, ?_, ?_⟩
  · obtain ⟨hreuse, hcreate⟩ :=
      rebuildPools_getElem? (poolsMap s.pools.pools) s.nextPool hi
    split
    · rename_i hfirst
      obtain ⟨p, hp⟩ := Option.ne_none_iff_exists'.mp
        (fun hnone => poolsMap_eq_none.mp hnone hfirst.2)
      exact ⟨p, mem_of_poolsMap hp, byAddr_poolsMap _ _ _ hp, hreuse hfirst.1 p hp⟩
    · rename_i hother
      refine hcreate ?_
      by_cases hseen : addr ∈ addrs.take i
      · exact Or.inl hseen
      · exact Or.inr (poolsMap_eq_none.mpr fun hmem => hother ⟨hseen, hmem⟩)
  · obtain ⟨hlt, hsame⟩ := h.poolsMap
    exact rebuildPools_nodup (byAddr_poolsMap _) hlt hsame addrs
  · change (s.pools.ver + 1).toNat = _
    rw [UInt64.toNat_add, UInt64.toNat_one]

/-- Three pools, two of them for one address. -/
def repeated : FailoverPoolInner where
  pools := ⟨[⟨"a", 0⟩, ⟨"b", 1⟩, ⟨"a", 2⟩], 7, by decide⟩
  stateless := true
  nextNode := 0
  nextPool := 3

/-- `a` comes twice and `c` is new; `b` goes. -/
theorem updateAddrs_repeated :
    ∃ s', repeated.updateAddrs ["c", "a", "a"] = some s' ∧ s'.pools.addrs = ["c", "a", "a"] ∧
      s'.pools.ver.toNat = 8 := by
  have hidentified : repeated.Identified := ⟨by decide, by decide⟩
  have hlen : ["c", "a", "a"].length ≤ isizeMax := by decide
  obtain ⟨s', hupd, haddrs, -, -, hver⟩ := updateAddrs_exact hidentified hlen
  exact ⟨s', hupd, haddrs, hver⟩

/-! ## In use -/

theorem Identified.new {addrs : List String} {stateless : Bool}
    (h : FailoverPoolInner.new addrs stateless = some s) : s.Identified := by
  have hlt := (Distinct.new h).lt
  rw [FailoverPoolInner.new] at h
  split at h
  · cases h
    have hnodup := rebuildPools_nodup (n := 0) byAddr_none (by rintro a p ⟨⟩)
      (by rintro a p b q ⟨⟩) addrs
    exact ⟨fun p hp q hq => List.inj_on_of_nodup_map hnodup hp hq, hlt⟩
  · cases h

theorem Identified.getOrAddAddr (h : s.Identified) {addr : String} {p : PoolRef} {idx ver : UInt64}
    (hadd : s.getOrAddAddr addr = some (s', p, idx, ver)) : s'.Identified := by
  rw [FailoverPoolInner.getOrAddAddr] at hadd
  split at hadd
  · cases hadd
    exact h
  · dsimp only at hadd
    split at hadd
    · cases hadd
      have hne : ∀ q ∈ s.pools.pools, q.id ≠ s.nextPool := fun q hq => Nat.ne_of_lt (h.lt q hq)
      refine ⟨?_, List.forall_mem_cons.mpr ⟨Nat.lt_succ_self _, fun q hq =>
        Nat.lt_succ_of_lt (h.lt q hq)⟩⟩
      intro q hq r hr hid
      rcases List.mem_cons.mp hq with rfl | hq
      · rcases List.mem_cons.mp hr with rfl | hr
        · rfl
        · exact absurd hid.symm (hne r hr)
      · rcases List.mem_cons.mp hr with rfl | hr
        · exact absurd hid (hne q hq)
        · exact h.same q hq r hr hid
    · cases hadd

theorem Identified.updateAddrs (h : s.Identified) {addrs : List String}
    (hupd : s.updateAddrs addrs = some s') : s'.Identified := by
  obtain ⟨hlt, hsame⟩ := h.poolsMap
  rw [FailoverPoolInner.updateAddrs] at hupd
  split at hupd
  · cases hupd
    have hnodup := rebuildPools_nodup (byAddr_poolsMap s.pools.pools) hlt hsame addrs
    have hrest := (rebuildPools_distinct (byAddr_poolsMap s.pools.pools) hlt addrs).2.2
    exact ⟨fun p hp q hq => List.inj_on_of_nodup_map hnodup hp hq, fun p hp => (hrest p hp).1⟩
  · cases hupd

end FailoverPoolInner

/-- In every state of a pool in use, pools are told apart by their identity. -/
theorem FailoverPool.identified_of_reach {B : Type} [ClientTask B] {s : FailoverPool B}
    {addrs : List String} {stateless : Bool} {inner : FailoverPoolInner} {retryLimit : ℕ}
    (hnew : FailoverPoolInner.new addrs stateless = some inner)
    (h : Lts.Reach next (fun _ _ => True) (new inner retryLimit) s) : s.inner.Identified :=
  (view_of_reach (P := FailoverPoolInner.Identified)
    (fun _ _ hpools hid hi => ⟨hpools ▸ hi.same, hpools ▸ hid ▸ hi.lt⟩)
    (fun _ _ _ _ _ _ hi hget => hi.getOrAddAddr hget) (fun _ _ _ hi hget => hi.updateAddrs hget)
    (.new hnew) h).1

end RazorRpc
