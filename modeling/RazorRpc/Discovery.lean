import RazorRpc.Cluster

/-!
# Concurrent changes of the cluster view (`stream/src/client/failover.rs`)

`get_or_add_addr` looks for an address without the lock, and again under it;
`update_addrs` works under the lock throughout. Any number of calls run at the
same time, one atomic access after the other:

* `ViewStage` — how far a call has come, with the view it has loaded;
* `Discovery` — the published view, the lock and the calls, with the history of
  stores and results as a ghost;
* `Inv` — the view a call has loaded under the lock is still the published one.

A store is the atomic operation of `FailoverPoolInner` on the view it was computed
from; `published_consistent` says that this view is always the last one.
-/

namespace RazorRpc

/-- The calls that look at the view under the lock. -/
inductive ViewCall : Type where
  | getOrAddAddr (addr : String)
  | updateAddrs (addrs : List String)

/-- What `get_or_add_addr` was asked for and what it returned. -/
structure Located where
  addr : String
  pool : PoolRef
  idx : UInt64
  ver : UInt64

/-- How far a call has come. -/
inductive ViewStage : Type where
  | idle
  /-- `get_or_add_addr`, before the load of the fast path -/
  | loading (addr : String)
  /-- before the lock is taken -/
  | locking (call : ViewCall)
  /-- with the lock, before the view is loaded again -/
  | locked (call : ViewCall)
  /-- with the lock and the view it loaded -/
  | reloaded (call : ViewCall) (old : ClusterConfig)
  /-- before the lock is released -/
  | unlocking (ret : Option Located)

/-- A pool whose view is looked at and changed by many. -/
structure Discovery where
  inner : FailoverPoolInner
  /-- `add_pool_mutex`: the call that holds it -/
  lock : Option ℕ
  calls : ℕ → ViewStage
  /-- ghost: the view at first -/
  first : ClusterConfig
  /-- ghost: the views stored, each with the view it was computed from -/
  stores : List (ClusterConfig × ClusterConfig)
  /-- ghost: what `get_or_add_addr` returned -/
  returned : List Located

inductive ViewEvent : Type where
  /-- the `i`-th party makes a call -/
  | call (i : ℕ) (call : ViewCall)
  /-- the call of the `i`-th party goes on -/
  | step (i : ℕ)

namespace Discovery

def init (inner : FailoverPoolInner) : Discovery :=
  { inner, lock := none, calls := fun _ => .idle, first := inner.pools, stores := []
    returned := [] }

/-- Every view published so far. -/
def configs (s : Discovery) : List ClusterConfig := s.first :: s.stores.map Prod.snd

/-- The call of the `i`-th party goes to another stage. -/
def go (s : Discovery) (i : ℕ) (stage : ViewStage) : Discovery :=
  { s with calls := Function.update s.calls i stage }

/-- `pools.store`, of what was computed from `old`. -/
def store (s : Discovery) (old : ClusterConfig) (inner : FailoverPoolInner) : Discovery :=
  { s with inner, stores := s.stores ++ [(old, inner.pools)] }

/-- The rest of a call that holds the lock and has loaded `old`. -/
def compute (s : Discovery) (i : ℕ) (old : ClusterConfig) : ViewCall → Option Discovery
  | .getOrAddAddr addr =>
    match old.getByAddr addr with
    | some (pool, idx) => some (s.go i (.unlocking (some ⟨addr, pool, idx, old.ver⟩)))
    | none =>
      (FailoverPoolInner.getOrAddAddr { s.inner with pools := old } addr).map
        fun (inner, pool, idx, ver) =>
          (s.store old inner).go i (.unlocking (some ⟨addr, pool, idx, ver⟩))
  | .updateAddrs addrs =>
    (FailoverPoolInner.updateAddrs { s.inner with pools := old } addrs).map fun inner =>
      (s.store old inner).go i (.unlocking none)

/-- The next atomic access of a call. -/
def advance (s : Discovery) (i : ℕ) : ViewStage → Option Discovery
  | .idle => none
  | .loading addr =>
    match s.inner.pools.getByAddr addr with
    | some (pool, idx) =>
      some { s.go i .idle with returned := s.returned ++ [⟨addr, pool, idx, s.inner.pools.ver⟩] }
    | none => some (s.go i (.locking (.getOrAddAddr addr)))
  | .locking call =>
    if s.lock.isNone then some { s.go i (.locked call) with lock := some i } else none
  | .locked call => some (s.go i (.reloaded call s.inner.pools))
  | .reloaded call old => s.compute i old call
  | .unlocking ret =>
    some { s.go i .idle with lock := none, returned := s.returned ++ ret.toList }

def next (s : Discovery) : ViewEvent → Option Discovery
  | .call i call =>
    match s.calls i, call with
    | .idle, .getOrAddAddr addr => some (s.go i (.loading addr))
    | .idle, .updateAddrs addrs => some (s.go i (.locking (.updateAddrs addrs)))
    | _, _ => none
  | .step i => s.advance i (s.calls i)

/-! ## The invariant -/

end Discovery

/-- The addresses of an update are pairwise distinct. -/
def ViewCall.DupFree : ViewCall → Prop
  | .getOrAddAddr _ => True
  | .updateAddrs addrs => addrs.Nodup

instance : (call : ViewCall) → Decidable call.DupFree
  | .getOrAddAddr _ => inferInstanceAs (Decidable True)
  | .updateAddrs addrs => inferInstanceAs (Decidable addrs.Nodup)

namespace Discovery

/-- A view was published with that version that holds the pool at that index. -/
def Holds (s : Discovery) (r : Located) : Prop :=
  r.pool.addr = r.addr ∧
    ∃ c ∈ s.configs, c.ver = r.ver ∧ c.pools[r.idx.toNat]? = some r.pool

/-- What a call at this stage can rely on. -/
def StageOk (s : Discovery) (i : ℕ) : ViewStage → Prop
  | .idle | .loading _ => True
  | .locking call => call.DupFree
  | .locked call => s.lock = some i ∧ call.DupFree
  | .reloaded call old => s.lock = some i ∧ call.DupFree ∧ old = s.inner.pools
  | .unlocking ret => s.lock = some i ∧ ∀ r ∈ ret, s.Holds r

structure Inv (s : Discovery) : Prop where
  nodup : ∀ c ∈ s.configs, c.addrs.Nodup
  /-- every store was computed from the view before it -/
  chain : ∀ (k : ℕ) (old new : ClusterConfig), s.stores[k]? = some (old, new) →
    s.configs[k]? = some old ∧ new.ver = old.ver + 1
  current : s.configs[s.stores.length]? = some s.inner.pools
  stages : ∀ i, s.StageOk i (s.calls i)
  returned : ∀ r ∈ s.returned, s.Holds r

theorem inv_init {inner : FailoverPoolInner} (h : inner.pools.addrs.Nodup) : (init inner).Inv := by
  refine ⟨fun c hc => ?_, nofun, rfl, fun _ => trivial, nofun⟩
  rw [List.mem_singleton.mp hc]
  exact h

variable {s s' : Discovery} {i : ℕ}

/-- The view in force is one of those published. -/
theorem Inv.mem_configs (inv : s.Inv) : s.inner.pools ∈ s.configs :=
  List.mem_of_getElem? inv.current

/-- What is found in the view in force is right. -/
theorem Inv.holds_getByAddr (inv : s.Inv) {addr : String} {pool : PoolRef} {idx : UInt64}
    (h : s.inner.pools.getByAddr addr = some (pool, idx)) :
    s.Holds ⟨addr, pool, idx, s.inner.pools.ver⟩ := by
  obtain ⟨haddr, -, hget⟩ := ClusterConfig.getByAddr_eq_some h
  exact ⟨haddr, s.inner.pools, inv.mem_configs, rfl, hget⟩

theorem Holds.mono {r : Located} (h : s.Holds r) (hsub : s.configs ⊆ s'.configs) : s'.Holds r := by
  obtain ⟨haddr, c, hc, hrest⟩ := h
  exact ⟨haddr, c, hsub hc, hrest⟩

/-- A call goes to another stage; the other calls do not notice, unless it holds the
lock and they do too. -/
theorem Inv.go (inv : s.Inv) {lock : Option ℕ} {returned : List Located}
    (hreturned : ∀ r ∈ returned, s.Holds r) (stage : ViewStage)
    (hstage : StageOk { s with lock } i stage)
    (hlock : ∀ j, j ≠ i → s.lock = some j → lock = some j) :
    Inv { s.go i stage with lock, returned } := by
  refine ⟨inv.nodup, inv.chain, inv.current, fun j => ?_, hreturned⟩
  by_cases hj : j = i
  · subst hj
    have hself : (Discovery.go s j stage).calls j = stage := Function.update_self ..
    change StageOk _ j ((Discovery.go s j stage).calls j)
    rw [hself]
    cases stage <;> exact hstage
  · have hother : (Discovery.go s i stage).calls j = s.calls j := Function.update_of_ne hj ..
    change StageOk _ j ((Discovery.go s i stage).calls j)
    rw [hother]
    have hok := inv.stages j
    cases hcall : s.calls j with
    | idle | loading addr => exact trivial
    | locking call =>
      rw [hcall] at hok
      exact hok
    | locked call | reloaded call old | unlocking ret =>
      rw [hcall] at hok
      exact ⟨hlock j hj hok.1, hok.2⟩

/-- The one that holds the lock publishes what it computed from the view in force. -/
theorem Inv.store (inv : s.Inv) (hlock : s.lock = some i) {inner : FailoverPoolInner}
    (hnodup : inner.pools.addrs.Nodup) (hver : inner.pools.ver = s.inner.pools.ver + 1)
    {ret : Option Located}
    (hret : ∀ r ∈ ret, (s.store s.inner.pools inner).Holds r) :
    Inv ((s.store s.inner.pools inner).go i (.unlocking ret)) := by
  have hconfigs : (s.store s.inner.pools inner).configs = s.configs ++ [inner.pools] := by
    rw [configs, Discovery.store, List.map_append]
    rfl
  have hsub : s.configs ⊆ (s.store s.inner.pools inner).configs := by
    rw [hconfigs]
    exact List.subset_append_left _ _
  have hlen : s.configs.length = s.stores.length + 1 := by
    rw [configs, List.length_cons, List.length_map]
  refine ⟨fun c hc => ?_, fun k old new hk => ?_, ?_, fun j => ?_, fun r hr => ?_⟩
  · change c ∈ (s.store s.inner.pools inner).configs at hc
    rw [hconfigs] at hc
    rcases List.mem_append.mp hc with hc | hc
    · exact inv.nodup c hc
    · rw [List.mem_singleton.mp hc]
      exact hnodup
  · change (s.store s.inner.pools inner).configs[k]? = some old ∧ _
    change (s.stores ++ [(s.inner.pools, inner.pools)])[k]? = some (old, new) at hk
    rw [hconfigs]
    by_cases hlt : k < s.stores.length
    · rw [List.getElem?_append_left hlt] at hk
      rw [List.getElem?_append_left (by omega)]
      exact inv.chain k old new hk
    · -- the store just made: it was computed from the last view
      have hk' := (List.getElem?_eq_some_iff.mp hk).1
      rw [List.length_append, List.length_singleton] at hk'
      obtain rfl : k = s.stores.length := by omega
      rw [List.getElem?_concat_length] at hk
      obtain ⟨rfl, rfl⟩ := Prod.mk.inj (Option.some.inj hk)
      rw [List.getElem?_append_left (by omega)]
      exact ⟨inv.current, hver⟩
  · change (s.store s.inner.pools inner).configs[(s.stores ++ [_]).length]? = some inner.pools
    rw [hconfigs, List.length_append, List.length_singleton, ← hlen, List.getElem?_concat_length]
  · by_cases hj : j = i
    · subst hj
      have hself : ((s.store s.inner.pools inner).go j (.unlocking ret)).calls j =
          .unlocking ret := Function.update_self ..
      rw [hself]
      exact ⟨hlock, hret⟩
    · have hother : ((s.store s.inner.pools inner).go i (.unlocking ret)).calls j = s.calls j :=
        Function.update_of_ne hj ..
      rw [hother]
      have hok := inv.stages j
      -- no other call holds the lock
      have hno : s.lock = some j → False := fun h => hj (Option.some.inj (h.symm.trans hlock))
      cases hcall : s.calls j with
      | idle | loading addr => exact trivial
      | locking call =>
        rw [hcall] at hok
        exact hok
      | locked call | reloaded call old | unlocking ret =>
        rw [hcall] at hok
        exact (hno hok.1).elim
  · exact (inv.returned r hr).mono hsub

/-! ## Steps -/

/-- What a call does under the lock. -/
theorem Inv.compute (inv : s.Inv) {call : ViewCall} (hlock : s.lock = some i)
    (hdup : call.DupFree) (h : s.compute i s.inner.pools call = some s') : s'.Inv := by
  cases call with
  | getOrAddAddr addr =>
    simp only [Discovery.compute] at h
    rcases hfound : s.inner.pools.getByAddr addr with _ | ⟨pool, idx⟩
    · rw [hfound] at h
      obtain ⟨⟨inner, pool, idx, ver⟩, hadd, rfl⟩ := Option.map_eq_some_iff.mp h
      obtain ⟨haddr, hpools, hver, rfl, rfl⟩ := FailoverPoolInner.getOrAddAddr_of_none hfound hadd
      have haddrs : inner.pools.addrs = pool.addr :: s.inner.pools.addrs := by
        rw [ClusterConfig.addrs, hpools]
        rfl
      refine inv.store hlock ?_ hver ?_
      · rw [haddrs, haddr]
        exact List.nodup_cons.mpr
          ⟨ClusterConfig.getByAddr_eq_none hfound, inv.nodup _ inv.mem_configs⟩
      · intro r hr
        obtain rfl := Option.some.inj hr
        refine ⟨haddr, inner.pools, ?_, rfl, ?_⟩
        · rw [configs, Discovery.store, List.map_append]
          exact List.mem_cons_of_mem _ (List.mem_append_right _ List.mem_cons_self)
        · rw [hpools]
          rfl
    · rw [hfound] at h
      cases h
      refine inv.go inv.returned _ ⟨hlock, fun r hr => ?_⟩ fun _ _ h => h
      obtain rfl := Option.some.inj hr
      exact inv.holds_getByAddr hfound
  | updateAddrs addrs =>
    obtain ⟨inner, hupd, rfl⟩ := Option.map_eq_some_iff.mp h
    refine inv.store hlock ?_ (FailoverPoolInner.ver_updateAddrs hupd) ?_
    · rw [(FailoverPoolInner.updateAddrs_spec hupd).2.2]
      exact hdup
    · intro r hr
      cases hr

/-- Every atomic access keeps the invariant. -/
theorem Inv.advance (inv : s.Inv) (h : s.advance i (s.calls i) = some s') : s'.Inv := by
  have hok := inv.stages i
  cases hcall : s.calls i with
  | idle =>
    rw [hcall] at h
    cases h
  | loading addr =>
    rw [hcall] at h
    simp only [Discovery.advance] at h
    rcases hfound : s.inner.pools.getByAddr addr with _ | ⟨pool, idx⟩
    · rw [hfound] at h
      cases h
      exact inv.go inv.returned _ trivial fun _ _ h => h
    · rw [hfound] at h
      cases h
      refine inv.go (fun r hr => ?_) _ trivial fun _ _ h => h
      rcases List.mem_append.mp hr with hr | hr
      · exact inv.returned r hr
      · rw [List.mem_singleton.mp hr]
        exact inv.holds_getByAddr hfound
  | locking call =>
    rw [hcall] at h hok
    simp only [Discovery.advance] at h
    split at h
    · rename_i hfree
      cases h
      refine inv.go inv.returned _ ⟨rfl, hok⟩ fun j _ hj => ?_
      rw [hj] at hfree
      cases hfree
    · cases h
  | locked call =>
    rw [hcall] at h hok
    cases h
    exact inv.go inv.returned _ ⟨hok.1, hok.2, rfl⟩ fun _ _ h => h
  | reloaded call old =>
    rw [hcall] at h hok
    obtain ⟨hlock, hdup, rfl⟩ := hok
    exact inv.compute hlock hdup h
  | unlocking ret =>
    rw [hcall] at h hok
    cases h
    refine inv.go (fun r hr => ?_) _ trivial fun j hj hlock => ?_
    · rcases List.mem_append.mp hr with hr | hr
      · exact inv.returned r hr
      · exact hok.2 r (Option.mem_toList.mp hr)
    · exact absurd (Option.some.inj (hlock.symm.trans hok.1)) hj

/-- The updates are called with lists of distinct addresses. -/
def DupFree (_ : Discovery) : ViewEvent → Prop
  | .call _ call => call.DupFree
  | .step _ => True

instance (s : Discovery) : (e : ViewEvent) → Decidable (s.DupFree e)
  | .call _ call => inferInstanceAs (Decidable call.DupFree)
  | .step _ => inferInstanceAs (Decidable True)

theorem Inv.step (inv : s.Inv) {e : ViewEvent} (hdup : s.DupFree e) (h : s.next e = some s') :
    s'.Inv := by
  cases e with
  | step i => exact inv.advance h
  | call i call =>
    simp only [next] at h
    split at h
    · cases h
      exact inv.go inv.returned _ trivial fun _ _ h => h
    · cases h
      exact inv.go inv.returned _ hdup fun _ _ h => h
    · cases h

/-- **The view stays consistent.** However the atomic accesses of concurrent calls
interleave: every view published has pairwise distinct addresses; the `k`-th store
was computed from the `k`-th view published, with the version one higher; and what
`get_or_add_addr` returns is a pool of the address asked for, standing at that index
in the view published with that version. -/
theorem published_consistent {inner : FailoverPoolInner} (hnodup : inner.pools.addrs.Nodup)
    (h : Lts.Reach next DupFree (init inner) s) :
    (∀ c ∈ s.configs, c.addrs.Nodup) ∧
      (∀ (k : ℕ) (old new : ClusterConfig), s.stores[k]? = some (old, new) →
        s.configs[k]? = some old ∧ s.configs[k + 1]? = some new ∧ new.ver = old.ver + 1) ∧
      ∀ r ∈ s.returned, r.pool.addr = r.addr ∧
        ∃ c ∈ s.configs, c.ver = r.ver ∧ c.pools[r.idx.toNat]? = some r.pool := by
  have inv : s.Inv := h.invariant (inv_init hnodup) fun _ _ _ inv hdup hnext => inv.step hdup hnext
  refine ⟨inv.nodup, fun k old new hk => ?_, inv.returned⟩
  obtain ⟨hold, hver⟩ := inv.chain k old new hk
  refine ⟨hold, ?_, hver⟩
  rw [configs, List.getElem?_cons_succ, List.getElem?_map, hk]
  rfl

/-- Two parties look for `c` at the same time: both miss it without the lock, and the
second finds what the first has added. -/
def racedForC : List ViewEvent :=
  [.call 0 (.getOrAddAddr "c"), .call 1 (.getOrAddAddr "c"), .step 0, .step 1, .step 1, .step 1,
    .step 1, .step 1, .step 0, .step 0, .step 0, .step 0]

theorem published_consistent_raced :
    ∃ (inner : FailoverPoolInner) (s : Discovery), FailoverPoolInner.new ["a", "b"] true = some inner ∧
      Lts.Reach next DupFree (init inner) s ∧ s.stores.length = 1 ∧ s.returned.length = 2 ∧
      ∀ r ∈ s.returned, r.pool.addr = r.addr ∧
        ∃ c ∈ s.configs, c.ver = r.ver ∧ c.pools[r.idx.toNat]? = some r.pool := by
  have hrun : (FailoverPoolInner.new ["a", "b"] true).any (fun inner =>
      decide inner.pools.addrs.Nodup &&
        (Lts.exec next DupFree (init inner) racedForC).any fun s =>
          decide (s.stores.length = 1 ∧ s.returned.length = 2)) = true := by
    decide +kernel
  obtain ⟨inner, hinner, htest⟩ := (Option.any_eq_true _ _).mp hrun
  rw [Bool.and_eq_true] at htest
  obtain ⟨s, hreach, hlen⟩ := Lts.Reach.exists_of_exec htest.2
  obtain ⟨hstores, hreturned⟩ := of_decide_eq_true hlen
  exact ⟨inner, s, hinner, hreach, hstores, hreturned,
    (published_consistent (of_decide_eq_true htest.1) hreach).2.2⟩

end Discovery

end RazorRpc
