import RazorRpc.Lib.Lts
import Mathlib.Algebra.Group.Nat.Defs
import Mathlib.Data.List.Basic
import Mathlib.Logic.Function.Basic

/-!
# The cluster view of a failover pool (`stream/src/client/failover.rs`)

A `FailoverPool` keeps the addresses it knows in a `ClusterConfig` and routes by
index: `next_node` counts in stateless mode and is the leader's index in stateful
mode. `usize` is `UInt64`, with the arithmetic of a release build.

* `ClusterConfig.select`, `getByAddr` — routing;
* `FailoverPoolInner.getOrAddAddr`, `updateAddrs` — the two ways the view changes;
* `Routing` — redirects, changes of the view and requests, one after the other.

A redirect stores the leader's index, and changes of the view move addresses to
other indices; `send_routed_to_leader` says when the index stays right.
-/

namespace RazorRpc

/-- `a..b` over `usize`. -/
def usizeRange (a b : UInt64) : List UInt64 :=
  (List.range (b.toNat - a.toNat)).map fun k => a + UInt64.ofNat k

/-- A `ConnPool`, by the address it connects to. -/
structure PoolRef where
  addr : String
  /-- ghost: which object this is -/
  id : ℕ
  deriving DecidableEq

/-- A vector cannot be longer. -/
def isizeMax : ℕ := 2 ^ 63 - 1

structure ClusterConfig where
  pools : List PoolRef
  ver : UInt64
  length_le : pools.length ≤ isizeMax

/-- Where to start looking: at `next_node`, or behind the last index. -/
inductive Route : Type where
  | start
  | after (lastIndex : UInt64)

namespace ClusterConfig

def addrs (c : ClusterConfig) : List String := c.pools.map PoolRef.addr

/-- `select`, with the counter afterwards. `healthy` is what `is_healthy()` says
of each pool when it is asked. -/
def select (c : ClusterConfig) (stateless : Bool) (healthy : PoolRef → Bool) (nextNode : UInt64)
    (route : Route) : UInt64 × Option (PoolRef × UInt64) :=
  let l := c.pools.length
  if l = 0 then (nextNode, none)
  else
    let (nextNode, seed) :=
      match route with
      | .after index => (nextNode, index + 1)
      | .start => if stateless then (nextNode + 1, nextNode) else (nextNode, nextNode)
    (nextNode, (usizeRange seed (seed + UInt64.ofNat l)).findSome? fun i =>
      (c.pools[i.toNat % l]?).bind fun pool => if healthy pool then some (pool, i) else none)

/-- `get_by_addr`: the first pool with this address, and its index. -/
def getByAddr (c : ClusterConfig) (addr : String) : Option (PoolRef × UInt64) :=
  (c.pools.zipIdx.find? fun e => e.1.addr = addr).map fun e => (e.1, UInt64.ofNat e.2)

end ClusterConfig

/-- `FailoverPoolInner`, as far as routing goes. -/
structure FailoverPoolInner where
  pools : ClusterConfig
  stateless : Bool
  nextNode : UInt64
  /-- ghost: identity of the next pool created -/
  nextPool : ℕ

/-- The loop of `update_addrs`: reuse the pool of an address, once, or create
one. The hash map is a function. -/
def rebuildPools (oldPools : String → Option PoolRef) (nextPool : ℕ) :
    List String → List PoolRef × ℕ
  | [] => ([], nextPool)
  | addr :: addrs =>
    match oldPools addr with
    | some pool =>
      let r := rebuildPools (Function.update oldPools addr none) nextPool addrs
      (pool :: r.1, r.2)
    | none =>
      let r := rebuildPools oldPools (nextPool + 1) addrs
      (⟨addr, nextPool⟩ :: r.1, r.2)

/-- The old pools by address; a later one replaces an earlier one. -/
def poolsMap (pools : List PoolRef) : String → Option PoolRef :=
  pools.foldl (fun m pool => Function.update m pool.addr (some pool)) fun _ => none

namespace FailoverPoolInner

/-- `get_or_add_addr`: the pool, its index and the version of the view. `none`
where the vector would be too long. -/
def getOrAddAddr (s : FailoverPoolInner) (addr : String) :
    Option (FailoverPoolInner × PoolRef × UInt64 × UInt64) :=
  match s.pools.getByAddr addr with
  | some (pool, idx) => some (s, pool, idx, s.pools.ver)
  | none =>
    let newPool : PoolRef := ⟨addr, s.nextPool⟩
    let newPools := newPool :: s.pools.pools
    let newVer := s.pools.ver + 1
    if h : newPools.length ≤ isizeMax then
      some ({ s with pools := ⟨newPools, newVer, h⟩, nextPool := s.nextPool + 1 }, newPool, 0,
        newVer)
    else none

/-- `update_addrs`. -/
def updateAddrs (s : FailoverPoolInner) (addrs : List String) : Option FailoverPoolInner :=
  let r := rebuildPools (poolsMap s.pools.pools) s.nextPool addrs
  if h : r.1.length ≤ isizeMax then
    some { s with pools := ⟨r.1, s.pools.ver + 1, h⟩, nextPool := r.2 }
  else none

/-- The selection of `send_req`. -/
def select (s : FailoverPoolInner) (healthy : PoolRef → Bool) (route : Route) :
    FailoverPoolInner × Option (PoolRef × UInt64) :=
  let r := s.pools.select s.stateless healthy s.nextNode route
  ({ s with nextNode := r.1 }, r.2)

/-- `FailoverPool::new`. -/
def new (addrs : List String) (stateless : Bool) : Option FailoverPoolInner :=
  let r := rebuildPools (fun _ => none) 0 addrs
  if h : r.1.length ≤ isizeMax then
    some { pools := ⟨r.1, 0, h⟩, stateless, nextNode := 0, nextPool := r.2 }
  else none

end FailoverPoolInner

/-! ## Lemmas of the view -/

/-- The first of a range that does not wrap. -/
theorem usizeRange_cons {a n : UInt64} (hn : n ≠ 0) (h : a.toNat + n.toNat < 2 ^ 64) :
    ∃ rest, usizeRange a (a + n) = a :: rest := by
  have hpos : 0 < n.toNat := Nat.pos_of_ne_zero fun h0 => hn (UInt64.toNat_inj.mp h0)
  have hlen : (a + n).toNat - a.toNat = (n.toNat - 1) + 1 := by
    rw [UInt64.toNat_add, Nat.mod_eq_of_lt h]
    omega
  rw [usizeRange, hlen, List.range_succ_eq_map, List.map_cons]
  refine ⟨_, congrArg (· :: _) ?_⟩
  rw [show UInt64.ofNat 0 = 0 from rfl, UInt64.add_zero]

/-- Every pool in the map has the address it is found under. -/
def ByAddr (m : String → Option PoolRef) : Prop := ∀ a p, m a = some p → p.addr = a

theorem ByAddr.update {m : String → Option PoolRef} (hm : ByAddr m) {addr : String}
    {v : Option PoolRef} (hv : ∀ p, v = some p → p.addr = addr) :
    ByAddr (Function.update m addr v) := by
  intro a p hp
  by_cases ha : a = addr
  · subst ha
    rw [Function.update_self] at hp
    exact hv p hp
  · rw [Function.update_of_ne ha] at hp
    exact hm a p hp

/-- What is left in the map when an address is taken out. -/
theorem eq_some_of_update_none {m : String → Option PoolRef} {addr a : String} {p : PoolRef}
    (h : Function.update m addr none a = some p) : a ≠ addr ∧ m a = some p := by
  by_cases ha : a = addr
  · rw [ha, Function.update_self] at h
    cases h
  · rw [Function.update_of_ne ha] at h
    exact ⟨ha, h⟩

theorem ByAddr.update_none {m : String → Option PoolRef} (hm : ByAddr m) (addr : String) :
    ByAddr (Function.update m addr none) := by
  intro a p h
  exact hm a p (eq_some_of_update_none h).2

theorem byAddr_none : ByAddr fun _ => none := by
  rintro a p ⟨⟩

theorem byAddr_poolsMap (pools : List PoolRef) : ByAddr (poolsMap pools) := by
  -- the map built so far is right, whatever pools are still to come
  have hfold : ∀ (pools : List PoolRef) {m : String → Option PoolRef}, ByAddr m →
      ByAddr (pools.foldl (fun m pool => Function.update m pool.addr (some pool)) m) := by
    intro pools
    induction pools with
    | nil => exact fun hm => hm
    | cons pool pools ih => exact fun hm => ih (hm.update fun p hp => by rw [Option.some.inj hp])
  exact hfold pools byAddr_none

/-- The pools rebuilt have the addresses asked for, in that order. -/
theorem addrs_rebuildPools {m : String → Option PoolRef} (hm : ByAddr m) (n : ℕ)
    (addrs : List String) : (rebuildPools m n addrs).1.map PoolRef.addr = addrs := by
  induction addrs generalizing m n with
  | nil => rfl
  | cons addr addrs ih =>
    rw [rebuildPools]
    rcases hold : m addr with _ | pool
    · exact congrArg (addr :: ·) (ih hm (n + 1))
    · change pool.addr :: _ = _
      rw [hm addr pool hold, ih (hm.update_none addr) n]

/-- The pool found has the address and stands at the index. -/
theorem ClusterConfig.getByAddr_eq_some {c : ClusterConfig} {addr : String} {p : PoolRef}
    {idx : UInt64} (h : c.getByAddr addr = some (p, idx)) :
    p.addr = addr ∧ idx.toNat < c.pools.length ∧ c.pools[idx.toNat]? = some p := by
  obtain ⟨⟨p', k⟩, hfind, heq⟩ := Option.map_eq_some_iff.mp h
  obtain ⟨rfl, rfl⟩ : p' = p ∧ UInt64.ofNat k = idx := Prod.mk.inj heq
  have haddr := List.find?_some hfind
  have hget : c.pools[k]? = some p' :=
    List.mk_mem_zipIdx_iff_getElem?.mp (List.mem_of_find?_eq_some hfind)
  have hk : k < c.pools.length := (List.getElem?_eq_some_iff.mp hget).1
  have hidx : (UInt64.ofNat k).toNat = k :=
    UInt64.toNat_ofNat_of_lt' (Nat.lt_of_lt_of_le hk (Nat.le_trans c.length_le (by decide)))
  rw [hidx]
  exact ⟨of_decide_eq_true haddr, hk, hget⟩

/-- A healthy pool at the index looked at first is chosen. -/
theorem ClusterConfig.select_start {c : ClusterConfig} {healthy : PoolRef → Bool}
    {nextNode : UInt64} {p : PoolRef} (hget : c.pools[nextNode.toNat % c.pools.length]? = some p)
    (hhealthy : healthy p = true) (hnext : nextNode.toNat ≤ isizeMax) :
    c.select false healthy nextNode .start = (nextNode, some (p, nextNode)) := by
  have hpos : c.pools.length ≠ 0 := fun h0 => by
    rw [List.length_eq_zero_iff.mp h0] at hget
    cases hget
  have hle : c.pools.length < 2 ^ 64 := Nat.lt_of_le_of_lt c.length_le (by decide)
  have hl : (UInt64.ofNat c.pools.length).toNat = c.pools.length := UInt64.toNat_ofNat_of_lt' hle
  obtain ⟨rest, hrange⟩ := usizeRange_cons (a := nextNode) (n := UInt64.ofNat c.pools.length)
    (fun h0 => hpos (by rw [← hl, h0]; rfl)) (by
      rw [hl]
      have := c.length_le
      rw [isizeMax] at this hnext
      omega)
  rw [select, if_neg hpos]
  simp only [Bool.false_eq_true, if_false, hrange, List.findSome?_cons, hget, Option.bind_some,
    hhealthy, if_true]

/-! ## Leader affinity -/

/-- A pool in use, one operation after the other. -/
structure Routing where
  inner : FailoverPoolInner
  /-- ghost: the address of the last redirect -/
  leader : Option String

inductive RoutingOp : Type where
  /-- `resubmit(Ok(addr))` -/
  | redirect (addr : String)
  | getOrAddAddr (addr : String)
  | updateAddrs (addrs : List String)
  | sendReq (healthy : PoolRef → Bool)

namespace Routing

def new (addrs : List String) : Option Routing :=
  (FailoverPoolInner.new addrs false).map fun inner => ⟨inner, none⟩

def next (s : Routing) : RoutingOp → Option Routing
  | .redirect addr =>
    (s.inner.getOrAddAddr addr).map fun r => ⟨{ r.1 with nextNode := r.2.2.1 }, some addr⟩
  | .getOrAddAddr addr => (s.inner.getOrAddAddr addr).map fun r => { s with inner := r.1 }
  | .updateAddrs addrs => (s.inner.updateAddrs addrs).map fun inner => { s with inner }
  | .sendReq healthy => some { s with inner := (s.inner.select healthy .start).1 }

/-- Among these addresses, the leader's is where `next_node` points, if it is
there at all. -/
def pointsAt (s : Routing) (addrs : List String) : Bool :=
  s.leader.all fun addr =>
    decide (addr ∈ addrs → addrs[s.inner.nextNode.toNat % addrs.length]? = some addr)

/-- The operations after which the leader is still where `next_node` points. -/
def leaderKept (s : Routing) : RoutingOp → Bool
  | .redirect _ => true
  | .getOrAddAddr addr =>
    decide (addr ∈ s.inner.pools.addrs) || s.pointsAt (addr :: s.inner.pools.addrs)
  | .updateAddrs addrs => s.pointsAt addrs
  | .sendReq _ => true

/-- The leader is where `next_node` points. -/
structure Inv (s : Routing) : Prop where
  stateful : s.inner.stateless = false
  nextNode_le : s.inner.nextNode.toNat ≤ isizeMax
  points : s.pointsAt s.inner.pools.addrs = true

theorem pointsAt_iff {s : Routing} {addrs : List String} :
    s.pointsAt addrs = true ↔ ∀ addr, s.leader = some addr → addr ∈ addrs →
      addrs[s.inner.nextNode.toNat % addrs.length]? = some addr := by
  rw [pointsAt, Option.all_eq_true]
  exact forall₂_congr fun _ _ => decide_eq_true_iff

end Routing

theorem ClusterConfig.getByAddr_eq_none {c : ClusterConfig} {addr : String}
    (h : c.getByAddr addr = none) : addr ∉ c.addrs := by
  intro hmem
  obtain ⟨p, hp, haddr⟩ := List.mem_map.mp hmem
  obtain ⟨k, hk⟩ := List.mem_iff_getElem?.mp hp
  have hnot := List.find?_eq_none.mp (Option.map_eq_none_iff.mp h) (p, k)
    (List.mk_mem_zipIdx_iff_getElem?.mpr hk)
  exact hnot (decide_eq_true haddr)

namespace FailoverPoolInner

variable {s s' : FailoverPoolInner} {addr : String} {p : PoolRef} {idx ver : UInt64}

/-- What `get_or_add_addr` can do. -/
theorem getOrAddAddr_cases (h : s.getOrAddAddr addr = some (s', p, idx, ver)) :
    (s' = s ∧ s.pools.getByAddr addr = some (p, idx)) ∨
      (addr ∉ s.pools.addrs ∧ s'.stateless = s.stateless ∧ s'.nextNode = s.nextNode ∧ idx = 0 ∧
        p.addr = addr ∧ s'.pools.pools = p :: s.pools.pools) := by
  rw [getOrAddAddr] at h
  split at h
  · rename_i hfound
    cases h
    exact Or.inl ⟨rfl, hfound⟩
  · rename_i hnone
    dsimp only at h
    split at h
    · cases h
      exact Or.inr ⟨ClusterConfig.getByAddr_eq_none hnone, rfl, rfl, rfl, rfl, rfl⟩
    · cases h

/-- The pool returned has the address and stands at the index. -/
theorem getOrAddAddr_spec (h : s.getOrAddAddr addr = some (s', p, idx, ver)) :
    p.addr = addr ∧ s'.pools.pools[idx.toNat]? = some p := by
  rcases getOrAddAddr_cases h with ⟨rfl, hfound⟩ | ⟨-, -, -, rfl, haddr, hcons⟩
  · obtain ⟨haddr, -, hget⟩ := ClusterConfig.getByAddr_eq_some hfound
    exact ⟨haddr, hget⟩
  · rw [hcons]
    exact ⟨haddr, rfl⟩

/-- The version returned is that of the view. -/
theorem getOrAddAddr_ver (h : s.getOrAddAddr addr = some (s', p, idx, ver)) :
    s'.pools.ver = ver := by
  rw [getOrAddAddr] at h
  split at h
  · cases h
    rfl
  · dsimp only at h
    split at h <;> cases h
    rfl

/-- An address the view does not have goes to its front. -/
theorem getOrAddAddr_of_none (hnone : s.pools.getByAddr addr = none)
    (h : s.getOrAddAddr addr = some (s', p, idx, ver)) :
    p.addr = addr ∧ s'.pools.pools = p :: s.pools.pools ∧ s'.pools.ver = s.pools.ver + 1 ∧
      idx = 0 ∧ ver = s'.pools.ver := by
  simp only [getOrAddAddr, hnone] at h
  split at h
  · cases h
    exact ⟨rfl, rfl, rfl, rfl, rfl⟩
  · cases h

theorem ver_updateAddrs {addrs : List String} (h : s.updateAddrs addrs = some s') :
    s'.pools.ver = s.pools.ver + 1 := by
  rw [updateAddrs] at h
  split at h
  · cases h
    rfl
  · cases h

theorem updateAddrs_spec {addrs : List String} (h : s.updateAddrs addrs = some s') :
    s'.stateless = s.stateless ∧ s'.nextNode = s.nextNode ∧ s'.pools.addrs = addrs := by
  rw [updateAddrs] at h
  split at h
  · cases h
    exact ⟨rfl, rfl, addrs_rebuildPools (byAddr_poolsMap _) _ _⟩
  · cases h

end FailoverPoolInner

namespace Routing

variable {s s' : Routing}

theorem inv_new {addrs : List String} (h : new addrs = some s) : s.Inv := by
  obtain ⟨inner, hnew, rfl⟩ := Option.map_eq_some_iff.mp h
  rw [FailoverPoolInner.new] at hnew
  split at hnew
  · cases hnew
    exact ⟨rfl, Nat.zero_le _, rfl⟩
  · cases hnew

/-- A redirect points `next_node` at the leader. -/
theorem Inv.redirect (inv : s.Inv) {addr : String} (h : s.next (.redirect addr) = some s') :
    s'.Inv := by
  obtain ⟨⟨inner, p, idx, ver⟩, hadd, rfl⟩ := Option.map_eq_some_iff.mp h
  obtain ⟨haddr, hget⟩ := FailoverPoolInner.getOrAddAddr_spec hadd
  have hlt : idx.toNat < inner.pools.pools.length := (List.getElem?_eq_some_iff.mp hget).1
  have hst : inner.stateless = false := by
    rcases FailoverPoolInner.getOrAddAddr_cases hadd with ⟨rfl, -⟩ | ⟨-, hst, -⟩
    · exact inv.stateful
    · exact hst.trans inv.stateful
  refine ⟨hst, Nat.le_of_lt (Nat.lt_of_lt_of_le hlt inner.pools.length_le),
    pointsAt_iff.mpr fun a ha _ => ?_⟩
  obtain rfl : addr = a := Option.some.inj ha
  change inner.pools.addrs[idx.toNat % _]? = _
  rw [ClusterConfig.addrs, List.length_map, Nat.mod_eq_of_lt hlt, List.getElem?_map, hget]
  exact congrArg some haddr

/-- Operations that keep the leader in its place keep the invariant. -/
theorem Inv.step (inv : s.Inv) {op : RoutingOp} (hkept : s.leaderKept op = true)
    (h : s.next op = some s') : s'.Inv := by
  cases op with
  | redirect addr => exact inv.redirect h
  | getOrAddAddr addr =>
    obtain ⟨⟨inner, p, idx, ver⟩, hadd, rfl⟩ := Option.map_eq_some_iff.mp h
    rcases FailoverPoolInner.getOrAddAddr_cases hadd with
      ⟨rfl, -⟩ | ⟨hnew, hst, hnext, -, rfl, hcons⟩
    · exact inv
    · have haddrs : inner.pools.addrs = p.addr :: s.inner.pools.addrs := by
        rw [ClusterConfig.addrs, hcons]
        rfl
      rw [leaderKept, decide_eq_false hnew, Bool.false_or] at hkept
      refine ⟨hst.trans inv.stateful, hnext.symm ▸ inv.nextNode_le, ?_⟩
      change pointsAt ⟨inner, s.leader⟩ inner.pools.addrs = true
      rw [haddrs, pointsAt, hnext]
      exact hkept
  | updateAddrs addrs =>
    obtain ⟨inner, hupd, rfl⟩ := Option.map_eq_some_iff.mp h
    obtain ⟨hst, hnext, haddrs⟩ := FailoverPoolInner.updateAddrs_spec hupd
    refine ⟨hst.trans inv.stateful, hnext.symm ▸ inv.nextNode_le, ?_⟩
    change pointsAt ⟨inner, s.leader⟩ inner.pools.addrs = true
    rw [haddrs, pointsAt, hnext]
    exact hkept
  | sendReq healthy =>
    cases h
    -- in stateful mode a request leaves `next_node` alone
    have hsame : (s.inner.select healthy .start).1 = s.inner := by
      have hsel : (s.inner.pools.select s.inner.stateless healthy s.inner.nextNode .start).1 =
          s.inner.nextNode := by
        rw [ClusterConfig.select, inv.stateful]
        split <;> rfl
      rw [FailoverPoolInner.select, hsel]
    rw [hsame]
    exact inv

/-- **Leader affinity.** In every sequence of operations in which each change of
the addresses leaves the leader where `next_node` points (or leaves it out), a
request is routed to the address of the last redirect, if the view has it and it
is healthy. -/
theorem send_routed_to_leader {addrs : List String} {s₀ : Routing} (hnew : new addrs = some s₀)
    (h : Lts.Reach next (fun s op => s.leaderKept op = true) s₀ s) {addr : String}
    (hleader : s.leader = some addr) (hmem : addr ∈ s.inner.pools.addrs)
    {healthy : PoolRef → Bool}
    (hhealthy : ∀ p ∈ s.inner.pools.pools, p.addr = addr → healthy p = true) :
    ∃ p i, (s.inner.select healthy .start).2 = some (p, i) ∧ p.addr = addr := by
  have inv : s.Inv := h.invariant (inv_new hnew) fun _ _ _ inv hkept hnext => inv.step hkept hnext
  have hpoints := pointsAt_iff.mp inv.points addr hleader hmem
  rw [ClusterConfig.addrs, List.length_map, List.getElem?_map] at hpoints
  obtain ⟨p, hget, haddr⟩ := Option.map_eq_some_iff.mp hpoints
  have hsel := ClusterConfig.select_start hget
    (hhealthy p (List.mem_of_getElem? hget) haddr) inv.nextNode_le
  refine ⟨p, s.inner.nextNode, ?_, haddr⟩
  rw [FailoverPoolInner.select, inv.stateful, hsel]

/-- Node `b` is the leader and keeps its place. -/
theorem send_routed_to_b :
    ∃ s₀ s : Routing, new ["a", "b"] = some s₀ ∧
      Lts.Reach next (fun s op => s.leaderKept op = true) s₀ s ∧
      ∃ p i, (s.inner.select (fun _ => true) .start).2 = some (p, i) ∧ p.addr = "b" := by
  have hrun : (new ["a", "b"]).any (fun s₀ =>
      (Lts.exec next (fun s op => s.leaderKept op = true) s₀
        [.redirect "b", .updateAddrs ["c", "b"]]).any fun s =>
          decide (s.leader = some "b" ∧ "b" ∈ s.inner.pools.addrs)) = true := by
    decide +kernel
  obtain ⟨s₀, hnew, hexec⟩ := (Option.any_eq_true _ _).mp hrun
  obtain ⟨s, hreach, htest⟩ := Lts.Reach.exists_of_exec hexec
  obtain ⟨hleader, hmem⟩ := of_decide_eq_true htest
  exact ⟨s₀, s, hnew, hreach,
    send_routed_to_leader hnew hreach hleader hmem fun _ _ _ => rfl⟩

/-- The addresses change places after the redirect to `a`: the next request goes
to `b`. -/
theorem send_misses_leader :
    ∃ s₀ s : Routing, new ["a", "b"] = some s₀ ∧ Lts.Reach next (fun _ _ => True) s₀ s ∧
      s.leader = some "a" ∧ "a" ∈ s.inner.pools.addrs ∧
      ∃ p i, (s.inner.select (fun _ => true) .start).2 = some (p, i) ∧ p.addr = "b" := by
  have hrun : (new ["a", "b"]).any (fun s₀ =>
      (Lts.exec next (fun _ _ => True) s₀ [.redirect "a", .updateAddrs ["b", "a"]]).any fun s =>
        decide (s.leader = some "a" ∧ "a" ∈ s.inner.pools.addrs ∧
          (s.inner.select (fun _ => true) .start).2.map (·.1.addr) = some "b")) = true := by
    decide +kernel
  obtain ⟨s₀, hnew, hexec⟩ := (Option.any_eq_true _ _).mp hrun
  obtain ⟨s, hreach, htest⟩ := Lts.Reach.exists_of_exec hexec
  obtain ⟨hleader, hmem, hsel⟩ := of_decide_eq_true htest
  obtain ⟨⟨p, i⟩, hsel, haddr⟩ := Option.map_eq_some_iff.mp hsel
  exact ⟨s₀, s, hnew, hreach, hleader, hmem, p, i, hsel, haddr⟩

end Routing

end RazorRpc
