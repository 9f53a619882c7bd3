import RazorRpc.FailoverCall
import RazorRpc.Lib.Cyclic

/-!
# Failing over to the next node

A node may answer a call with an error that asks for the next node. The call then
resubmits its request behind the index that the request was last sent to. The index
counts in the view it was chosen from, but is used in the view that is loaded now.

* `ClusterConfig.Passes` — going round from behind an index, another node comes
  before the one to leave;
* `Came` — where the index on a request comes from, kept by every step;
* `next_node_left_iff` — the node that asked is left exactly if the walk passes by.
-/

namespace RazorRpc

/-! ## The walk of `select` -/

/-- The first of a range of numbers that has a value. -/
theorem findSome?_range_eq_some {α : Type} {f : ℕ → Option α} {n : ℕ} {a : α} :
    (List.range n).findSome? f = some a ↔
      ∃ k, k < n ∧ f k = some a ∧ ∀ k', k' < k → f k' = none := by
  induction n with
  | zero =>
    constructor
    · intro h
      cases h
    · rintro ⟨k, hk, -⟩
      exact absurd hk (Nat.not_lt_zero k)
  | succ n ih =>
    rw [List.range_succ, List.findSome?_append, Option.or_eq_some_iff, ih]
    constructor
    · rintro (⟨k, hk, hsome, hnone⟩ | ⟨hnone, hlast⟩)
      · exact ⟨k, Nat.lt_succ_of_lt hk, hsome, hnone⟩
      · refine ⟨n, Nat.lt_succ_self n, by simpa using hlast, fun k' hk' => ?_⟩
        exact List.findSome?_eq_none_iff.mp hnone k' (List.mem_range.mpr hk')
    · rintro ⟨k, hk, hsome, hnone⟩
      rcases Nat.lt_succ_iff_lt_or_eq.mp hk with hk | rfl
      · exact Or.inl ⟨k, hk, hsome, hnone⟩
      · refine Or.inr ⟨List.findSome?_eq_none_iff.mpr fun k' hk' => ?_, by simpa using hsome⟩
        exact hnone k' (List.mem_range.mp hk')

theorem toNat_add_one {i : UInt64} {n : ℕ} (h : i.toNat + 1 + n < 2 ^ 64) :
    (i + 1).toNat = i.toNat + 1 := by
  rw [UInt64.toNat_add, UInt64.toNat_one]
  exact Nat.mod_eq_of_lt (by omega)

/-- A range that would wrap is empty. -/
theorem usizeRange_wrap {a n : UInt64} (h : 2 ^ 64 ≤ a.toNat + n.toNat) :
    usizeRange a (a + n) = [] := by
  have hlen : (a + n).toNat - a.toNat = 0 := by
    have := a.toNat_lt
    have := n.toNat_lt
    rw [UInt64.toNat_add]
    omega
  rw [usizeRange, hlen]
  rfl

namespace ClusterConfig

variable {c : ClusterConfig} {healthy : PoolRef → Bool}

theorem toNat_ofNat_length (c : ClusterConfig) :
    (UInt64.ofNat c.pools.length).toNat = c.pools.length :=
  UInt64.toNat_ofNat_of_lt' (Nat.lt_of_le_of_lt c.length_le (by decide))

/-- The healthy pool the walk meets after `k` steps. -/
def healthyAt (c : ClusterConfig) (healthy : PoolRef → Bool) (seed k : ℕ) : Option PoolRef :=
  (c.pools[(seed + k) % c.pools.length]?).filter healthy

/-- What is chosen is healthy and stands at its index. -/
theorem select_eq_some {stateless : Bool} {nextNode : UInt64} {route : Route} {p : PoolRef}
    {i : UInt64} (h : (c.select stateless healthy nextNode route).2 = some (p, i)) :
    healthy p = true ∧ c.pools[i.toNat % c.pools.length]? = some p := by
  simp only [select] at h
  split at h
  · cases h
  · obtain ⟨i', -, hfound⟩ := List.exists_of_findSome?_eq_some h
    obtain ⟨p', hget, hfound⟩ := Option.bind_eq_some_iff.mp hfound
    split at hfound
    · rename_i hhealthy
      obtain ⟨rfl, rfl⟩ := Prod.mk.inj (Option.some.inj hfound)
      exact ⟨hhealthy, hget⟩
    · cases hfound

/-- The selection behind an index goes once round, if the range of indices does not
wrap. -/
theorem select_after {stateless : Bool} {nextNode lastIndex : UInt64} (hl : c.pools.length ≠ 0)
    (hwrap : (lastIndex + 1).toNat + c.pools.length < 2 ^ 64) :
    (c.select stateless healthy nextNode (.after lastIndex)).2 =
      (List.range c.pools.length).findSome? fun k =>
        (c.healthyAt healthy (lastIndex + 1).toNat k).map
          (·, lastIndex + 1 + UInt64.ofNat k) := by
  have hlen : (lastIndex + 1 + UInt64.ofNat c.pools.length).toNat - (lastIndex + 1).toNat =
      c.pools.length := by
    rw [UInt64.toNat_add _ (UInt64.ofNat _), toNat_ofNat_length, Nat.mod_eq_of_lt hwrap,
      Nat.add_sub_cancel_left]
  simp only [select, if_neg hl, usizeRange, hlen, List.findSome?_map]
  rw [← List.head?_filterMap, ← List.head?_filterMap]
  refine congrArg List.head? (List.filterMap_congr fun k hk => ?_)
  have hk' : (lastIndex + 1 + UInt64.ofNat k).toNat = (lastIndex + 1).toNat + k := by
    have hk := List.mem_range.mp hk
    have hlt : k < 2 ^ 64 := by omega
    rw [UInt64.toNat_add _ (UInt64.ofNat _), UInt64.toNat_ofNat_of_lt' hlt,
      Nat.mod_eq_of_lt (by omega)]
  rw [Function.comp_apply, hk', healthyAt]
  rcases c.pools[((lastIndex + 1).toNat + k) % c.pools.length]? with _ | p
  · rfl
  · rw [Option.bind_some, Option.filter_some]
    split <;> rfl

/-- The first healthy pool of the round is chosen; none if the range would wrap. -/
theorem select_after_iff (stateless : Bool) (nextNode : UInt64) {lastIndex : UInt64}
    {p : PoolRef} :
    (∃ i, (c.select stateless healthy nextNode (.after lastIndex)).2 = some (p, i)) ↔
      (lastIndex + 1).toNat + c.pools.length < 2 ^ 64 ∧
        ∃ k, k < c.pools.length ∧ c.healthyAt healthy (lastIndex + 1).toNat k = some p ∧
          ∀ k', k' < k → c.healthyAt healthy (lastIndex + 1).toNat k' = none := by
  by_cases hl : c.pools.length = 0
  · simp [select, hl]
  · by_cases hwrap : (lastIndex + 1).toNat + c.pools.length < 2 ^ 64
    · simp only [select_after hl hwrap, findSome?_range_eq_some, Option.map_eq_none_iff,
        Option.map_eq_some_iff]
      constructor
      · rintro ⟨i, k, hk, ⟨p', hsome, heq⟩, hnone⟩
        obtain ⟨rfl, -⟩ := Prod.mk.inj heq
        exact ⟨hwrap, k, hk, hsome, hnone⟩
      · rintro ⟨-, k, hk, hsome, hnone⟩
        exact ⟨_, k, hk, ⟨p, hsome, rfl⟩, hnone⟩
    · have hempty : usizeRange (lastIndex + 1) (lastIndex + 1 + UInt64.ofNat c.pools.length) = [] :=
        usizeRange_wrap (by
          rw [toNat_ofNat_length]
          omega)
      simp only [select, if_neg hl, hempty, hwrap, false_and, iff_false]
      rintro ⟨i, h⟩
      cases h

/-- Going round from behind `lastIndex`, a healthy pool with another address comes
before every healthy pool with this one; and the range of indices does not wrap. -/
def Passes (c : ClusterConfig) (healthy : PoolRef → Bool) (lastIndex : UInt64) (addr : String) :
    Prop :=
  (lastIndex + 1).toNat + c.pools.length < 2 ^ 64 ∧
    ∃ k, k < c.pools.length ∧
      (∃ q, c.healthyAt healthy (lastIndex + 1).toNat k = some q ∧ q.addr ≠ addr) ∧
      ∀ k', k' < k → ∀ q, c.healthyAt healthy (lastIndex + 1).toNat k' = some q → q.addr ≠ addr

/-- The selection leaves the address behind exactly if the walk passes by. -/
theorem select_after_ne_iff (stateless : Bool) (nextNode : UInt64) {lastIndex : UInt64}
    {addr : String} :
    (∃ p i, (c.select stateless healthy nextNode (.after lastIndex)).2 = some (p, i) ∧
        p.addr ≠ addr) ↔ c.Passes healthy lastIndex addr := by
  constructor
  · rintro ⟨p, i, hsel, hne⟩
    obtain ⟨hwrap, k, hk, hsome, hnone⟩ := (select_after_iff _ _).mp ⟨i, hsel⟩
    refine ⟨hwrap, k, hk, ⟨p, hsome, hne⟩, fun k' hk' q hq => ?_⟩
    rw [hnone k' hk'] at hq
    cases hq
  · rintro ⟨hwrap, k, hk, ⟨q, hq, hne⟩, hbefore⟩
    -- the first healthy pool is this one or one before it
    have hex : ∃ k, (c.healthyAt healthy (lastIndex + 1).toNat k).isSome := ⟨k, by rw [hq]; rfl⟩
    have hle : Nat.find hex ≤ k := Nat.find_min' hex (by rw [hq]; rfl)
    obtain ⟨p, hp⟩ := Option.isSome_iff_exists.mp (Nat.find_spec hex)
    obtain ⟨i, hsel⟩ := (select_after_iff stateless nextNode).mpr
      ⟨hwrap, Nat.find hex, Nat.lt_of_le_of_lt hle hk, hp, fun k' hk' => by
        simpa using Nat.find_min hex hk'⟩
    refine ⟨p, i, hsel, ?_⟩
    rcases Nat.lt_or_eq_of_le hle with hlt | heq
    · exact hbefore _ hlt p hp
    · rw [heq, hq] at hp
      rw [← Option.some.inj hp]
      exact hne

/-- As long as the index still points at the node to leave, the walk passes by every
other one first. -/
theorem passes_of_getElem? {lastIndex : UInt64} {p q : PoolRef}
    (hget : c.pools[lastIndex.toNat % c.pools.length]? = some p) (hdistinct : c.addrs.Nodup)
    (hwrap : lastIndex.toNat + 1 + c.pools.length < 2 ^ 64) (hq : q ∈ c.pools)
    (hhealthy : healthy q = true) (hne : q.addr ≠ p.addr) : c.Passes healthy lastIndex p.addr := by
  have hseed := toNat_add_one hwrap
  obtain ⟨j, hj, hgetq⟩ := List.mem_iff_getElem.mp hq
  obtain ⟨k, hk, hkj⟩ := Cyclic.exists_add_mod_eq (lastIndex.toNat + 1) hj
  refine ⟨hseed ▸ hwrap, k, hk, ⟨q, ?_, hne⟩, fun k' hk' q' hq' haddr => ?_⟩
  · rw [healthyAt, hseed, hkj, List.getElem?_eq_getElem hj, hgetq]
    simp [hhealthy]
  · -- the address stands at one place only, and the walk has not come round to it
    rw [healthyAt, hseed] at hq'
    obtain ⟨hgetq', -⟩ := Option.filter_eq_some_iff.mp hq'
    obtain ⟨hi, hgeti⟩ := List.getElem?_eq_some_iff.mp hget
    obtain ⟨hi', hgeti'⟩ := List.getElem?_eq_some_iff.mp hgetq'
    have hlen : ∀ {j : ℕ}, j < c.pools.length → j < c.addrs.length := fun h => by
      simpa [addrs] using h
    have hsame := (@List.Nodup.getElem_inj_iff _ _ hdistinct _ (hlen hi') _ (hlen hi)).mp
      (by simp [addrs, hgeti, hgeti', haddr])
    rw [Nat.add_assoc, Nat.add_comm 1 k'] at hsame
    exact Cyclic.add_mod_ne lastIndex.toNat (Nat.succ_pos k') (by omega) hsame

end ClusterConfig

/-! ## Where an index comes from -/

theorem APIClientReq.not_isUserErr_setRpcError (t : Task APIClientReq) (e : RpcIntErr) :
    ¬ (t.setRpcError e).body.IsUserErr := by
  rintro (⟨n, h⟩ | ⟨b, h⟩) <;> cases h

/-- Work on a task leaves its route alone. -/
theorem route_foldl_apply {B : Type} [ClientTask B] (work : List Access)
    (t : Task (FailoverTask B)) :
    (work.foldl Access.apply t).body.lastIndex = t.body.lastIndex ∧
      (work.foldl Access.apply t).body.configVer = t.body.configVer := by
  induction work generalizing t with
  | nil => exact ⟨rfl, rfl⟩
  | cons x work ih =>
    obtain ⟨hindex, hver⟩ := ih (Access.apply t x)
    rw [List.foldl_cons]
    cases x <;> exact ⟨hindex, hver⟩

namespace FailoverPool

/-- The pool a task was given to last. -/
def lastPool {B : Type} (s : FailoverPool B) (id : ℕ) : Option PoolRef :=
  (s.handed.findRev? (·.1 = id)).map Prod.snd

/-- The route is that of the pool the task was given to last: the view of this version
has it at this index. -/
def Came {B : Type} (s : FailoverPool B) (id : ℕ) (lastIndex configVer : UInt64) : Prop :=
  ∃ p c, s.lastPool id = some p ∧ c ∈ s.published ∧ c.ver = configVer ∧
    c.pools[lastIndex.toNat % c.pools.length]? = some p

/-- Every route on a task under way, or in the answer of a call that fails over, is that
of its last pool. -/
structure Routed (s : FailoverPool APIClientReq) : Prop where
  inPools : ∀ t ∈ s.inPools, s.Came t.id t.body.lastIndex t.body.configVer
  queued : ∀ t ∈ s.retryRx, ¬ t.body.inner.IsUserErr
  completed : ∀ d ∈ s.completed, d.body.IsUserErr →
    s.Came d.id (UInt64.ofNat d.body.lastIndex) d.body.configVer

section

variable {B : Type} {s s' : FailoverPool B} {id : ℕ} {lastIndex configVer : UInt64}

theorem Came.mono (h : s.Came id lastIndex configVer) (hlast : s'.lastPool id = s.lastPool id)
    (hpublished : s.published ⊆ s'.published) : s'.Came id lastIndex configVer := by
  obtain ⟨p, c, hp, hc, hver, hget⟩ := h
  exact ⟨p, c, hlast.trans hp, hpublished hc, hver, hget⟩

/-- The last pool of the task given away. -/
theorem lastPool_hand (pool : PoolRef) (t : Task (FailoverTask B)) :
    (s.hand pool t).lastPool t.id = some pool := by
  simp [lastPool, hand]

/-- The other tasks keep theirs. -/
theorem lastPool_hand_of_ne (pool : PoolRef) {t : Task (FailoverTask B)} (hne : id ≠ t.id) :
    (s.hand pool t).lastPool id = s.lastPool id := by
  simp [lastPool, hand, hne.symm]

end

namespace Routed

variable {s s' : FailoverPool APIClientReq}

theorem new (inner : FailoverPoolInner) (L : ℕ) : Routed (new inner L) := ⟨nofun, nofun, nofun⟩

/-- Fewer tasks, more views. -/
theorem mono (h : s.Routed) (hpools : s'.inPools ⊆ s.inPools) (hretry : s'.retryRx ⊆ s.retryRx)
    (hcompleted : s'.completed = s.completed) (hhanded : s'.handed = s.handed)
    (hpublished : s.published ⊆ s'.published) : s'.Routed := by
  have hlast : ∀ id, s'.lastPool id = s.lastPool id := fun id => by rw [lastPool, lastPool, hhanded]
  refine ⟨fun t ht => ?_, fun t ht => h.queued t (hretry ht), fun d hd herr => ?_⟩
  · exact (h.inPools t (hpools ht)).mono (hlast t.id) hpublished
  · rw [hcompleted] at hd
    exact (h.completed d hd herr).mono (hlast d.id) hpublished

/-- A task is given to the pool its route leads to. -/
theorem hand (h : s.Routed) {pool : PoolRef} {t : Task (FailoverTask APIClientReq)}
    {c : ClusterConfig} (hfresh : ∀ i ∈ s.places, i ≠ t.id) (hc : c ∈ s.published)
    (hver : c.ver = t.body.configVer)
    (hget : c.pools[t.body.lastIndex.toNat % c.pools.length]? = some pool) :
    (s.hand pool t).Routed := by
  refine ⟨fun t' ht' => ?_, h.queued, fun d hd herr => ?_⟩
  · rcases List.mem_append.mp ht' with ht' | ht'
    · have hne := hfresh t'.id (List.mem_append_left _ (List.mem_map_of_mem ht'))
      exact (h.inPools t' ht').mono (lastPool_hand_of_ne pool hne) (List.Subset.refl _)
    · rw [List.mem_singleton.mp ht']
      exact ⟨pool, c, lastPool_hand pool t, hc, hver, hget⟩
  · have hne := hfresh d.id
      (List.mem_append_right _ (List.mem_append_right _ (List.mem_map_of_mem hd)))
    exact (h.completed d hd herr).mono (lastPool_hand_of_ne pool hne) (List.Subset.refl _)

/-- A task is completed; if with a user's error, then with its route. -/
theorem complete (h : s.Routed) {d : Task APIClientReq}
    (hd : d.body.IsUserErr → s.Came d.id (UInt64.ofNat d.body.lastIndex) d.body.configVer) :
    (s.complete d).Routed := by
  refine ⟨h.inPools, h.queued, fun d' hd' herr => ?_⟩
  rcases List.mem_append.mp hd' with hd' | hd'
  · exact h.completed d' hd' herr
  · obtain rfl := List.mem_singleton.mp hd'
    exact hd herr

/-- A new task goes to the pool selected, or fails. -/
theorem start (h : s.Routed) {task : Task APIClientReq} {c : ClusterConfig}
    {found : Option (PoolRef × UInt64)} (hfresh : ∀ i ∈ s.places, i ≠ task.id)
    (hc : c ∈ s.published)
    (hfound : ∀ pool index, found = some (pool, index) →
      c.pools[index.toNat % c.pools.length]? = some pool) :
    (s.start task c.ver found).Routed := by
  rcases found with _ | ⟨pool, index⟩
  · exact h.complete fun herr => absurd herr (APIClientReq.not_isUserErr_setRpcError _ _)
  · exact h.hand (t := task.wrap index c.ver 0 0) hfresh hc rfl (hfound pool index rfl)

/-- The retry worker hands a task on, or gives up. -/
theorem restart (h : s.Routed) {t : Task (FailoverTask APIClientReq)} {c : ClusterConfig}
    {found : Option (PoolRef × UInt64)} (hfresh : ∀ i ∈ s.places, i ≠ t.id)
    (hrpc : ¬ t.body.inner.IsUserErr) (hc : c ∈ s.published) (hver : c.ver = t.body.configVer)
    (hfound : ∀ pool index, found = some (pool, index) →
      c.pools[index.toNat % c.pools.length]? = some pool) :
    (s.restart t found).Routed := by
  rcases found with _ | ⟨pool, index⟩
  · exact h.complete fun herr => absurd herr hrpc
  · exact h.hand (t := { t with body := { t.body with lastIndex := index } }) hfresh hc hver
      (hfound pool index rfl)

/-- An attempt ends in an error: a custom one has the route put on it, and any other one
is not the user's. -/
theorem errorHandle (h : s.Routed) {t : Task (FailoverTask APIClientReq)} {outcome : Outcome}
    (ht : s.Came t.id t.body.lastIndex t.body.configVer) (hne : outcome ≠ .ok) :
    (s.errorHandle (outcome.set t)).Routed := by
  cases outcome with
  | ok => exact absurd rfl hne
  | rpc e =>
    have hrpc : ¬ ((Outcome.rpc e).set t).body.inner.IsUserErr :=
      APIClientReq.not_isUserErr_setRpcError t.user e
    rw [FailoverPool.errorHandle]
    split
    · split
      · refine ⟨h.inPools, fun t' ht' => ?_, h.completed⟩
        rcases List.mem_append.mp ht' with ht' | ht'
        · exact h.queued t' ht'
        · rw [List.mem_singleton.mp ht']
          exact hrpc
      · exact h.complete fun herr => absurd herr hrpc
    · exact h.complete fun herr => absurd herr hrpc
  | custom e =>
    -- a custom error is not retried
    have hgive : s.errorHandle ((Outcome.custom e).set t) =
        s.complete ((Outcome.custom e).set t).user := rfl
    rw [hgive]
    refine h.complete fun _ => ?_
    have hindex : UInt64.ofNat t.body.lastIndex.toNat = t.body.lastIndex := UInt64.ofNat_toNat
    change s.Came t.id (UInt64.ofNat t.body.lastIndex.toNat) t.body.configVer
    rw [hindex]
    exact ht

/-- Every step keeps the routes. -/
theorem step {L : ℕ} (inv : s.Inv L none) (h : s.Routed) {e : FailoverEvent APIClientReq}
    (hnext : s.next e = some s') : s'.Routed := by
  have hfresh : ∀ i ∈ s.places, i ≠ s.submitted.length := fun i hi =>
    Nat.ne_of_lt ((inv.mem_places i).mp hi)
  cases next_cases hnext with
  | @sendReq view healthy cluster nextNode found task hview hsel =>
    refine start (s := submit { s with inner := { s.inner with nextNode } } _)
      ⟨h.inPools, h.queued, h.completed⟩ hfresh (List.mem_of_getElem? hview) fun pool index hfound => ?_
    exact (ClusterConfig.select_eq_some ((congrArg Prod.snd hsel).trans hfound)).2
  | @resubmit lastIndex view healthy cluster found task hview hsel =>
    refine start (s := s.submit _) ⟨h.inPools, h.queued, h.completed⟩ hfresh
      (List.mem_of_getElem? hview) fun pool index hfound => ?_
    exact (ClusterConfig.select_eq_some (hsel.trans hfound)).2
  | @redirect addr inner pool index ver task retryCount maxRetries hadd =>
    obtain ⟨-, hget⟩ := FailoverPoolInner.getOrAddAddr_spec hadd
    have hlt := (List.getElem?_eq_some_iff.mp hget).1
    have hrouted : (s.publish { inner with nextNode := index }).Routed :=
      h.mono (List.Subset.refl _) (List.Subset.refl _) rfl rfl (List.subset_append_left _ _)
    refine hand (s := (s.publish { inner with nextNode := index }).submit _) (c := inner.pools)
      ⟨hrouted.inPools, hrouted.queued, hrouted.completed⟩ hfresh
      (List.mem_append_right _ List.mem_cons_self) (FailoverPoolInner.getOrAddAddr_ver hadd) ?_
    change inner.pools.pools[index.toNat % inner.pools.pools.length]? = some pool
    rw [Nat.mod_eq_of_lt hlt]
    exact hget
  | @done i t work hget =>
    refine complete ?_ fun herr => ?_
    · exact h.mono (List.eraseIdx_subset) (List.Subset.refl _) rfl rfl (List.Subset.refl _)
    · rcases herr with ⟨n, herr⟩ | ⟨b, herr⟩ <;> cases herr
  | @failed i t work outcome hne hget =>
    obtain ⟨hindex, hver⟩ := route_foldl_apply work t
    have hid := (retryState_foldl_apply work t).1
    have hrouted : (s.endAttempt i (attemptOf t work outcome)).Routed :=
      h.mono (List.eraseIdx_subset) (List.Subset.refl _) rfl rfl (List.Subset.refl _)
    refine hrouted.errorHandle ?_ hne
    rw [hindex, hver, hid]
    exact (h.inPools t (List.mem_of_getElem? hget)).mono rfl (List.Subset.refl _)
  | @giveUp t rest view healthy hrx =>
    refine complete (s := { s with retryRx := rest }) ?_ fun herr => ?_
    · exact h.mono (List.Subset.refl _) (hrx ▸ List.subset_cons_self _ _) rfl rfl (List.Subset.refl _)
    · exact absurd herr (h.queued t (hrx ▸ List.mem_cons_self))
  | @retry view healthy t t' rest cluster route nextNode found hrx hview htask hsel =>
    subst htask
    have hheld := inv.takeRetry hrx
    refine restart (s := { s with retryRx := rest, inner := { s.inner with nextNode } }) ?_
      (fun i hi => hheld.ne_of_mem hi) (h.queued t (hrx ▸ List.mem_cons_self))
      (List.mem_of_getElem? hview) rfl fun pool index hfound => ?_
    · exact h.mono (List.Subset.refl _) (hrx ▸ List.subset_cons_self _ _) rfl rfl (List.Subset.refl _)
    · exact (ClusterConfig.select_eq_some ((congrArg Prod.snd hsel).trans hfound)).2
  | addAddr hadd =>
    exact h.mono (List.Subset.refl _) (List.Subset.refl _) rfl rfl (List.subset_append_left _ _)
  | updateAddrs hupd =>
    exact h.mono (List.Subset.refl _) (List.Subset.refl _) rfl rfl (List.subset_append_left _ _)
  | drop | workerExit => exact ⟨h.inPools, h.queued, h.completed⟩

end Routed

/-- A task that was not submitted has no pool. -/
theorem Inv.lastPool_fresh {B : Type} [ClientTask B] {L : ℕ} {s : FailoverPool B}
    (inv : s.Inv L none) : s.lastPool s.submitted.length = none := by
  have hcount : (s.handed.map Prod.fst).count s.submitted.length = 0 :=
    congrArg Record.handed (inv.fresh _ (Nat.le_refl _))
  rw [lastPool, Option.map_eq_none_iff, List.findRev?_eq_find?_reverse, List.find?_eq_none]
  intro x hx hid
  refine List.count_eq_zero.mp hcount (List.mem_map.mpr ⟨x, List.mem_reverse.mp hx, ?_⟩)
  exact of_decide_eq_true hid

/-- The pool that a resubmission behind an index is given to. -/
theorem lastPool_resubmit {B : Type} [ClientTask B] {L : ℕ} {s s' : FailoverPool B}
    (inv : s.Inv L none) {task : Task B} {lastIndex : UInt64} {view : ℕ}
    {healthy : PoolRef → Bool} {cluster : ClusterConfig} (hview : s.published[view]? = some cluster)
    (h : s.next (.resubmit task lastIndex view healthy) = some s') :
    s'.lastPool s.submitted.length =
      (cluster.select s.inner.stateless healthy s.inner.nextNode (.after lastIndex)).2.map
        Prod.fst := by
  cases next_cases h with
  | resubmit task hview' hsel =>
    obtain rfl := Option.some.inj (hview.symm.trans hview')
    rw [hsel]
    rename_i found
    rcases found with _ | ⟨pool, index⟩
    · exact inv.lastPool_fresh
    · exact lastPool_hand pool _

end FailoverPool

/-! ## Leaving the node that asked -/

namespace ApiFailover

variable {s s' : ApiFailover}

/-- A step of a call is a step of the pool, or leaves it alone. -/
theorem next_pool {e : ApiEvent} (h : s.next e = some s') :
    s'.pool = s.pool ∨ ∃ e', s.pool.next e' = some s'.pool := by
  cases e with
  | pool e =>
    obtain ⟨pool, hnext, rfl⟩ := Option.map_eq_some_iff.mp h
    exact Or.inr ⟨e, hnext⟩
  | call reading action reqMsg view healthy =>
    obtain ⟨pool, hnext, rfl⟩ := Option.map_eq_some_iff.mp h
    exact Or.inr ⟨_, hnext⟩
  | answer j view healthy =>
    obtain ⟨c, -, h⟩ := Option.bind_eq_some_iff.mp h
    split at h
    · cases h
    · obtain ⟨d, -, h⟩ := Option.bind_eq_some_iff.mp h
      simp only [onAnswer] at h
      split at h
      · cases h
        exact Or.inl rfl
      · split at h
        · obtain ⟨pool, hnext, rfl⟩ := Option.map_eq_some_iff.mp h
          exact Or.inr ⟨_, hnext⟩
        · cases h
          exact Or.inl rfl
      · split at h
        · obtain ⟨pool, hnext, rfl⟩ := Option.map_eq_some_iff.mp h
          exact Or.inr ⟨_, hnext⟩
        · cases h
          exact Or.inl rfl

/-- The routes are right in every run. -/
theorem routed_of_reach {inner : FailoverPoolInner} {L : ℕ}
    (h : Lts.Reach next (fun _ _ => True) (init inner L) s) : s.pool.Inv L none ∧ s.pool.Routed := by
  refine h.invariant (I := fun s => s.pool.Inv L none ∧ s.pool.Routed)
    ⟨FailoverPool.Inv.new inner L, FailoverPool.Routed.new inner L⟩ ?_
  rintro s e s' ⟨inv, hrouted⟩ - hnext
  rcases next_pool hnext with hsame | ⟨e', hnext⟩
  · rw [hsame]
    exact ⟨inv, hrouted⟩
  · exact ⟨inv.step hnext, hrouted.step inv hnext⟩

/-- The answer of the `j`-th call, if it makes the call fail over to the next node. -/
def asksNext (s : ApiFailover) (j : ℕ) : Option (Task APIClientReq) := do
  let c ← s.calls[j]?
  let d ← s.answerOf c
  if c.waiting = true ∧ c.reading.verdict d.body = .nextNode ∧
      c.retryCount + 1 < s.pool.retryLimit then
    some d
  else none

/-- The call resubmits its request behind the index in the answer, which is an error of
the user. -/
theorem next_of_asksNext {j : ℕ} {d : Task APIClientReq} (hask : s.asksNext j = some d) :
    d ∈ s.pool.completed ∧ d.body.IsUserErr ∧ ∃ c, ∀ view healthy,
      s.next (.answer j view healthy) =
        (s.pool.next (.resubmit { d with body := { d.body with res := none } }
          (UInt64.ofNat d.body.lastIndex) view healthy)).map (s.resubmitted j c .nextNode) := by
  obtain ⟨c, hc, hask⟩ := Option.bind_eq_some_iff.mp hask
  obtain ⟨d', hd, hask⟩ := Option.bind_eq_some_iff.mp hask
  split at hask
  · rename_i hcond
    obtain ⟨hwaiting, hverdict, hlimit⟩ := hcond
    obtain rfl := Option.some.inj hask
    obtain ⟨sub, -, hfind⟩ := Option.bind_eq_some_iff.mp hd
    refine ⟨List.mem_of_find?_eq_some hfind, c.reading.isUserErr _ (by rw [hverdict]; nofun), c,
      fun view healthy => ?_⟩
    simp [next, hc, hd, hwaiting, onAnswer, hverdict, hlimit]
  · cases hask

/-- **Leaving the node that asked.** In every run, when a node answers a call with an
error that asks for the next node, the index in the answer is where the view of that
version has the node. Whatever has become of the view since, the request is given to a
pool with another address exactly if the walk behind the index passes such a pool,
healthy, before it meets a healthy one with the old address; and it does so as long as
the index still points at the node. -/
theorem next_node_left_iff {inner : FailoverPoolInner} {L : ℕ}
    (h : Lts.Reach next (fun _ _ => True) (init inner L) s) {j : ℕ} {d : Task APIClientReq}
    (hask : s.asksNext j = some d) {view : ℕ} {cluster : ClusterConfig}
    (hview : s.pool.published[view]? = some cluster) {healthy : PoolRef → Bool}
    (hnext : s.next (.answer j view healthy) = some s') :
    ∃ p, s.pool.lastPool d.id = some p ∧
      (∃ c ∈ s.pool.published, c.ver = d.body.configVer ∧
        c.pools[(UInt64.ofNat d.body.lastIndex).toNat % c.pools.length]? = some p) ∧
      ((∃ q, s'.pool.lastPool s.pool.submitted.length = some q ∧ q.addr ≠ p.addr) ↔
        cluster.Passes healthy (UInt64.ofNat d.body.lastIndex) p.addr) ∧
      (cluster.pools[(UInt64.ofNat d.body.lastIndex).toNat % cluster.pools.length]? = some p →
        cluster.addrs.Nodup →
        (UInt64.ofNat d.body.lastIndex).toNat + 1 + cluster.pools.length < 2 ^ 64 →
        (∃ q ∈ cluster.pools, healthy q = true ∧ q.addr ≠ p.addr) →
        cluster.Passes healthy (UInt64.ofNat d.body.lastIndex) p.addr) := by
  obtain ⟨inv, hrouted⟩ := routed_of_reach h
  obtain ⟨hd, herr, call, heq⟩ := next_of_asksNext hask
  obtain ⟨p, c, hlast, hc, hver, hget⟩ := hrouted.completed d hd herr
  rw [heq view healthy] at hnext
  obtain ⟨pool, hresubmit, rfl⟩ := Option.map_eq_some_iff.mp hnext
  refine ⟨p, hlast, ⟨c, hc, hver, hget⟩, ?_, ?_⟩
  · rw [← ClusterConfig.select_after_ne_iff s.pool.inner.stateless s.pool.inner.nextNode]
    change (∃ q, pool.lastPool s.pool.submitted.length = some q ∧ q.addr ≠ p.addr) ↔ _
    rw [FailoverPool.lastPool_resubmit inv hview hresubmit]
    constructor
    · rintro ⟨q, hq, hne⟩
      obtain ⟨⟨q', i⟩, hsel, rfl⟩ := Option.map_eq_some_iff.mp hq
      exact ⟨q', i, hsel, hne⟩
    · rintro ⟨q, i, hsel, hne⟩
      exact ⟨q, by rw [hsel]; rfl, hne⟩
  · rintro hget' hdistinct hwrap ⟨q, hq, hhealthy, hne⟩
    exact ClusterConfig.passes_of_getElem? hget' hdistinct hwrap hq hhealthy hne

/-- A call answered by `a`, which asks for the next node. -/
def askedByA : List ApiEvent :=
  [.call (reading ClusterErr Unit) "calc.inc" [1] 0 fun _ => true, askNext]

/-- Nothing changed meanwhile: the request goes to `b`. -/
theorem next_node_left_unchanged :
    ∃ (inner : FailoverPoolInner) (s s' : ApiFailover) (p q : PoolRef),
      FailoverPoolInner.new ["a", "b"] true = some inner ∧
        Lts.Reach next (fun _ _ => True) (init inner 3) s ∧
        s.next (.answer 0 0 fun _ => true) = some s' ∧ s.pool.lastPool 0 = some p ∧ p.addr = "a" ∧
        s'.pool.lastPool 1 = some q ∧ q.addr ≠ p.addr := by
  have hrun : (FailoverPoolInner.new ["a", "b"] true).any (fun inner =>
      (Lts.exec next (fun _ _ => True) (init inner 3) askedByA).any fun s =>
        (s.asksNext 0).any (fun d => (s.pool.published[0]?).any (fun cluster =>
          (s.next (.answer 0 0 fun _ => true)).any fun _ =>
            decide (d.id = 0 ∧ s.pool.submitted.length = 1 ∧
              (s.pool.lastPool 0).map PoolRef.addr = some "a" ∧
              cluster.pools[(UInt64.ofNat d.body.lastIndex).toNat % cluster.pools.length]? =
                s.pool.lastPool 0 ∧ cluster.addrs.Nodup ∧
              (UInt64.ofNat d.body.lastIndex).toNat + 1 + cluster.pools.length < 2 ^ 64 ∧
              ∃ q ∈ cluster.pools, q.addr ≠ "a")))) = true := by
    decide +kernel
  obtain ⟨inner, hinner, hexec⟩ := (Option.any_eq_true _ _).mp hrun
  obtain ⟨s, hreach, htest⟩ := Lts.Reach.exists_of_exec hexec
  obtain ⟨d, hask, htest⟩ := (Option.any_eq_true _ _).mp htest
  obtain ⟨cluster, hview, htest⟩ := (Option.any_eq_true _ _).mp htest
  obtain ⟨s', hnext, htest⟩ := (Option.any_eq_true _ _).mp htest
  obtain ⟨hid, hlen, haddr, hget, hdistinct, hwrap, q, hq, hne⟩ := of_decide_eq_true htest
  obtain ⟨p, hp, -, hleft, hpasses⟩ := next_node_left_iff hreach hask hview hnext
  rw [hid] at hp
  rw [hp, Option.map_some] at haddr
  have haddr : p.addr = "a" := Option.some.inj haddr
  rw [hlen] at hleft
  obtain ⟨q', hq', hne'⟩ := hleft.mpr (hpasses (hget.trans hp) hdistinct hwrap
    ⟨q, hq, rfl, fun h => hne (h.trans haddr)⟩)
  exact ⟨inner, s, s', p, q', hinner, hreach, hnext, hp, haddr, hq', hne'⟩

/-- A new address came to the front meanwhile: the request goes to `a` again, although
`b` is healthy. -/
theorem next_node_asked_again :
    ∃ (inner : FailoverPoolInner) (s s' : ApiFailover) (d : Task APIClientReq) (p q : PoolRef),
      FailoverPoolInner.new ["a", "b"] true = some inner ∧
        Lts.Reach next (fun _ _ => True) (init inner 3) s ∧ s.asksNext 0 = some d ∧
        (s.pool.published[1]?).map ClusterConfig.addrs = some ["c", "a", "b"] ∧
        s.next (.answer 0 1 fun _ => true) = some s' ∧ s.pool.lastPool d.id = some p ∧
        s'.pool.lastPool s.pool.submitted.length = some q ∧ ¬ q.addr ≠ p.addr := by
  have hrun : (FailoverPoolInner.new ["a", "b"] true).any (fun inner =>
      (Lts.exec next (fun _ _ => True) (init inner 3)
        (askedByA ++ [.pool (.getOrAddAddr "c")])).any fun s =>
        (s.asksNext 0).any (fun d => (s.next (.answer 0 1 fun _ => true)).any fun s' =>
          (s.pool.lastPool d.id).any fun p =>
            (s'.pool.lastPool s.pool.submitted.length).any fun q =>
              decide ((s.pool.published[1]?).map ClusterConfig.addrs = some ["c", "a", "b"] ∧
                ¬ q.addr ≠ p.addr))) = true := by
    decide +kernel
  obtain ⟨inner, hinner, hexec⟩ := (Option.any_eq_true _ _).mp hrun
  obtain ⟨s, hreach, htest⟩ := Lts.Reach.exists_of_exec hexec
  obtain ⟨d, hask, htest⟩ := (Option.any_eq_true _ _).mp htest
  obtain ⟨s', hnext, htest⟩ := (Option.any_eq_true _ _).mp htest
  obtain ⟨p, hp, htest⟩ := (Option.any_eq_true _ _).mp htest
  obtain ⟨q, hq, htest⟩ := (Option.any_eq_true _ _).mp htest
  obtain ⟨haddrs, heq⟩ := of_decide_eq_true htest
  exact ⟨inner, s, s', d, p, q, hinner, hreach, hask, haddrs, hnext, hp, hq, heq⟩

end ApiFailover

end RazorRpc
