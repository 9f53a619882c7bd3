import RazorRpc.NextNode

/-!
# Retries go round the healthy nodes (`stream/src/client/failover.rs`)

The retry worker, for a task that has the version of the view, and `resubmit(Err(_))`
select the next healthy pool behind the last index, and the index of that pool is the
next last index.

* `FailoverPoolInner.Distinct` — a view holds a pool once;
* `ClusterConfig.select_after_next` — what is selected is the next healthy place on the
  circle;
* `Chain` — selections one after another, each behind the index of the one before;
* `retries_go_round` — the result.
-/

namespace RazorRpc

/-! ## The pools of a view are different -/

/-- The pools in use, and the one to be created next, are different. -/
structure FailoverPoolInner.Distinct (s : FailoverPoolInner) : Prop where
  nodup : s.pools.pools.Nodup
  lt : ∀ p ∈ s.pools.pools, p.id < s.nextPool

/-- What is rebuilt takes each old pool once, and creates the others. -/
theorem rebuildPools_distinct {m : String → Option PoolRef} (hm : ByAddr m) {n : ℕ}
    (hlt : ∀ a p, m a = some p → p.id < n) (addrs : List String) :
    (rebuildPools m n addrs).1.Nodup ∧ n ≤ (rebuildPools m n addrs).2 ∧
      ∀ p ∈ (rebuildPools m n addrs).1, p.id < (rebuildPools m n addrs).2 ∧
        (p.id < n → m p.addr = some p) := by
  induction addrs generalizing m n with
  | nil =>
    refine ⟨List.nodup_nil, Nat.le_refl n, ?_⟩
    rintro p ⟨⟩
  | cons addr addrs ih =>
    rw [rebuildPools]
    rcases hold : m addr with _ | pool
    · -- a new pool
      obtain ⟨hnodup, hle, hrest⟩ := ih (n := n + 1) hm fun a p h => Nat.lt_succ_of_lt (hlt a p h)
      refine ⟨List.nodup_cons.mpr ⟨fun hmem => ?_, hnodup⟩, Nat.le_of_succ_le hle,
        List.forall_mem_cons.mpr ⟨⟨hle, fun h => absurd h (Nat.lt_irrefl n)⟩, fun p hp => ?_⟩⟩
      · have hpool := (hrest _ hmem).2 (Nat.lt_succ_self n)
        rw [hold] at hpool
        cases hpool
      · exact ⟨(hrest p hp).1, fun h => (hrest p hp).2 (Nat.lt_succ_of_lt h)⟩
    · -- the old one, which is not found a second time
      have haddr : pool.addr = addr := hm addr pool hold
      have hid := hlt addr pool hold
      have hkept : ∀ a p, Function.update m addr none a = some p → a ≠ addr ∧ m a = some p :=
        fun a p h => eq_some_of_update_none h
      have hm' : ByAddr (Function.update m addr none) := hm.update_none addr
      obtain ⟨hnodup, hle, hrest⟩ := ih (n := n) hm' fun a p h => hlt a p (hkept a p h).2
      refine ⟨List.nodup_cons.mpr ⟨fun hmem => ?_, hnodup⟩, hle,
        List.forall_mem_cons.mpr ⟨⟨Nat.lt_of_lt_of_le hid hle, fun _ => haddr ▸ hold⟩,
          fun p hp => ?_⟩⟩
      · exact (hkept _ _ ((hrest pool hmem).2 hid)).1 haddr
      · exact ⟨(hrest p hp).1, fun h => (hkept _ _ ((hrest p hp).2 h)).2⟩

/-- The map holds the pools it is made of. -/
theorem mem_of_poolsMap {pools : List PoolRef} {a : String} {p : PoolRef}
    (h : poolsMap pools a = some p) : p ∈ pools := by
  -- the map built so far holds what it held before, or a pool seen since
  have hfold : ∀ (pools : List PoolRef) (m : String → Option PoolRef),
      (pools.foldl (fun (m : String → Option PoolRef) (pool : PoolRef) =>
        Function.update m pool.addr (some pool)) m) a = some p → m a = some p ∨ p ∈ pools := by
    intro pools
    induction pools with
    | nil => exact fun m h => Or.inl h
    | cons pool pools ih =>
      intro m h
      rcases ih _ h with h | h
      · change Function.update m pool.addr (some pool) a = some p at h
        by_cases ha : a = pool.addr
        · rw [ha, Function.update_self] at h
          rw [Option.some.inj h]
          exact Or.inr List.mem_cons_self
        · rw [Function.update_of_ne ha] at h
          exact Or.inl h
      · exact Or.inr (List.mem_cons_of_mem _ h)
  rcases hfold pools _ h with h | h
  · cases h
  · exact h

namespace FailoverPoolInner

variable {s s' : FailoverPoolInner}

theorem Distinct.new {addrs : List String} {stateless : Bool}
    (h : FailoverPoolInner.new addrs stateless = some s) : s.Distinct := by
  rw [FailoverPoolInner.new] at h
  split at h
  · cases h
    obtain ⟨hnodup, -, hlt⟩ := rebuildPools_distinct (n := 0) byAddr_none (by rintro a p ⟨⟩) addrs
    exact ⟨hnodup, fun p hp => (hlt p hp).1⟩
  · cases h

theorem Distinct.getOrAddAddr (h : s.Distinct) {addr : String} {p : PoolRef} {idx ver : UInt64}
    (hadd : s.getOrAddAddr addr = some (s', p, idx, ver)) : s'.Distinct := by
  rw [FailoverPoolInner.getOrAddAddr] at hadd
  split at hadd
  · cases hadd
    exact h
  · dsimp only at hadd
    split at hadd
    · cases hadd
      refine ⟨List.nodup_cons.mpr ⟨fun hmem => ?_, h.nodup⟩,
        List.forall_mem_cons.mpr ⟨Nat.lt_succ_self _, fun p hp => Nat.lt_succ_of_lt (h.lt p hp)⟩⟩
      exact absurd (h.lt _ hmem) (Nat.lt_irrefl _)
    · cases hadd

theorem Distinct.updateAddrs (h : s.Distinct) {addrs : List String}
    (hupd : s.updateAddrs addrs = some s') : s'.Distinct := by
  rw [FailoverPoolInner.updateAddrs] at hupd
  split at hupd
  · cases hupd
    obtain ⟨hnodup, -, hlt⟩ := rebuildPools_distinct (byAddr_poolsMap s.pools.pools)
      (fun a p hp => h.lt p (mem_of_poolsMap hp)) addrs
    exact ⟨hnodup, fun p hp => (hlt p hp).1⟩
  · cases hupd

end FailoverPoolInner

namespace FailoverPool

variable {B : Type} [ClientTask B] {s s' : FailoverPool B}

theorem start_view (task : Task B) (ver : UInt64) (found : Option (PoolRef × UInt64)) :
    (s.start task ver found).inner = s.inner ∧
      (s.start task ver found).published = s.published := by
  rcases found with _ | ⟨pool, index⟩ <;> exact ⟨rfl, rfl⟩

omit [ClientTask B] in
theorem restart_view (t : Task (FailoverTask B)) (found : Option (PoolRef × UInt64)) :
    (s.restart t found).inner = s.inner ∧ (s.restart t found).published = s.published := by
  rcases found with _ | ⟨pool, index⟩ <;> exact ⟨rfl, rfl⟩

omit [ClientTask B] in
theorem errorHandle_view (t : Task (FailoverTask B)) :
    (s.errorHandle t).inner = s.inner ∧ (s.errorHandle t).published = s.published := by
  rw [errorHandle]
  split
  · split <;> exact ⟨rfl, rfl⟩
  · exact ⟨rfl, rfl⟩

/-- What a step does to the view: it leaves the pools alone, or publishes others. -/
theorem next_view {e : FailoverEvent B} (h : s.next e = some s') :
    (s'.inner.pools = s.inner.pools ∧ s'.inner.nextPool = s.inner.nextPool ∧
        s'.published = s.published) ∨
      (s'.published = s.published ++ [s'.inner.pools] ∧
        ((∃ inner addr pool index ver, s.inner.getOrAddAddr addr = some (inner, pool, index, ver) ∧
            s'.inner.pools = inner.pools ∧ s'.inner.nextPool = inner.nextPool) ∨
          ∃ addrs, s.inner.updateAddrs addrs = some s'.inner)) := by
  cases next_cases h with
  | sendReq task hview hsel | resubmit task hview hsel =>
    rw [(start_view _ _ _).1, (start_view _ _ _).2]
    exact Or.inl ⟨rfl, rfl, rfl⟩
  | redirect task retryCount maxRetries hadd =>
    exact Or.inr ⟨rfl, Or.inl ⟨_, _, _, _, _, hadd, rfl, rfl⟩⟩
  | failed work hne hget =>
    rw [(errorHandle_view _).1, (errorHandle_view _).2]
    exact Or.inl ⟨rfl, rfl, rfl⟩
  | retry hrx hview htask hsel =>
    rw [(restart_view _ _).1, (restart_view _ _).2]
    exact Or.inl ⟨rfl, rfl, rfl⟩
  | addAddr hadd => exact Or.inr ⟨rfl, Or.inl ⟨_, _, _, _, _, hadd, rfl, rfl⟩⟩
  | updateAddrs hupd => exact Or.inr ⟨rfl, Or.inr ⟨_, hupd⟩⟩
  | done work hget => exact Or.inl ⟨rfl, rfl, rfl⟩
  | giveUp view healthy hrx => exact Or.inl ⟨rfl, rfl, rfl⟩
  | drop | workerExit => exact Or.inl ⟨rfl, rfl, rfl⟩

/-- What holds of the first view and is kept by both ways to change it holds of all of
them. -/
theorem view_of_reach {P : FailoverPoolInner → Prop}
    (hframe : ∀ i i' : FailoverPoolInner, i'.pools = i.pools → i'.nextPool = i.nextPool → P i → P i')
    (hadd : ∀ i i' addr p idx ver, P i → i.getOrAddAddr addr = some (i', p, idx, ver) → P i')
    (hupd : ∀ i i' addrs, P i → i.updateAddrs addrs = some i' → P i')
    {inner : FailoverPoolInner} {retryLimit : ℕ} (hinit : P inner)
    (h : Lts.Reach next (fun _ _ => True) (new inner retryLimit) s) :
    P s.inner ∧ ∀ c ∈ s.published, ∃ i, P i ∧ i.pools = c := by
  refine h.invariant (I := fun s => P s.inner ∧ ∀ c ∈ s.published, ∃ i, P i ∧ i.pools = c)
    ⟨hinit, List.forall_mem_singleton.mpr ⟨inner, hinit, rfl⟩⟩ fun s e s' hI _ hnext => ?_
  obtain ⟨hinner, hviews⟩ := hI
  rcases next_view hnext with ⟨hpools, hid, hpublished⟩ | ⟨hpublished, hchange⟩
  · rw [hpublished]
    exact ⟨hframe _ _ hpools hid hinner, hviews⟩
  · have hinner' : P s'.inner := by
      rcases hchange with ⟨i, addr, p, idx, ver, hget, hpools, hid⟩ | ⟨addrs, hget⟩
      · exact hframe _ _ hpools hid (hadd _ _ _ _ _ _ hinner hget)
      · exact hupd _ _ _ hinner hget
    rw [hpublished]
    refine ⟨hinner', fun c hc => ?_⟩
    rcases List.mem_append.mp hc with hc | hc
    · exact hviews c hc
    · rw [List.mem_singleton.mp hc]
      exact ⟨s'.inner, hinner', rfl⟩

/-- Every view so far has its pools once. -/
structure Distinct (s : FailoverPool B) : Prop where
  inner : s.inner.Distinct
  published : ∀ c ∈ s.published, c.pools.Nodup

theorem distinct_of_reach {addrs : List String} {stateless : Bool} {inner : FailoverPoolInner}
    {retryLimit : ℕ} (hnew : FailoverPoolInner.new addrs stateless = some inner)
    (h : Lts.Reach next (fun _ _ => True) (new inner retryLimit) s) : s.Distinct := by
  obtain ⟨hinner, hviews⟩ := view_of_reach (P := FailoverPoolInner.Distinct)
    (fun _ _ hpools hid hi => ⟨hpools ▸ hi.nodup, hpools ▸ hid ▸ hi.lt⟩)
    (fun _ _ _ _ _ _ hi hget => hi.getOrAddAddr hget) (fun _ _ _ hi hget => hi.updateAddrs hget)
    (FailoverPoolInner.Distinct.new hnew) h
  refine ⟨hinner, fun c hc => ?_⟩
  obtain ⟨i, hi, rfl⟩ := hviews c hc
  exact hi.nodup

/-- Every view of a pool that is in use has its pools once. -/
theorem nodup_of_reach {addrs : List String} {stateless : Bool} {inner : FailoverPoolInner}
    {retryLimit : ℕ} (hnew : FailoverPoolInner.new addrs stateless = some inner)
    (h : Lts.Reach next (fun _ _ => True) (new inner retryLimit) s) {c : ClusterConfig}
    (hc : c ∈ s.published) : c.pools.Nodup :=
  (distinct_of_reach hnew h).published c hc

end FailoverPool

/-! ## The next healthy place -/

/-- Counting the places of a list is counting its elements. -/
theorem countP_range_getElem? {α : Type} (l : List α) (p : α → Bool) :
    (List.range l.length).countP (fun k => (l[k]?).any p) = l.countP p := by
  induction l with
  | nil => rfl
  | cons a l ih =>
    rw [List.length_cons, List.range_succ_eq_map, List.countP_cons, List.countP_map,
      List.countP_cons, ← ih]
    rfl

namespace ClusterConfig

variable {c : ClusterConfig} {healthy : PoolRef → Bool}

/-- The pool at this index, going round, is healthy. -/
def HealthyIndex (c : ClusterConfig) (healthy : PoolRef → Bool) (i : ℕ) : Prop :=
  (c.pools[i % c.pools.length]?).any healthy = true

instance (c : ClusterConfig) (healthy : PoolRef → Bool) : DecidablePred (c.HealthyIndex healthy) :=
  fun _ => inferInstanceAs (Decidable (_ = true))

theorem healthyIndex_iff {i : ℕ} {p : PoolRef} (hget : c.pools[i % c.pools.length]? = some p) :
    c.HealthyIndex healthy i ↔ healthy p = true := by
  rw [HealthyIndex, hget, Option.any_some]

theorem not_healthyIndex_iff {seed k : ℕ} :
    ¬ c.HealthyIndex healthy (seed + k) ↔ c.healthyAt healthy seed k = none := by
  rw [HealthyIndex, healthyAt]
  rcases c.pools[(seed + k) % c.pools.length]? with _ | p
  · simp
  · simp [Option.filter_some]

theorem periodic_healthyIndex (c : ClusterConfig) (healthy : PoolRef → Bool) :
    Function.Periodic (c.HealthyIndex healthy) c.pools.length := by
  intro i
  rw [HealthyIndex, HealthyIndex, Nat.add_mod_right]

/-- In one round there are as many as there are healthy pools. -/
theorem count_healthyIndex (c : ClusterConfig) (healthy : PoolRef → Bool) :
    Nat.count (c.HealthyIndex healthy) c.pools.length = c.pools.countP healthy := by
  rw [Nat.count, ← countP_range_getElem? c.pools healthy]
  refine List.countP_congr fun k hk => ?_
  rw [decide_eq_true_iff, HealthyIndex, Nat.mod_eq_of_lt (List.mem_range.mp hk)]

/-- What is selected behind an index is the next healthy place. -/
theorem select_after_next {stateless : Bool} {nextNode lastIndex i : UInt64} {p : PoolRef}
    (hwrap : lastIndex.toNat + 1 + c.pools.length < 2 ^ 64)
    (h : (c.select stateless healthy nextNode (.after lastIndex)).2 = some (p, i)) :
    Cyclic.Next (c.HealthyIndex healthy) lastIndex.toNat i.toNat := by
  have hl : c.pools.length ≠ 0 := fun hzero => by
    rw [select, if_pos hzero] at h
    cases h
  have hseed := toNat_add_one hwrap
  obtain ⟨hhealthy, hget⟩ := select_eq_some h
  rw [select_after hl (hseed ▸ hwrap), findSome?_range_eq_some] at h
  obtain ⟨k, hk, hsome, hnone⟩ := h
  obtain ⟨p', -, heq⟩ := Option.map_eq_some_iff.mp hsome
  obtain ⟨-, hi⟩ := Prod.mk.inj heq
  have hindex : i.toNat = lastIndex.toNat + 1 + k := by
    have hklt : k < 2 ^ 64 := by omega
    rw [← hi, UInt64.toNat_add _ (UInt64.ofNat _), hseed, UInt64.toNat_ofNat_of_lt' hklt]
    exact Nat.mod_eq_of_lt (by omega)
  refine ⟨by omega, (healthyIndex_iff hget).mpr hhealthy, fun j hlow hhigh => ?_⟩
  obtain ⟨k', rfl⟩ := Nat.exists_eq_add_of_le hlow
  have hbefore := Option.map_eq_none_iff.mp (hnone k' (by omega))
  rw [hseed] at hbefore
  exact not_healthyIndex_iff.mpr hbefore

/-- There is one, if any pool is healthy. -/
theorem exists_select_after (stateless : Bool) (nextNode : UInt64) {lastIndex : UInt64}
    (hwrap : lastIndex.toNat + 1 + c.pools.length < 2 ^ 64)
    (hhealthy : 0 < c.pools.countP healthy) :
    ∃ p i, (c.select stateless healthy nextNode (.after lastIndex)).2 = some (p, i) := by
  obtain ⟨p, hp, hhealthy⟩ := List.countP_pos_iff.mp hhealthy
  obtain ⟨j, hj, hgetj⟩ := List.mem_iff_getElem.mp hp
  obtain ⟨k, hk, hkj⟩ := Cyclic.exists_add_mod_eq (lastIndex.toNat + 1) hj
  have hl : c.pools.length ≠ 0 := Nat.ne_of_gt (Nat.lt_of_le_of_lt (Nat.zero_le j) hj)
  have hseed := toNat_add_one hwrap
  have hsome : (c.healthyAt healthy (lastIndex + 1).toNat k).isSome = true := by
    rw [healthyAt, hseed, hkj, List.getElem?_eq_getElem hj, hgetj]
    simp [hhealthy]
  rw [select_after hl (hseed ▸ hwrap)]
  refine Prod.exists.mp (Option.isSome_iff_exists.mp (List.findSome?_isSome_iff.mpr ?_))
  refine ⟨k, List.mem_range.mpr hk, ?_⟩
  rw [Option.isSome_map]
  exact hsome

end ClusterConfig

/-! ## Selections one after another -/

namespace FailoverPool

variable {B : Type} [ClientTask B] {c : ClusterConfig} {healthy : PoolRef → Bool}
  {lastIndex : UInt64}

/-- A step that selects behind `lastIndex` in this view, for the task with this identity:
that of the retry worker, for a task of the view's version, or `resubmit(Err(_))`. -/
inductive SelectsBehind (c : ClusterConfig) (healthy : PoolRef → Bool) (lastIndex : UInt64)
    (s : FailoverPool B) : FailoverEvent B → ℕ → Prop
  | retry {view : ℕ} {t : Task (FailoverTask B)} {rest : List (Task (FailoverTask B))}
      (halive : s.alive = true) (hrx : s.retryRx = t :: rest)
      (hview : s.published[view]? = some c) (hver : t.body.configVer = c.ver)
      (hindex : t.body.lastIndex = lastIndex) :
      SelectsBehind c healthy lastIndex s (.retry view healthy) t.id
  | resubmit {view : ℕ} (task : Task B) (hview : s.published[view]? = some c) :
      SelectsBehind c healthy lastIndex s (.resubmit task lastIndex view healthy)
        s.submitted.length

/-- The task has been given to this pool; its last index is this one now, in this view. -/
def Gives (c : ClusterConfig) (s s' : FailoverPool B) (id : ℕ) (p : PoolRef) (index : UInt64) :
    Prop :=
  s'.handed = s.handed ++ [(id, p)] ∧ ∃ t, s'.inPools = s.inPools ++ [t] ∧ t.id = id ∧
    t.body.lastIndex = index ∧ t.body.configVer = c.ver

omit [ClientTask B] in
theorem gives_hand_iff {s s₁ : FailoverPool B} (hhanded : s₁.handed = s.handed)
    (hpools : s₁.inPools = s.inPools) {t : Task (FailoverTask B)} (hver : t.body.configVer = c.ver)
    {pool p : PoolRef} {index : UInt64} :
    Gives c s (s₁.hand pool t) t.id p index ↔ (pool, t.body.lastIndex) = (p, index) := by
  constructor
  · rintro ⟨hhand, t', hin, -, hindex, -⟩
    change s₁.handed ++ [(t.id, pool)] = _ at hhand
    change s₁.inPools ++ [t] = _ at hin
    rw [hhanded, List.append_cancel_left_eq] at hhand
    rw [hpools, List.append_cancel_left_eq] at hin
    obtain rfl : t = t' := List.head_eq_of_cons_eq hin
    obtain rfl : pool = p := (Prod.mk.inj (List.head_eq_of_cons_eq hhand)).2
    rw [hindex]
  · intro heq
    obtain ⟨rfl, rfl⟩ := Prod.mk.inj heq
    refine ⟨?_, t, ?_, rfl, rfl, hver⟩
    · rw [← hhanded]
      rfl
    · rw [← hpools]
      rfl

omit [ClientTask B] in
theorem not_gives_complete {s s₁ : FailoverPool B} (hhanded : s₁.handed = s.handed) {t : Task B}
    {id : ℕ} {p : PoolRef} {index : UInt64} : ¬ Gives c s (s₁.complete t) id p index := by
  rintro ⟨hhand, -⟩
  change s₁.handed = _ at hhand
  rw [hhanded] at hhand
  exact List.cons_ne_nil _ _ (List.self_eq_append_right.mp hhand)

/-- The task goes to the pool that `select` finds behind the index. -/
theorem SelectsBehind.gives_iff {s s' : FailoverPool B} {e : FailoverEvent B} {id : ℕ}
    (h : SelectsBehind c healthy lastIndex s e id) (hnext : s.next e = some s') {p : PoolRef}
    {index : UInt64} :
    Gives c s s' id p index ↔
      (c.select s.inner.stateless healthy s.inner.nextNode (.after lastIndex)).2 =
        some (p, index) := by
  cases h with
  | @retry view t rest halive hrx hview hver hindex =>
    have hsame : (c.ver == t.body.configVer) = true := by rw [hver, beq_self_eq_true]
    simp only [next, hrx, halive, hview, hsame, hindex, Bool.not_true, Bool.false_eq_true,
      if_true, if_false, Option.bind_eq_bind, Option.bind_some] at hnext
    split at hnext
    · cases hnext
    · cases hnext
      rcases (c.select s.inner.stateless healthy s.inner.nextNode (.after lastIndex)).2 with
        _ | ⟨pool, i⟩
      · refine iff_of_false (not_gives_complete rfl) ?_
        rintro ⟨⟩
      · rw [Option.some_inj]
        exact gives_hand_iff rfl rfl (t := { t with body := { t.body with lastIndex := i } }) hver
  | @resubmit view task hview =>
    simp only [next, hview, Option.bind_eq_bind, Option.bind_some] at hnext
    split at hnext
    · cases hnext
    · cases hnext
      rcases (c.select s.inner.stateless healthy s.inner.nextNode (.after lastIndex)).2 with
        _ | ⟨pool, i⟩
      · refine iff_of_false (not_gives_complete rfl) ?_
        rintro ⟨⟩
      · rw [Option.some_inj]
        exact gives_hand_iff rfl rfl
          (t := Task.wrap { task with id := s.submitted.length } i c.ver 0 0) rfl

/-- Selections one after another, each behind the index of the one before; `seed + l`
does not overflow. -/
inductive Chain (B : Type) [ClientTask B] (c : ClusterConfig) (healthy : PoolRef → Bool) :
    UInt64 → List (PoolRef × UInt64) → Prop
  | nil {lastIndex : UInt64} : Chain B c healthy lastIndex []
  | cons {lastIndex index : UInt64} {s s' : FailoverPool B} {e : FailoverEvent B} {id : ℕ}
      {p : PoolRef} {picks : List (PoolRef × UInt64)}
      (hwrap : lastIndex.toNat + 1 + c.pools.length < 2 ^ 64)
      (hsel : SelectsBehind c healthy lastIndex s e id) (hnext : s.next e = some s')
      (hgives : Gives c s s' id p index) (hrest : Chain B c healthy index picks) :
      Chain B c healthy lastIndex ((p, index) :: picks)

/-- The index of the last of some selections that begin behind `lastIndex`. -/
def indexAfter (lastIndex : UInt64) (picks : List (PoolRef × UInt64)) : UInt64 :=
  (picks.getLast?.map Prod.snd).getD lastIndex

theorem indexAfter_cons (lastIndex : UInt64) (e : PoolRef × UInt64)
    (picks : List (PoolRef × UInt64)) :
    indexAfter lastIndex (e :: picks) = indexAfter e.2 picks := by
  rw [indexAfter, indexAfter, List.getLast?_cons]
  rcases picks.getLast? with _ | e' <;> rfl

namespace Chain

variable {picks : List (PoolRef × UInt64)}

/-- What follows some of the selections is a chain as well. -/
theorem drop {before rest : List (PoolRef × UInt64)}
    (h : Chain B c healthy lastIndex (before ++ rest)) :
    Chain B c healthy (indexAfter lastIndex before) rest := by
  induction before generalizing lastIndex with
  | nil => exact h
  | cons e before ih =>
    rw [indexAfter_cons]
    cases h with
    | cons _ _ _ _ hrest => exact ih hrest

/-- And so is what they are followed by. -/
theorem take {rest : List (PoolRef × UInt64)} (h : Chain B c healthy lastIndex (picks ++ rest)) :
    Chain B c healthy lastIndex picks := by
  induction picks generalizing lastIndex with
  | nil => exact .nil
  | cons e picks ih =>
    cases h with
    | cons hwrap hsel hnext hgives hrest => exact .cons hwrap hsel hnext hgives (ih hrest)

/-- The indices are those of the healthy places, one after another. -/
theorem isChain (h : Chain B c healthy lastIndex picks) :
    List.IsChain (Cyclic.Next (c.HealthyIndex healthy))
      (lastIndex.toNat :: picks.map fun e => e.2.toNat) := by
  induction h with
  | nil => exact .singleton _
  | cons hwrap hsel hnext hgives _ ih =>
    exact .cons_cons (ClusterConfig.select_after_next hwrap ((hsel.gives_iff hnext).mp hgives)) ih

/-- Each pool is healthy and stands at its index. -/
theorem getElem? (h : Chain B c healthy lastIndex picks) :
    ∀ e ∈ picks, healthy e.1 = true ∧ c.pools[e.2.toNat % c.pools.length]? = some e.1 := by
  induction h with
  | nil => exact nofun
  | cons hwrap hsel hnext hgives _ ih =>
    exact List.forall_mem_cons.mpr
      ⟨ClusterConfig.select_eq_some ((hsel.gives_iff hnext).mp hgives), ih⟩

end Chain

/-- As many selections as there are healthy pools: they pick each of these once, and the
one at the last index only in the end. -/
structure GoesRound (c : ClusterConfig) (healthy : PoolRef → Bool) (lastIndex : UInt64)
    (picks : List (PoolRef × UInt64)) : Prop where
  isHealthy : ∀ e ∈ picks, healthy e.1 = true
  distinct : (picks.map Prod.fst).Nodup
  last : ∀ p, c.pools[lastIndex.toNat % c.pools.length]? = some p → healthy p = true →
    ∃ before index, picks = before ++ [(p, index)] ∧ p ∉ before.map Prod.fst
  moves : 1 < c.pools.countP healthy →
    ∀ p ∈ c.pools[lastIndex.toNat % c.pools.length]?, ∀ e ∈ picks.head?, e.1 ≠ p

namespace Chain

variable {picks : List (PoolRef × UInt64)} (h : Chain B c healthy lastIndex picks)

include h

/-- No more selections than there are healthy pools pick different ones. -/
theorem nodup (hdistinct : c.pools.Nodup) (hlen : picks.length ≤ c.pools.countP healthy) :
    (picks.map Prod.fst).Nodup := by
  have hget := h.getElem?
  have hmod := Cyclic.nodup_mod_of_chain (c.periodic_healthyIndex healthy) h.isChain (by
    rw [List.length_map, c.count_healthyIndex healthy]
    exact hlen)
  rw [List.map_map] at hmod
  refine List.pairwise_map.mpr ((List.pairwise_map.mp hmod).imp_of_mem ?_)
  intro e e' he he' hne heq
  have hgete := (hget e he).2
  have hgete' := (hget e' he').2
  rw [heq] at hgete
  have hlt := (List.getElem?_eq_some_iff.mp hgete).1
  exact hne ((List.getElem?_inj hlt hdistinct).mp (hgete.trans hgete'.symm))

/-- The pool at the last index comes in the end. -/
theorem last_of_length (hdistinct : c.pools.Nodup)
    (hlen : picks.length = c.pools.countP healthy) {p : PoolRef}
    (hp : c.pools[lastIndex.toNat % c.pools.length]? = some p) (hhealthy : healthy p = true) :
    ∃ before index, picks = before ++ [(p, index)] ∧ p ∉ before.map Prod.fst := by
  have hne : picks ≠ [] := by
    rintro rfl
    exact Nat.ne_of_lt (List.countP_pos_iff.mpr ⟨p, List.mem_of_getElem? hp, hhealthy⟩) hlen
  obtain ⟨before, ⟨p', index⟩, rfl⟩ : ∃ before e, picks = before ++ [e] :=
    ⟨_, _, (List.dropLast_append_getLast hne).symm⟩
  have hchain := h.isChain
  rw [List.map_append, List.map_singleton] at hchain
  have hback := Cyclic.last_of_chain (c.periodic_healthyIndex healthy) hchain (by
    rw [List.length_map, c.count_healthyIndex healthy, ← hlen, List.length_append,
      List.length_singleton]) ((ClusterConfig.healthyIndex_iff hp).mpr hhealthy)
  have hget := (h.getElem? (p', index) (List.mem_append_right _ (List.mem_singleton_self _))).2
  change c.pools[index.toNat % c.pools.length]? = some p' at hget
  change index.toNat = _ at hback
  rw [hback, Nat.add_mod_right, hp] at hget
  obtain rfl : p = p' := Option.some.inj hget
  have hnodup := h.nodup hdistinct (Nat.le_of_eq hlen)
  rw [List.map_append, List.nodup_append] at hnodup
  exact ⟨before, index, rfl, fun hmem => hnodup.2.2 p hmem p (List.mem_singleton_self p) rfl⟩

theorem goesRound (hdistinct : c.pools.Nodup) (hlen : picks.length = c.pools.countP healthy) :
    GoesRound c healthy lastIndex picks := by
  have hhealthy : ∀ e ∈ picks, healthy e.1 = true := fun e he => (h.getElem? e he).1
  refine ⟨hhealthy, h.nodup hdistinct (Nat.le_of_eq hlen),
    fun p hp hhp => h.last_of_length hdistinct hlen hp hhp, fun hmany p hp e he heq => ?_⟩
  obtain ⟨rest, rfl⟩ := List.head?_eq_some_iff.mp he
  have hhp : healthy p = true := heq ▸ hhealthy e List.mem_cons_self
  obtain ⟨before, index, hsplit, hnot⟩ := h.last_of_length hdistinct hlen hp hhp
  -- the first of several is not the one in the end
  cases before with
  | nil =>
    rw [hsplit, List.nil_append, List.length_singleton] at hlen
    exact absurd hmany (Nat.not_lt_of_le (Nat.le_of_eq hlen.symm))
  | cons e' before =>
    obtain ⟨rfl, -⟩ := List.cons_eq_cons.mp hsplit
    exact hnot (heq ▸ List.mem_cons_self)

end Chain

/-- **Retries go round the healthy nodes.** In every view of a pool in use, with the same
pools healthy throughout and one at least: each selection finds a pool, and any so many
selections one after another as there are healthy pools pick different ones, all of them
healthy, the one at the index they begin behind in the end. -/
theorem retries_go_round {addrs : List String} {stateless : Bool} {inner : FailoverPoolInner}
    {retryLimit : ℕ} {s₀ : FailoverPool B}
    (hnew : FailoverPoolInner.new addrs stateless = some inner)
    (hreach : Lts.Reach next (fun _ _ => True) (new inner retryLimit) s₀)
    (hc : c ∈ s₀.published) (hhealthy : 0 < c.pools.countP healthy) :
    (∀ {lastIndex : UInt64} {s s' : FailoverPool B} {e : FailoverEvent B} {id : ℕ},
      lastIndex.toNat + 1 + c.pools.length < 2 ^ 64 →
      SelectsBehind c healthy lastIndex s e id → s.next e = some s' →
      ∃ p index, Gives c s s' id p index) ∧
    ∀ (lastIndex : UInt64) (before picks rest : List (PoolRef × UInt64)),
      Chain B c healthy lastIndex (before ++ picks ++ rest) →
      picks.length = c.pools.countP healthy →
      GoesRound c healthy (indexAfter lastIndex before) picks := by
  have hdistinct := nodup_of_reach hnew hreach hc
  constructor
  · intro lastIndex s s' e id hwrap hsel hnext
    obtain ⟨p, index, hselect⟩ :=
      ClusterConfig.exists_select_after s.inner.stateless s.inner.nextNode hwrap hhealthy
    exact ⟨p, index, (hsel.gives_iff hnext).mpr hselect⟩
  · intro lastIndex before picks rest hchain hlen
    rw [List.append_assoc] at hchain
    exact (hchain.drop.take).goesRound hdistinct hlen

/-- Three nodes. -/
def threeNodes : FailoverPoolInner where
  pools := ⟨[⟨"a", 0⟩, ⟨"b", 1⟩, ⟨"c", 2⟩], 0, by decide⟩
  stateless := false
  nextNode := 0
  nextPool := 3

/-- Node `b` is down: behind `a` come `c` and `a` again. -/
theorem retries_go_round_two :
    GoesRound threeNodes.pools (·.addr ≠ "b") 0 [(⟨"c", 2⟩, 2), (⟨"a", 0⟩, 3)] := by
  have hnew : FailoverPoolInner.new ["a", "b", "c"] false = some threeNodes := rfl
  let s : FailoverPool APIClientReq := .new threeNodes 3
  let task : Task APIClientReq := ⟨0, 1, .new "calc.add" [1]⟩
  have hgives : ∀ (lastIndex index : UInt64) (p : PoolRef),
      (threeNodes.pools.select false (·.addr ≠ "b") 0 (.after lastIndex)).2 = some (p, index) →
      ∃ s', s.next (.resubmit task lastIndex 0 (·.addr ≠ "b")) = some s' ∧
        Gives threeNodes.pools s s' 0 p index := by
    intro lastIndex index p hselect
    have hsel : SelectsBehind threeNodes.pools (·.addr ≠ "b") lastIndex s
        (.resubmit task lastIndex 0 (·.addr ≠ "b")) 0 := .resubmit task rfl
    exact ⟨_, rfl, (hsel.gives_iff rfl).mpr hselect⟩
  obtain ⟨s₁, hnext₁, hgives₁⟩ := hgives 0 2 ⟨"c", 2⟩ (by decide)
  obtain ⟨s₂, hnext₂, hgives₂⟩ := hgives 2 3 ⟨"a", 0⟩ (by decide)
  have hchain : Chain APIClientReq threeNodes.pools (·.addr ≠ "b") 0
      [(⟨"c", 2⟩, 2), (⟨"a", 0⟩, 3)] :=
    .cons (by decide) (.resubmit task rfl) hnext₁ hgives₁
      (.cons (by decide) (.resubmit task rfl) hnext₂ hgives₂ .nil)
  have hreach : Lts.Reach next (fun _ _ => True) (new threeNodes 3) s := .init
  exact (retries_go_round hnew hreach List.mem_cons_self (by decide)).2 0 [] _ [] hchain (by decide)

end FailoverPool

end RazorRpc
