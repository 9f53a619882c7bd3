import RazorRpc.RetryRound
import RazorRpc.SelectRange

/-!
# Round-robin (`stream/src/client/failover.rs`)

In stateless mode a first selection takes `next_node` and moves it on by one. Retries
use the same `select`, but begin behind the index of the task and leave the counter
alone. So the first selections of a run go round the pools, whatever happens between
them.

* `Steady` — the steps in question: the pools are healthy, retries find the version of
  their task, and no redirect sets the counter;
* `FirstSelections` — how many there were, and which pools they chose;
* `round_robin_fair_iff` — the result.

The selections at the very end of `usize` choose no pool (`SelectRange`), and the round
in which that happens may be missing.
-/

namespace RazorRpc

/-! ## One selection -/

namespace ClusterConfig

variable {c : ClusterConfig} {healthy : PoolRef → Bool} {stateless : Bool}

/-- The pool whose turn it is when the counter has this value. -/
def turnOf (c : ClusterConfig) (nextNode : UInt64) : Option PoolRef :=
  if nextNode.toNat + c.pools.length < 2 ^ 64 then c.pools[nextNode.toNat % c.pools.length]?
  else none

/-- A selection behind an index leaves the counter alone. -/
theorem select_after_fst (nextNode lastIndex : UInt64) :
    (c.select stateless healthy nextNode (.after lastIndex)).1 = nextNode := by
  simp only [select]
  split
  · rfl
  · rfl

/-- A first selection moves it on. -/
theorem select_start_fst (hne : c.pools ≠ []) (nextNode : UInt64) :
    (c.select true healthy nextNode .start).1 = nextNode + 1 := by
  have hl : c.pools.length ≠ 0 := fun hzero => hne (List.length_eq_zero_iff.mp hzero)
  simp only [select, if_neg hl]
  rfl

/-- While all pools are healthy, the pool whose turn it is is chosen. -/
theorem select_start_turnOf (hne : c.pools ≠ []) (hall : ∀ p ∈ c.pools, healthy p = true)
    (nextNode : UInt64) :
    (c.select stateless healthy nextNode .start).2.map Prod.fst = c.turnOf nextNode := by
  have hlen : c.pools.length < 2 ^ 64 := Nat.lt_of_le_of_lt c.length_le (by decide)
  have hpos : 0 < c.pools.length := List.length_pos_iff.mpr hne
  rw [select_eq_selectAt]
  change Option.map Prod.fst (Option.map _ (c.selectAt _ _ nextNode.toBitVec .start).2) = _
  rw [Option.map_map, turnOf]
  split
  · rename_i hfits
    replace hfits : c.RangeFits nextNode.toBitVec .start := hfits
    have hmod : nextNode.toNat % c.pools.length < c.pools.length := Nat.mod_lt _ hpos
    have hfirst : c.healthyAt healthy (seedAt nextNode.toBitVec .start).toNat 0 =
        some (c.pools[nextNode.toNat % c.pools.length]) := by
      change (c.pools[(nextNode.toNat + 0) % _]?).filter healthy = _
      rw [Nat.add_zero, List.getElem?_eq_getElem hmod, Option.filter_some,
        if_pos (hall _ (List.getElem_mem hmod))]
    obtain ⟨l, hl⟩ : ∃ l, c.pools.length = l + 1 := Nat.exists_eq_add_one.mpr hpos
    rw [selectAt_of_fits hne hfits, hl, List.range_succ_eq_map, List.findSome?_cons, hfirst,
      ← hl, List.getElem?_eq_getElem hmod]
    rfl
  · rename_i hwrap
    replace hwrap : ¬ c.RangeFits nextNode.toBitVec .start := hwrap
    rw [selectAt_of_wrap hne hlen hwrap]
    rfl

end ClusterConfig

/-! ## Runs -/

namespace FailoverPool

variable {B : Type} [ClientTask B]

/-- The pools that a step gives a task to. -/
def handedBy (s : FailoverPool B) (e : FailoverEvent B) : List PoolRef :=
  match s.next e with
  | some s' => (s'.handed.drop s.handed.length).map Prod.snd
  | none => []

/-- The first selections of a run, made by `send_req` and `send_req_blocking`. -/
structure FirstSelections where
  count : ℕ
  /-- the pools chosen, one after another -/
  chosen : List PoolRef

def FirstSelections.update (x : FirstSelections) (s : FailoverPool B) :
    FailoverEvent B → FirstSelections
  | .sendReq task view healthy =>
    ⟨x.count + 1, x.chosen ++ s.handedBy (.sendReq task view healthy)⟩
  | _ => x

/-- Each pool has been chosen as often as any other, up to one. -/
def FirstSelections.Fair (c : ClusterConfig) (x : FirstSelections) : Prop :=
  ∀ p ∈ c.pools, x.chosen.count p = x.count / c.pools.length ∨
    x.chosen.count p = (x.count + (c.pools.length - 1)) / c.pools.length

instance (c : ClusterConfig) (x : FirstSelections) : Decidable (x.Fair c) :=
  inferInstanceAs (Decidable (∀ p ∈ c.pools, _ ∨ _))

/-- First selections are made in this view, all pools of it healthy; the retry worker
finds the version of its task; and there is no redirect. -/
def Steady (c : ClusterConfig) (s : FailoverPool B) : FailoverEvent B → Prop
  | .sendReq _ view healthy =>
    s.published[view]? = some c ∧ ∀ p ∈ c.pools, healthy p = true
  | .redirect _ _ _ _ => False
  | .retry view _ => ∀ t ∈ s.retryRx.head?, ∀ cluster ∈ s.published[view]?,
      cluster.ver = t.body.configVer
  | _ => True

/-- A run, with its first selections. -/
def selecting : FailoverPool B × FirstSelections → FailoverEvent B →
    Option (FailoverPool B × FirstSelections) :=
  Lts.watch next FirstSelections.update

variable {c : ClusterConfig} {s s' : FailoverPool B}

theorem start_handed (task : Task B) (ver : UInt64) (found : Option (PoolRef × UInt64)) :
    (s.start task ver found).handed =
      s.handed ++ (found.map fun e => (task.id, e.1)).toList := by
  rcases found with _ | ⟨pool, index⟩
  · exact (List.append_nil _).symm
  · rfl

/-- A first selection: what it does to the counter, and whom it chooses. -/
theorem next_sendReq {task : Task B} {view : ℕ} {healthy : PoolRef → Bool}
    (hstateless : s.inner.stateless = true) (hne : c.pools ≠ [])
    (hview : s.published[view]? = some c) (hall : ∀ p ∈ c.pools, healthy p = true)
    (h : s.next (.sendReq task view healthy) = some s') :
    s'.inner.stateless = true ∧ s'.inner.nextNode = s.inner.nextNode + 1 ∧
      s.handedBy (.sendReq task view healthy) = (c.turnOf s.inner.nextNode).toList := by
  rw [handedBy, h]
  simp only [next] at h
  split at h
  · cases h
  · obtain ⟨cluster, hcluster, h⟩ := Option.bind_eq_some_iff.mp h
    rw [hview] at hcluster
    cases hcluster
    cases h
    refine ⟨?_, ?_, ?_⟩
    · rw [(start_view _ _ _).1]
      exact hstateless
    · rw [(start_view _ _ _).1, hstateless]
      exact ClusterConfig.select_start_fst hne s.inner.nextNode
    · have hturn := @ClusterConfig.select_start_turnOf c healthy s.inner.stateless hne hall
      rw [← hturn]
      dsimp only
      rw [start_handed]
      change ((s.handed ++ _).drop s.handed.length).map _ = _
      rw [List.drop_left]
      rcases (c.select s.inner.stateless healthy s.inner.nextNode .start).2 with _ | ⟨p, i⟩
      · rfl
      · rfl

/-- A retry under the version of its task leaves the counter alone. -/
theorem next_retry {view : ℕ} {healthy : PoolRef → Bool}
    (hver : ∀ t ∈ s.retryRx.head?, ∀ cluster ∈ s.published[view]?, cluster.ver = t.body.configVer)
    (h : s.next (.retry view healthy) = some s') :
    s'.inner.stateless = s.inner.stateless ∧ s'.inner.nextNode = s.inner.nextNode := by
  simp only [next] at h
  split at h
  · cases h
  · split at h
    · cases h
    · rename_i t rest hrx
      split at h
      · cases h
        exact ⟨rfl, rfl⟩
      · obtain ⟨cluster, hcluster, h⟩ := Option.bind_eq_some_iff.mp h
        have hsame : (cluster.ver == t.body.configVer) = true := by
          rw [hver t (by rw [hrx]; rfl) cluster hcluster]
          exact beq_self_eq_true _
        simp only [hsame, if_true] at h
        cases h
        rw [(restart_view _ _).1]
        exact ⟨rfl, ClusterConfig.select_after_fst _ _⟩

/-- Every other step does, too. -/
theorem next_other {e : FailoverEvent B}
    (hsend : ∀ task view healthy, e ≠ .sendReq task view healthy) (hok : s.Steady c e)
    (h : s.next e = some s') :
    s'.inner.stateless = s.inner.stateless ∧ s'.inner.nextNode = s.inner.nextNode := by
  cases e with
  | retry view healthy => exact next_retry hok h
  | sendReq task view healthy => exact absurd rfl (hsend task view healthy)
  | redirect task addr retryCount maxRetries => exact hok.elim
  | resubmit task lastIndex view healthy =>
    cases next_cases h with
    | resubmit _ hview hsel =>
      rw [(start_view _ _ _).1]
      exact ⟨rfl, rfl⟩
  | dispose i work outcome =>
    cases next_cases h with
    | done _ _ => exact ⟨rfl, rfl⟩
    | failed _ _ _ =>
      rw [(errorHandle_view _).1]
      exact ⟨rfl, rfl⟩
  | getOrAddAddr addr =>
    cases next_cases h with
    | addAddr hadd =>
      rcases FailoverPoolInner.getOrAddAddr_cases hadd with ⟨rfl, -⟩ | ⟨-, hst, hnode, -⟩
      · exact ⟨rfl, rfl⟩
      · exact ⟨hst, hnode⟩
  | updateAddrs addrs =>
    cases next_cases h with
    | updateAddrs hupd =>
      obtain ⟨hst, hnode, -⟩ := FailoverPoolInner.updateAddrs_spec hupd
      exact ⟨hst, hnode⟩
  | drop =>
    cases next_cases h
    exact ⟨rfl, rfl⟩
  | workerExit =>
    cases next_cases h
    exact ⟨rfl, rfl⟩

/-- The counter has moved on by the first selections, and they have chosen the pools
whose turn it was. -/
structure Counted (c : ClusterConfig) (start : UInt64) (s : FailoverPool B) (x : FirstSelections) :
    Prop where
  stateless : s.inner.stateless = true
  nextNode : s.inner.nextNode = start + UInt64.ofNat x.count
  chosen : x.chosen = (List.range x.count).filterMap fun i => c.turnOf (start + UInt64.ofNat i)

theorem Counted.step {start : UInt64} {x : FirstSelections} (hne : c.pools ≠ [])
    (h : Counted c start s x) {e : FailoverEvent B} (hok : s.Steady c e)
    (hnext : s.next e = some s') : Counted c start s' (x.update s e) := by
  by_cases hsend : ∀ task view healthy, e ≠ .sendReq task view healthy
  · have hsame : x.update s e = x := by
      cases e with
      | sendReq task view healthy => exact absurd rfl (hsend task view healthy)
      | _ => rfl
    obtain ⟨hst, hnode⟩ := next_other hsend hok hnext
    rw [hsame]
    exact ⟨hst.trans h.stateless, hnode.trans h.nextNode, h.chosen⟩
  · push Not at hsend
    obtain ⟨task, view, healthy, rfl⟩ := hsend
    obtain ⟨hst, hnode, hhanded⟩ := next_sendReq h.stateless hne hok.1 hok.2 hnext
    refine ⟨hst, ?_, ?_⟩
    · change s'.inner.nextNode = start + UInt64.ofNat (x.count + 1)
      rw [hnode, h.nextNode, UInt64.ofNat_add, UInt64.add_assoc]
      rfl
    · change x.chosen ++ _ = (List.range (x.count + 1)).filterMap _
      rw [hhanded, h.nextNode, List.range_succ, List.filterMap_append, ← h.chosen]
      rcases hturn : c.turnOf (start + UInt64.ofNat x.count) with _ | p
      · simp [hturn]
      · simp [hturn]

/-! ## Counting -/

omit [ClientTask B] in
theorem count_lt_and (P : ℕ → Prop) [DecidablePred P] (b n : ℕ) :
    Nat.count (fun i => i < b ∧ P i) n = Nat.count P (min n b) := by
  rw [Nat.count_eq_card_filter_range, Nat.count_eq_card_filter_range]
  refine congrArg Finset.card (Finset.ext fun i => ?_)
  simp only [Finset.mem_filter, Finset.mem_range, lt_min_iff, and_assoc]

omit [ClientTask B] in
/-- How often a pool has had its turn: the selections at the end of `usize` do not
count. -/
theorem count_turns (hnodup : c.pools.Nodup) {j : ℕ} (hj : j < c.pools.length) {start : UInt64}
    {n : ℕ} (hwrap : start.toNat + n < 2 ^ 64) :
    ((List.range n).filterMap fun i => c.turnOf (start + UInt64.ofNat i)).count c.pools[j] =
      Nat.count (fun i => (start.toNat + i) % c.pools.length = j)
        (min n (2 ^ 64 - c.pools.length - start.toNat)) := by
  rw [← count_lt_and, List.count_filterMap, Nat.count]
  refine List.countP_congr fun i hi => ?_
  have hi := List.mem_range.mp hi
  have hcounter : (start + UInt64.ofNat i).toNat = start.toNat + i := by
    rw [UInt64.toNat_add, UInt64.toNat_ofNat', Nat.add_mod_mod, Nat.mod_eq_of_lt (by omega)]
  have hfits : start.toNat + i + c.pools.length < 2 ^ 64 ↔
      i < 2 ^ 64 - c.pools.length - start.toNat := by omega
  have hmod : (start.toNat + i) % c.pools.length < c.pools.length :=
    Nat.mod_lt _ (Nat.lt_of_le_of_lt (Nat.zero_le j) hj)
  rw [beq_iff_eq, decide_eq_true_iff, ClusterConfig.turnOf, hcounter, ← hfits]
  split
  · rename_i hlt
    rw [List.getElem?_eq_getElem hmod, Option.some_inj, hnodup.getElem_inj_iff]
    exact ⟨fun h => ⟨hlt, h⟩, fun h => h.2⟩
  · rename_i hlt
    exact iff_of_false nofun fun h => hlt h.1

/-- **Round-robin is fair, but for the end of `usize`.** In stateless mode, from any value
of the counter, in every run in which the first selections meet healthy pools of one
view, interleaved with retries under the version of their task and without redirects: if
the counter does not wrap, every pool is chosen by the `n` first selections `n / l` times,
rounded down or up, exactly if those that still find their range of indices within
`usize` make as many full rounds. -/
theorem round_robin_fair_iff {addrs : List String} {stateless : Bool} {inner : FailoverPoolInner}
    {retryLimit : ℕ} {s₀ : FailoverPool B}
    (hnew : FailoverPoolInner.new addrs stateless = some inner)
    (hreach : Lts.Reach next (fun _ _ => True) (new inner retryLimit) s₀)
    (hstateless : s₀.inner.stateless = true) (hc : c ∈ s₀.published) (hne : c.pools ≠ [])
    (start : UInt64) {x : FirstSelections}
    (hrun : Lts.Reach selecting (fun q e => q.1.Steady c e)
      ({ s₀ with inner := { s₀.inner with nextNode := start } }, ⟨0, []⟩) (s, x))
    (hwrap : start.toNat + x.count < 2 ^ 64) :
    x.Fair c ↔ x.count / c.pools.length =
      min x.count (2 ^ 64 - c.pools.length - start.toNat) / c.pools.length := by
  have hnodup := nodup_of_reach hnew hreach hc
  have hcounted : Counted c start s x := by
    refine hrun.invariant (I := fun q => Counted c start q.1 q.2)
      ⟨hstateless, (UInt64.add_zero start).symm, rfl⟩ ?_
    rintro ⟨s, x⟩ e ⟨s', x'⟩ hcounted hok hnext
    obtain ⟨hnext, rfl⟩ := Lts.watch_eq_some.mp hnext
    exact hcounted.step hne hok hnext
  rw [← Cyclic.even_iff (List.length_pos_iff.mpr hne) (Nat.min_le_left _ _) start.toNat,
    FirstSelections.Fair, List.forall_mem_iff_getElem]
  refine forall₂_congr fun j hj => ?_
  rw [hcounted.chosen, count_turns hnodup hj hwrap]

/-- Two nodes in stateless mode, the counter set to this value. -/
def twoStateless (start : UInt64) : FailoverPool APIClientReq :=
  .new { pools := twoNodes, stateless := true, nextNode := start, nextPool := 2 } 3

/-- A request is sent while both nodes are healthy. -/
theorem selects_twoNodes {s : FailoverPool APIClientReq} {x : FirstSelections}
    (halive : s.alive = true) (hview : s.published[0]? = some twoNodes)
    (hstateless : s.inner.stateless = true) :
    ∃ (e : FailoverEvent APIClientReq) (s' : FailoverPool APIClientReq),
      s.Steady twoNodes e ∧
      selecting (s, x) e =
        some (s', ⟨x.count + 1, x.chosen ++ (twoNodes.turnOf s.inner.nextNode).toList⟩) ∧
      s'.alive = true ∧ s'.published[0]? = some twoNodes ∧ s'.inner.stateless = true ∧
      s'.inner.nextNode = s.inner.nextNode + 1 := by
  let e : FailoverEvent APIClientReq := .sendReq ⟨0, 0, .new "calc.add" [1]⟩ 0 fun _ => true
  have hnext : ∃ s', s.next e = some s' ∧ s'.alive = true ∧ s'.published = s.published := by
    simp only [e, next, halive, hview, Option.bind_eq_bind, Option.bind_some]
    refine ⟨_, rfl, ?_⟩
    rw [start.eq_def]
    split
    · exact ⟨rfl, rfl⟩
    · exact ⟨rfl, rfl⟩
  obtain ⟨s', hnext, halive', hpublished⟩ := hnext
  obtain ⟨hst, hnode, hhanded⟩ :=
    next_sendReq hstateless (by decide) hview (fun _ _ => rfl) hnext
  refine ⟨e, s', ⟨hview, fun _ _ => rfl⟩, Lts.watch_eq_some.mpr ⟨hnext, ?_⟩, halive', ?_, hst,
    hnode⟩
  · rw [← hhanded]
    rfl
  · rw [hpublished]
    exact hview

/-- Two requests, one after the other. -/
theorem reach_twoSends (start : UInt64) :
    ∃ s : FailoverPool APIClientReq,
      Lts.Reach selecting (fun q e => q.1.Steady twoNodes e) (twoStateless start, ⟨0, []⟩)
        (s, ⟨2, (twoNodes.turnOf start).toList ++ (twoNodes.turnOf (start + 1)).toList⟩) := by
  obtain ⟨e₁, s₁, hok₁, hnext₁, halive, hview, hst, hnode⟩ :=
    selects_twoNodes (s := twoStateless start) (x := ⟨0, []⟩) rfl rfl rfl
  obtain ⟨e₂, s₂, hok₂, hnext₂, -⟩ := selects_twoNodes (x := ⟨1, _⟩) halive hview hst
  rw [hnode] at hnext₂
  exact ⟨s₂, .step e₂ (.step e₁ .init hok₁ hnext₁) hok₂ hnext₂⟩

/-- From 5 on, each of the two nodes is chosen once. -/
theorem round_robin_fair_from_five :
    ∃ (s : FailoverPool APIClientReq) (x : FirstSelections),
      Lts.Reach selecting (fun q e => q.1.Steady twoNodes e) (twoStateless 5, ⟨0, []⟩) (s, x) ∧
      x.count = 2 ∧ x.Fair twoNodes := by
  obtain ⟨s, hrun⟩ := reach_twoSends 5
  have hnew : FailoverPoolInner.new ["a", "b"] true =
      some { pools := twoNodes, stateless := true, nextNode := 0, nextPool := 2 } := rfl
  have hreach : Lts.Reach next (fun _ _ => True)
      (new { pools := twoNodes, stateless := true, nextNode := 0, nextPool := 2 } 3)
      (new { pools := twoNodes, stateless := true, nextNode := 0, nextPool := 2 } 3 :
        FailoverPool APIClientReq) := .init
  exact ⟨s, _, hrun, rfl, (round_robin_fair_iff hnew hreach rfl
    List.mem_cons_self (by decide) 5 hrun (by decide)).mpr (by decide)⟩

/-- From `usize::MAX - 2` on, where the counter does not wrap either, the second request
finds no node: one of the two is not chosen at all. -/
theorem round_robin_unfair_at_end :
    ∃ (s : FailoverPool APIClientReq) (x : FirstSelections),
      Lts.Reach selecting (fun q e => q.1.Steady twoNodes e)
        (twoStateless 18446744073709551613, ⟨0, []⟩) (s, x) ∧
      18446744073709551613 + x.count < 2 ^ 64 ∧ ¬ x.Fair twoNodes := by
  obtain ⟨s, hrun⟩ := reach_twoSends 18446744073709551613
  exact ⟨s, _, hrun, by decide, by decide⟩

end FailoverPool

end RazorRpc
