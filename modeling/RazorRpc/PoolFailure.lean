import RazorRpc.PoolWorkers

/-!
# When a worker fails

A worker that cannot connect, ping or send calls `set_err` and goes back to
`connect`, or ends. "Don't cleanup the channel unless only one worker left", say
the comments of `run`; a pool's workers run "until ConnPool is dropped", says its
documentation. Both are looked at only on some of the ways round the loop.

* `Worker.isCleaning`, `Worker.isRetrying` — on the way through `cleanup`, and
  back to `connect`;
* `ConnPool.CleansAlone` — whoever empties the channel is the only worker;
* `ConnPool.Attempts` — the connects begun since the handles are gone.

The results are `cleansAlone_of_lone` and `attempts_le_one`.
-/

namespace RazorRpc

variable {B : Type}

namespace Worker

/-- Between a failure and the end of the `cleanup` that follows. -/
def isCleaning (w : Worker B) : Bool :=
  match w.pos with
  | .failing (.clean _) | .cleaning _ => true
  | _ => false

/-- A failure that `cleanup` follows: of a connect, of the ping of a monitor that
is alone, of a send of the monitor. -/
def failsToClean (answer : Bool) (w : Worker B) : Bool :=
  !answer &&
    match w.pos with
    | .connecting => true
    | .pinging alone => alone
    | .sending _ => w.workerId == 0
    | _ => false

/-- Between a failure and the next `connect`. -/
def isRetrying (w : Worker B) : Bool :=
  match w.pos with
  | .failing .reconnect | .failing (.clean _) | .cleaning _ | .sleeping => true
  | _ => false

/-- A failure that `connect` follows. -/
def failsToRetry (answer : Bool) (w : Worker B) : Bool :=
  !answer &&
    match w.pos with
    | .connecting | .pinging _ => true
    | .sending _ => w.workerId == 0
    | _ => false

def isConnecting (w : Worker B) : Bool :=
  match w.pos with
  | .connecting => true
  | _ => false

variable {connected answer : Bool} {w : Worker B} {pos : WorkerAt B}

theorem isLive_of_isCleaning (h : w.isCleaning = true) : w.isLive = true := by
  obtain ⟨id, pos⟩ := w
  cases pos with
  | ended => cases h
  | _ => rfl

theorem Move.isCleaning (hmove : Move connected answer w pos)
    (h : Worker.isCleaning { w with pos } = true) :
    w.isCleaning = true ∨ w.failsToClean answer = true := by
  cases hmove with
  | refused _ ha | unsentMonitor _ ha =>
    subst ha
    exact Or.inr rfl
  | noPong _ alone ha =>
    subst ha
    cases alone with
    | true => exact Or.inr rfl
    | false => cases h
  | fail _ after =>
    cases after with
    | clean _ => exact Or.inl rfl
    | reconnect | exit => cases h
  | clean _ _ | cleaned _ _ => exact Or.inl rfl
  | flushed _ b _ | leave _ b => cases b <;> cases h
  | _ => cases h

theorem Move.isRetrying (hmove : Move connected answer w pos)
    (h : Worker.isRetrying { w with pos } = true) :
    w.isRetrying = true ∨ w.failsToRetry answer = true := by
  cases hmove with
  | refused _ ha | noPong _ _ ha | unsentMonitor _ ha =>
    subst ha
    exact Or.inr rfl
  | fail _ after =>
    cases after with
    | reconnect | clean _ => exact Or.inl rfl
    | exit => cases h
  | clean _ _ | cleaned _ _ => exact Or.inl rfl
  | flushed _ b _ | leave _ b => cases b <;> cases h
  | _ => cases h

/-- A worker comes to `connect` only from a failure. -/
theorem Move.isConnecting (hmove : Move connected answer w pos)
    (h : Worker.isConnecting { w with pos } = true) : w.isRetrying = true := by
  cases hmove with
  | fail _ after =>
    cases after with
    | reconnect | clean _ => rfl
    | exit => cases h
  | cleaned _ _ | slept _ => rfl
  | noPong _ b _ | flushed _ b _ | leave _ b => cases b <;> cases h
  | _ => cases h

end Worker

namespace ConnPool

/-! ## Emptying the channel -/

/-- A worker in `cleanup` is the only one. -/
def CleansAlone (p : ConnPool B) : Prop :=
  ∀ (i : ℕ) (w : Worker B), p.workers[i]? = some w → w.isCleaning = true →
    p.inner.workerCount = 1 ∧
      ∀ (j : ℕ) (v : Worker B), p.workers[j]? = some v → v.isLive = true → j = i

/-- Only a lone worker fails in a way that `cleanup` follows, and no worker is
spawned until it is done. -/
def LoneFailure (p : ConnPool B) : PoolEvent B → Prop
  | .spawn => p.Spawnable .spawn ∧ ∀ w ∈ p.workers, w.isCleaning = false
  | .worker i answer =>
    ∀ w ∈ p.workers[i]?, w.failsToClean answer = true → p.inner.workerCount = 1
  | _ => True

instance (p : ConnPool B) (e : PoolEvent B) : Decidable (p.LoneFailure e) :=
  match e with
  | .spawn => inferInstanceAs (Decidable (_ ∧ _))
  | .worker i answer => inferInstanceAs (Decidable (∀ w ∈ p.workers[i]?,
      w.failsToClean answer = true → p.inner.workerCount = 1))
  | .sendReq _ | .dropHandles | .dropInner => inferInstanceAs (Decidable True)

theorem LoneFailure.spawnable {p : ConnPool B} {e : PoolEvent B} (h : p.LoneFailure e) :
    p.Spawnable e := by
  cases e with
  | spawn => exact h.1
  | _ => trivial

theorem eq_of_isLive {p : ConnPool B} (hone : p.liveWorkers = 1) {i j : ℕ} {w v : Worker B}
    (hw : p.workers[i]? = some w) (hlive : w.isLive = true) (hv : p.workers[j]? = some v)
    (hlive' : v.isLive = true) : j = i := by
  by_contra hne
  have hset := countP_set_add Worker.isLive hw { w with pos := .ended }
  rw [hlive, ← liveWorkers, hone] at hset
  have hzero : (p.workers.set i { w with pos := .ended }).countP Worker.isLive = 0 :=
    Nat.add_right_cancel hset
  have hmem : v ∈ p.workers.set i { w with pos := .ended } := by
    refine List.mem_of_getElem? (i := j) ?_
    rw [List.getElem?_set_ne (Ne.symm hne)]
    exact hv
  exact List.countP_eq_zero.mp hzero v hmem hlive'

theorem Bookkept.eq_of_isLive {p : ConnPool B} (h : p.Bookkept) (hone : p.inner.workerCount = 1)
    {i j : ℕ} {w v : Worker B} (hw : p.workers[i]? = some w) (hlive : w.isLive = true)
    (hv : p.workers[j]? = some v) (hlive' : v.isLive = true) : j = i := by
  refine ConnPool.eq_of_isLive ?_ hw hlive hv hlive'
  rw [← h.count, hone]
  rfl

/-- A lone worker cannot be in two places. -/
theorem Bookkept.not_beside {p : ConnPool B} (h : p.Bookkept) (hone : p.inner.workerCount = 1)
    {i : ℕ} {w v : Worker B} (hw : p.workers[i]? = some w) (hlive : w.isLive = true)
    (hclean : w.isCleaning = false) (hv : v ∈ p.workers) : v.isCleaning = false := by
  by_contra hclean'
  rw [Bool.not_eq_false] at hclean'
  obtain ⟨j, hj⟩ := List.mem_iff_getElem?.mp hv
  obtain rfl := h.eq_of_isLive hone hw hlive hj (Worker.isLive_of_isCleaning hclean')
  rw [hw] at hj
  cases hj
  rw [hclean] at hclean'
  cases hclean'

/-- Whoever is in `cleanup` has found `worker_count` to be 1. -/
def LoneCleaning (p : ConnPool B) : Prop :=
  ∀ w ∈ p.workers, w.isCleaning = true → p.inner.workerCount = 1

theorem LoneCleaning.worker {p : ConnPool B} (h : p.LoneCleaning) (hbook : p.Bookkept) {i : ℕ}
    {answer : Bool} {w : Worker B} {r : Stepped B} (hw : p.workers[i]? = some w)
    (hok : w.failsToClean answer = true → p.inner.workerCount = 1) (hturn : w.Turn answer p.inner r) :
    LoneCleaning
      { p with inner := r.inner, workers := p.workers.set i r.worker ++ r.spawned.toList } := by
  have hmem := List.mem_of_getElem? hw
  intro v hv hclean
  cases hturn with
  | moves hmove hcount _ =>
    rw [hcount]
    rcases mem_step none hv with hv | rfl | hv
    · exact h v hv hclean
    · rcases hmove.isCleaning hclean with hclean | hfails
      · exact h w hmem hclean
      · exact hok hfails
    · cases hv
  | takesOver hpos hone =>
    obtain ⟨id, pos⟩ := w
    subst hpos
    rcases mem_step (some (.spawn 0)) hv with hv | rfl | hv
    · rw [hbook.not_beside hone hw rfl rfl hv] at hclean
      cases hclean
    · cases hclean
    · cases hv
      cases hclean
  | exits hpos =>
    obtain ⟨id, pos⟩ := w
    subst hpos
    rcases mem_step none hv with hv | rfl | hv
    · rw [hbook.not_beside (h v hv hclean) hw rfl rfl hv] at hclean
      cases hclean
    · cases hclean
    · cases hv

variable [ClientTask B]

theorem LoneCleaning.next {p p' : ConnPool B} (h : p.LoneCleaning) (hbook : p.Bookkept)
    {e : PoolEvent B} (hok : p.LoneFailure e) (hnext : p.next e = some p') : p'.LoneCleaning := by
  cases turn_of_next hnext with
  | spawn _ =>
    intro w hw hclean
    rcases List.mem_append.mp hw with hw | hw
    · rw [hok.2 w hw] at hclean
      cases hclean
    · rw [List.mem_singleton.mp hw] at hclean
      cases hclean
  | worker hw hturn => exact h.worker hbook hw (hok _ hw) hturn
  | aside hworkers hcount _ =>
    intro w hw hclean
    rw [hworkers] at hw
    rw [hcount]
    exact h w hw hclean

/-- **The channel is emptied by the last worker**, in every run in which only a
lone worker fails to connect, to ping alone or to send as the monitor, and none is
spawned before its `cleanup` is over. -/
theorem cleansAlone_of_lone {thresholds channelSize : ℕ} {p : ConnPool B}
    (h : Lts.Reach next LoneFailure (new thresholds channelSize) p) : p.CleansAlone := by
  obtain ⟨hbook, hlone⟩ : p.Bookkept ∧ p.LoneCleaning := by
    refine h.invariant (I := fun p => p.Bookkept ∧ p.LoneCleaning) ⟨bookkept_new _ _, ?_⟩ ?_
    · intro w hw hclean
      rw [List.mem_singleton.mp hw] at hclean
      cases hclean
    · intro q e q' hq hok hnext
      exact ⟨hq.1.next hok.spawnable hnext, hq.2.next hq.1 hok hnext⟩
  intro i w hw hclean
  have hone := hlone w (List.mem_of_getElem? hw) hclean
  have hlive := Worker.isLive_of_isCleaning hclean
  exact ⟨hone, fun j v hv hlive' => hbook.eq_of_isLive hone hw hlive hv hlive'⟩

/-- The only worker fails to connect. -/
def refused : List (PoolEvent APIClientReq) :=
  [.sendReq ⟨0, 0, .new "calc.add" [1]⟩, .worker 0 false, .worker 0 false]

theorem cleansAlone_of_refused :
    ∃ p : ConnPool APIClientReq, Lts.Reach next LoneFailure (new 128 0) p ∧
      p.workers.map Worker.isCleaning = [true] ∧ p.CleansAlone := by
  have hrun : (Lts.exec next LoneFailure (new 128 0) refused).any
      (fun p => p.workers.map Worker.isCleaning == [true]) = true := by decide +kernel
  obtain ⟨p, hreach, htest⟩ := Lts.Reach.exists_of_exec hrun
  exact ⟨p, hreach, beq_iff_eq.mp htest, cleansAlone_of_lone hreach⟩

/-- Worker 1 is connected and waits for tasks; worker 0 fails to connect. -/
def refusedBeside : List (PoolEvent APIClientReq) :=
  [.spawn, .worker 1 true, .worker 1 true, .worker 0 false,
    .sendReq ⟨0, 0, .new "calc.add" [1]⟩, .worker 0 false, .worker 0 false]

/-- A failed connect empties the channel that another worker serves: the task in it
has been failed with `Unreachable`, and two workers are alive. -/
theorem cleans_beside_server :
    ∃ p : ConnPool APIClientReq, Lts.Reach next (fun _ _ => True) (new 128 0) p ∧
      p.inner.handled.length = 1 ∧ p.inner.workerCount = 2 ∧ ¬ p.CleansAlone := by
  have hrun : (Lts.exec next (fun _ _ => True) (new 128 0) refusedBeside).any
      (fun p => decide (p.inner.handled.length = 1 ∧ p.inner.workerCount = 2 ∧
        p.workers[0]?.any Worker.isCleaning = true)) = true := by decide +kernel
  obtain ⟨p, hreach, htest⟩ := Lts.Reach.exists_of_exec hrun
  obtain ⟨hhandled, htwo, hclean⟩ := of_decide_eq_true htest
  refine ⟨p, hreach, hhandled, htwo, fun halone => ?_⟩
  obtain ⟨w, hw, hclean⟩ := (Option.any_eq_true _ _).mp hclean
  have hone := (halone 0 w hw hclean).1
  rw [htwo] at hone
  cases hone

/-! ## After the last handle -/

/-- The connects each worker has begun since the handles are gone. -/
abbrev Attempts := ℕ → ℕ

/-- Worker `i` has begun to connect. -/
def beginsConnect (p p' : ConnPool B) (i : ℕ) : Bool :=
  p'.workers[i]?.any Worker.isConnecting && !p.workers[i]?.any Worker.isConnecting

def Attempts.update (x : Attempts) (p : ConnPool B) (e : PoolEvent B) : Attempts :=
  match p.inner.connected, p.next e with
  | false, some p' => fun i => x i + (p.beginsConnect p' i).toNat
  | _, _ => x

/-- Once a worker has begun to connect after the drop, nothing fails it that makes
it connect again. -/
def LastAttempt (px : ConnPool B × Attempts) : PoolEvent B → Prop
  | .worker i answer => 0 < px.2 i → ∀ w ∈ px.1.workers[i]?, w.failsToRetry answer = false
  | _ => True

instance (px : ConnPool B × Attempts) (e : PoolEvent B) : Decidable (LastAttempt px e) :=
  match e with
  | .worker i answer => inferInstanceAs (Decidable (0 < px.2 i → ∀ w ∈ px.1.workers[i]?,
      w.failsToRetry answer = false))
  | .spawn | .sendReq _ | .dropHandles | .dropInner => inferInstanceAs (Decidable True)

theorem Attempts.update_cases {x : Attempts} {p p' : ConnPool B} {e : PoolEvent B}
    (hnext : p.next e = some p') (i : ℕ) :
    x.update p e i = x i ∨ p.beginsConnect p' i = true ∧ x.update p e i = x i + 1 := by
  rw [Attempts.update, hnext]
  cases p.inner.connected with
  | true => exact Or.inl rfl
  | false =>
    cases hbegins : p.beginsConnect p' i with
    | true => exact Or.inr ⟨rfl, congrArg (fun b => x i + b.toNat) hbegins⟩
    | false => exact Or.inl (congrArg (fun b => x i + b.toNat) hbegins)

/-- Worker `i` has begun no connect since the drop, or one, and is not about to
begin another. -/
def Spent (i : ℕ) (px : ConnPool B × Attempts) : Prop :=
  px.2 i = 0 ∨ px.2 i = 1 ∧ ∃ w, px.1.workers[i]? = some w ∧ w.isRetrying = false

/-- A worker that is not on its way back to `connect` does not begin one. -/
theorem not_beginsConnect {p p' : ConnPool B} {e : PoolEvent B} (hnext : p.next e = some p')
    {i : ℕ} {w : Worker B} (hw : p.workers[i]? = some w) (hretry : w.isRetrying = false) :
    p.beginsConnect p' i = false := by
  rw [beginsConnect, hw]
  rcases (turn_of_next hnext).getElem? hw with hw' | ⟨answer, r, -, hturn, hw'⟩
  · rw [hw']
    exact Bool.and_not_self _
  · rw [hw', Bool.and_eq_false_iff]
    refine Or.inl ?_
    cases hturn with
    | moves hmove _ _ =>
      by_contra hconnecting
      rw [hmove.isConnecting (Bool.not_eq_false _ ▸ hconnecting)] at hretry
      cases hretry
    | takesOver _ _ | exits _ => rfl

theorem not_isRetrying_next {p p' : ConnPool B} {x : Attempts} {e : PoolEvent B} {i : ℕ}
    {w : Worker B} (hok : LastAttempt (p, x) e) (hnext : p.next e = some p')
    (hw : p.workers[i]? = some w) (hretry : w.isRetrying = false) (hpos : 0 < x i) :
    ∃ w', p'.workers[i]? = some w' ∧ w'.isRetrying = false := by
  rcases (turn_of_next hnext).getElem? hw with hw' | ⟨answer, r, rfl, hturn, hw'⟩
  · exact ⟨w, hw', hretry⟩
  · refine ⟨r.worker, hw', ?_⟩
    cases hturn with
    | moves hmove _ _ =>
      by_contra hagain
      rw [Bool.not_eq_false] at hagain
      rcases hmove.isRetrying hagain with hagain | hfails
      · rw [hretry] at hagain
        cases hagain
      · rw [hok hpos w hw] at hfails
        cases hfails
    | takesOver _ _ | exits _ => rfl

theorem Spent.next {i : ℕ} {p p' : ConnPool B} {x : Attempts} {e : PoolEvent B}
    (h : Spent i (p, x)) (hok : LastAttempt (p, x) e) (hnext : p.next e = some p') :
    Spent i (p', x.update p e) := by
  rcases Attempts.update_cases (x := x) hnext i with hsame | ⟨hbegins, hmore⟩
  · rcases h with hzero | ⟨hone, w, hw, hretry⟩
    · exact Or.inl (hsame.trans hzero)
    · have hpos : 0 < x i := Nat.lt_of_lt_of_eq Nat.one_pos hone.symm
      exact Or.inr ⟨hsame.trans hone, not_isRetrying_next hok hnext hw hretry hpos⟩
  · rcases h with hzero | ⟨-, w, hw, hretry⟩
    · refine Or.inr ⟨hmore.trans (congrArg (· + 1) hzero), ?_⟩
      rw [beginsConnect, Bool.and_eq_true] at hbegins
      obtain ⟨w', hw', hconnecting⟩ := (Option.any_eq_true _ _).mp hbegins.1
      refine ⟨w', hw', ?_⟩
      obtain ⟨id, pos⟩ := w'
      cases pos with
      | connecting => rfl
      | _ => cases hconnecting
    · rw [not_beginsConnect hnext hw hretry] at hbegins
      cases hbegins

/-- A worker that has not ended can go on. -/
theorem step_of_dropped {inner : ConnPoolInner B} (hconn : inner.connected = false) (i : ℕ)
    {w : Worker B} (hlive : w.isLive = true) : (w.step i true inner).isSome = true := by
  obtain ⟨id, pos⟩ := w
  cases pos with
  | receiving | serving =>
    rw [Worker.step]
    cases hrx : inner.rx with
    | nil => simp only [hconn]; rfl
    | cons _ _ => rfl
  | cleaning nap =>
    rw [Worker.step]
    cases hclean : inner.cleanupOne with
    | none => rfl
    | some _ => rfl
  | draining =>
    rw [Worker.step]
    cases hrx : inner.rx with
    | nil => rfl
    | cons _ _ => rfl
  | takingOver task =>
    simp only [Worker.step]
    split <;> rfl
  | received task =>
    simp only [Worker.step]
    split <;> rfl
  | ended => cases hlive
  | _ => rfl

/-- **A pool that is gone is left alone**: since the last handle was dropped no
worker has begun more than one connect, and each that has not ended can go on, in
every run in which nothing fails on the connection a worker has begun since. -/
theorem attempts_le_one {thresholds channelSize : ℕ} {p : ConnPool B} {x : Attempts}
    (h : Lts.Reach (Lts.watch next Attempts.update) LastAttempt
      (new thresholds channelSize, fun _ => 0) (p, x)) :
    (∀ i, x i ≤ 1) ∧ (p.inner.connected = false →
      ∀ (i : ℕ) (w : Worker B), p.workers[i]? = some w → w.isLive = true →
        (p.next (.worker i true)).isSome = true) := by
  constructor
  · intro i
    have hspent : Spent i (p, x) := by
      refine h.invariant (I := Spent i) (Or.inl rfl) fun px e px' hspent hok hnext => ?_
      obtain ⟨hnext, hupdate⟩ := Lts.watch_eq_some.mp hnext
      have hspent' := Spent.next hspent hok hnext
      rw [hupdate] at hspent'
      exact hspent'
    rcases hspent with hzero | ⟨hone, -⟩
    · exact (Nat.le_of_eq hzero).trans (Nat.zero_le 1)
    · exact Nat.le_of_eq hone
  · intro hconn i w hw hlive
    obtain ⟨r, hr⟩ := Option.isSome_iff_exists.mp (step_of_dropped hconn i hlive)
    rw [next, hw, Option.bind_eq_bind, Option.bind_some, hr]
    rfl

/-- Worker 0 fails to connect and sleeps; the pool is dropped; it begins another. -/
def droppedAsleep : List (PoolEvent APIClientReq) :=
  [.worker 0 false, .worker 0 true, .worker 0 true, .dropHandles, .worker 0 true]

/-- The address can be reached again, and the worker ends. -/
theorem attempts_le_one_answered :
    ∃ (p : ConnPool APIClientReq) (x : Attempts),
      Lts.Reach (Lts.watch next Attempts.update) LastAttempt (new 128 0, fun _ => 0) (p, x) ∧
      x 0 = 1 ∧ p.workers.map Worker.hasEnded = [true] ∧ ∀ i, x i ≤ 1 := by
  have hrun : (Lts.exec (Lts.watch next Attempts.update) LastAttempt (new 128 0, fun _ => 0)
      (droppedAsleep ++ List.replicate 4 (.worker 0 true))).any
      (fun px => decide (px.2 0 = 1 ∧ px.1.workers.map Worker.hasEnded = [true])) = true := by
    decide +kernel
  obtain ⟨⟨p, x⟩, hreach, htest⟩ := Lts.Reach.exists_of_exec hrun
  obtain ⟨hone, hended⟩ := of_decide_eq_true htest
  exact ⟨p, x, hreach, hone, hended, (attempts_le_one hreach).1⟩

/-- The address stays unreachable, and the worker begins a second connect. -/
theorem attempts_go_on :
    ¬ ∀ (p : ConnPool APIClientReq) (x : Attempts),
      Lts.Reach (Lts.watch next Attempts.update) (fun _ _ => True) (new 128 0, fun _ => 0) (p, x) →
        ∀ i, x i ≤ 1 := by
  have hrun : (Lts.exec (Lts.watch next Attempts.update) (fun _ _ => True) (new 128 0, fun _ => 0)
      (droppedAsleep ++ List.replicate 4 (.worker 0 false))).any
      (fun px => decide (px.2 0 = 2)) = true := by
    decide +kernel
  obtain ⟨⟨p, x⟩, hreach, htest⟩ := Lts.Reach.exists_of_exec hrun
  have htwo : x 0 = 2 := of_decide_eq_true htest
  intro hclaim
  have hle := hclaim p x hreach 0
  rw [htwo] at hle
  exact absurd hle (by decide)

end ConnPool

end RazorRpc
