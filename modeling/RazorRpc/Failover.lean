import RazorRpc.Cluster
import RazorRpc.Task
import Mathlib.Data.List.Nodup
import Mathlib.Data.List.Perm.Basic

/-!
# Failover and retry (`stream/src/client/failover.rs`)

A `FailoverPool` wraps each task in a `FailoverTask`, hands it to the `ConnPool`
that `select` chooses, and lets a retry worker hand it on when an attempt ends in
a retriable error. What a `ConnPool` does with a task is up to the event: it
works on it through the trait (`Access`) and disposes of it once, with an
`Outcome`.

* `FailoverTask`, `errorHandle` — the retry state of a task and its verdict;
* `FailoverPool` — the tasks in the pools, in the retry channel and completed;
* `Record` — the history of one submission; `InPool`, `Queued` and `Finished` say
  what it looks like in each place.
-/

namespace RazorRpc

/-! ## The task -/

/-- `FailoverTask`, around the user's task. -/
structure FailoverTask (B : Type) where
  lastIndex : UInt64
  configVer : UInt64
  inner : B
  /-- attempts that ended in a retriable error -/
  retry : ℕ
  shouldRetry : Bool
  /-- 0 for the default -/
  maxRetries : ℕ

instance {B : Type} [ClientTask B] : ClientTask (FailoverTask B) where
  getAction t := ClientTask.getAction t.inner
  encodeReq t := ClientTask.encodeReq t.inner
  getReqBlob t := ClientTask.getReqBlob t.inner
  decodeResp t buf :=
    let r := ClientTask.decodeResp t.inner buf
    ({ t with inner := r.1 }, r.2)
  reserveRespBlob t size :=
    let r := ClientTask.reserveRespBlob t.inner size
    ({ t with inner := r.1 }, r.2)
  fillRespBlob t blob := { t with inner := ClientTask.fillRespBlob t.inner blob }
  setCustomError t e _ _ :=
    { t with
      shouldRetry := false
      inner := ClientTask.setCustomError t.inner e t.lastIndex.toNat t.configVer }
  setRpcError t e :=
    let t := if e < .method then { t with shouldRetry := true, retry := t.retry + 1 }
      else { t with shouldRetry := false }
    { t with inner := ClientTask.setRpcError t.inner e }
  setOk t := { t with inner := ClientTask.setOk t.inner }

/-- What a connection does to a task before it disposes of it. -/
inductive Access : Type where
  | setSeq (seq : UInt64)
  | decodeResp (buf : List UInt8)
  | reserveRespBlob (size : Int32)
  | fillRespBlob (blob : List UInt8)

/-- How an attempt ends: `set_ok` and `done()`, or an error and `error_handle`. -/
inductive Outcome : Type where
  | ok
  | rpc (e : RpcIntErr)
  | custom (e : EncodedErr)

section

variable {B : Type} [ClientTask B]

def Access.apply (t : Task B) : Access → Task B
  | .setSeq seq => t.setSeq seq
  | .decodeResp buf => (t.decodeResp buf).1
  | .reserveRespBlob size => (t.reserveRespBlob size).1
  | .fillRespBlob blob => t.fillRespBlob blob

/-- The result set on a task. The route passed with a custom error is filled in
by `FailoverTask`. -/
def Outcome.set (t : Task B) : Outcome → Task B
  | .ok => t.setOk
  | .rpc e => t.setRpcError e
  | .custom e => t.setCustomError e 0 0

/-- The task shows this result. -/
def Outcome.Shows (t : Task B) : Outcome → Prop
  | .ok => ∃ t₀ : Task B, t = t₀.setOk
  | .rpc e => ∃ t₀ : Task B, t = t₀.setRpcError e
  | .custom e => ∃ (t₀ : Task B) (lastIndex : ℕ) (confVer : UInt64),
      t = t₀.setCustomError e lastIndex confVer

end

/-- The errors a task is retried after. -/
def Outcome.Retriable (o : Outcome) : Prop := ∃ e, o = .rpc e ∧ e < .method

/-- A task wrapped for an attempt at this index of this view. -/
def Task.wrap {B : Type} (t : Task B) (lastIndex configVer : UInt64) (retry maxRetries : ℕ) :
    Task (FailoverTask B) :=
  ⟨t.id, t.seq,
    { lastIndex, configVer, inner := t.body, retry, shouldRetry := false, maxRetries }⟩

/-- The user's task inside. -/
def Task.user {B : Type} (t : Task (FailoverTask B)) : Task B := ⟨t.id, t.seq, t.body.inner⟩

/-- The test of `error_handle`. -/
def FailoverTask.wantsRetry {B : Type} (t : FailoverTask B) (retryLimit : ℕ) : Bool :=
  let retryLimit := if 0 < t.maxRetries then t.maxRetries else retryLimit
  t.shouldRetry && decide (t.retry ≤ retryLimit)

/-! ## The pool -/

/-- A task as it was submitted. -/
structure Submission (B : Type) where
  task : Task B
  /-- what `retry` and `max_retries` start with -/
  retry : ℕ
  maxRetries : ℕ

/-- An attempt that has ended. -/
structure Attempt (B : Type) where
  id : ℕ
  outcome : Outcome
  /-- the user's task with the result set -/
  task : Task B

structure FailoverPool (B : Type) where
  inner : FailoverPoolInner
  retryLimit : ℕ
  /-- a handle is alive -/
  alive : Bool
  /-- the retry worker runs -/
  worker : Bool
  /-- the tasks the pools have been given and not disposed of -/
  inPools : List (Task (FailoverTask B))
  /-- the retry channel -/
  retryRx : List (Task (FailoverTask B))
  /-- ghost: the views published so far -/
  published : List ClusterConfig
  /-- ghost: the tasks submitted; their position is their identity -/
  submitted : List (Submission B)
  /-- ghost: which task was given to which pool -/
  handed : List (ℕ × PoolRef)
  /-- ghost -/
  attempts : List (Attempt B)
  /-- ghost: the calls of `inner.done()` -/
  completed : List (Task B)

/-- What happens next. A call works on the view it loaded, the `view`-th one
published, and asks each pool for its health. -/
inductive FailoverEvent (B : Type) : Type where
  /-- `send_req` or `send_req_blocking` -/
  | sendReq (task : Task B) (view : ℕ) (healthy : PoolRef → Bool)
  /-- `resubmit(task, Ok(addr), ..)` -/
  | redirect (task : Task B) (addr : String) (retryCount : ℕ) (maxRetries : Option ℕ)
  /-- `resubmit(task, Err(last_index), ..)` -/
  | resubmit (task : Task B) (lastIndex : UInt64) (view : ℕ) (healthy : PoolRef → Bool)
  /-- a pool disposes of a task -/
  | dispose (i : ℕ) (work : List Access) (outcome : Outcome)
  /-- the retry worker takes a task from its channel -/
  | retry (view : ℕ) (healthy : PoolRef → Bool)
  | getOrAddAddr (addr : String)
  | updateAddrs (addrs : List String)
  /-- the last handle is dropped -/
  | drop
  /-- the retry channel is disconnected: nothing holds its sender any more -/
  | workerExit

namespace FailoverPool

variable {B : Type}

/-- `FailoverPool::new`. -/
def new (inner : FailoverPoolInner) (retryLimit : ℕ) : FailoverPool B :=
  { inner, retryLimit, alive := true, worker := true, inPools := [], retryRx := []
    published := [inner.pools], submitted := [], handed := [], attempts := [], completed := [] }

/-- A task is given to a pool. -/
def hand (s : FailoverPool B) (pool : PoolRef) (t : Task (FailoverTask B)) : FailoverPool B :=
  { s with inPools := s.inPools ++ [t], handed := s.handed ++ [(t.id, pool)] }

/-- The pool that holds the `i`-th task is done with it. -/
def endAttempt (s : FailoverPool B) (i : ℕ) (a : Attempt B) : FailoverPool B :=
  { s with inPools := s.inPools.eraseIdx i, attempts := s.attempts ++ [a] }

/-- `inner.done()`. -/
def complete (s : FailoverPool B) (t : Task B) : FailoverPool B :=
  { s with completed := s.completed ++ [t] }

/-- A task is submitted. -/
def submit (s : FailoverPool B) (sub : Submission B) : FailoverPool B :=
  { s with submitted := s.submitted ++ [sub] }

/-- The view changes. -/
def publish (s : FailoverPool B) (inner : FailoverPoolInner) : FailoverPool B :=
  { s with inner, published := s.published ++ [inner.pools] }

/-- `FailoverFacts::error_handle`. -/
def errorHandle (s : FailoverPool B) (t : Task (FailoverTask B)) : FailoverPool B :=
  if t.body.wantsRetry s.retryLimit then
    if s.worker then { s with retryRx := s.retryRx ++ [t] } else s.complete t.user
  else s.complete t.user

variable [ClientTask B]

/-- What follows the selection for a new task: it goes to the pool selected, or
fails as unreachable. -/
def start (s : FailoverPool B) (task : Task B) (ver : UInt64) :
    Option (PoolRef × UInt64) → FailoverPool B
  | some (pool, index) => s.hand pool (task.wrap index ver 0 0)
  | none => s.complete (task.setRpcError .unreachable)

/-- What follows the selection of the retry worker. -/
def restart (s : FailoverPool B) (t : Task (FailoverTask B)) :
    Option (PoolRef × UInt64) → FailoverPool B
  | some (pool, index) => s.hand pool { t with body := { t.body with lastIndex := index } }
  | none => s.complete t.user

/-- The steps of a failover pool. -/
def next (s : FailoverPool B) : FailoverEvent B → Option (FailoverPool B)
  | .sendReq task view healthy =>
    if !s.alive then none
    else do
      let cluster ← s.published[view]?
      let task := { task with id := s.submitted.length }
      let r := cluster.select s.inner.stateless healthy s.inner.nextNode .start
      let s := { s with inner := { s.inner with nextNode := r.1 } }
      some ((s.submit ⟨task, 0, 0⟩).start task cluster.ver r.2)
  | .redirect task addr retryCount maxRetries =>
    if !s.alive then none
    else do
      let (inner, pool, index, ver) ← s.inner.getOrAddAddr addr
      let task := { task with id := s.submitted.length }
      let maxRetries := maxRetries.getD 0
      let s := s.publish { inner with nextNode := index }
      some ((s.submit ⟨task, retryCount, maxRetries⟩).hand pool
        (task.wrap index ver retryCount maxRetries))
  | .resubmit task lastIndex view healthy =>
    if !s.alive then none
    else do
      let cluster ← s.published[view]?
      let task := { task with id := s.submitted.length }
      let r := cluster.select s.inner.stateless healthy s.inner.nextNode (.after lastIndex)
      some ((s.submit ⟨task, 0, 0⟩).start task cluster.ver r.2)
  | .dispose i work outcome => do
    let t ← s.inPools[i]?
    let t := outcome.set (work.foldl Access.apply t)
    let s := s.endAttempt i ⟨t.id, outcome, t.user⟩
    match outcome with
    | .ok => some (s.complete t.user)
    | _ => some (s.errorHandle t)
  | .retry view healthy =>
    if !s.worker then none
    else
      match s.retryRx with
      | [] => none
      | t :: retryRx =>
        let s := { s with retryRx }
        if !s.alive then some (s.complete t.user)
        else do
          let cluster ← s.published[view]?
          let same := cluster.ver == t.body.configVer
          -- a view that has changed: restart the selection
          let t := if same then t else { t with body := { t.body with configVer := cluster.ver } }
          let route := if same then Route.after t.body.lastIndex else .start
          let r := cluster.select s.inner.stateless healthy s.inner.nextNode route
          let s := { s with inner := { s.inner with nextNode := r.1 } }
          some (s.restart t r.2)
  | .getOrAddAddr addr =>
    if !s.alive then none else (s.inner.getOrAddAddr addr).map fun r => s.publish r.1
  | .updateAddrs addrs => if !s.alive then none else (s.inner.updateAddrs addrs).map s.publish
  | .drop => some { s with alive := false }
  | .workerExit =>
    if !s.alive && s.inPools.isEmpty && s.retryRx.isEmpty then some { s with worker := false }
    else none

/-- The task a pool disposes of, with the result set. -/
def disposed (t : Task (FailoverTask B)) (work : List Access) (outcome : Outcome) :
    Task (FailoverTask B) :=
  outcome.set (work.foldl Access.apply t)

/-- The record of an attempt that ended so. -/
def attemptOf (t : Task (FailoverTask B)) (work : List Access) (outcome : Outcome) : Attempt B :=
  ⟨(disposed t work outcome).id, outcome, (disposed t work outcome).user⟩

/-- What a step of the pool can be. -/
inductive Step (s : FailoverPool B) : FailoverEvent B → FailoverPool B → Prop
  | sendReq {view : ℕ} {healthy : PoolRef → Bool} {cluster : ClusterConfig} {nextNode : UInt64}
      {found : Option (PoolRef × UInt64)} (task : Task B) (hview : s.published[view]? = some cluster)
      (hsel : cluster.select s.inner.stateless healthy s.inner.nextNode .start = (nextNode, found)) :
      Step s (.sendReq task view healthy)
        ((submit { s with inner := { s.inner with nextNode } }
          ⟨{ task with id := s.submitted.length }, 0, 0⟩).start
            { task with id := s.submitted.length } cluster.ver found)
  | redirect {addr : String} {inner : FailoverPoolInner} {pool : PoolRef} {index ver : UInt64}
      (task : Task B) (retryCount : ℕ) (maxRetries : Option ℕ)
      (hadd : s.inner.getOrAddAddr addr = some (inner, pool, index, ver)) :
      Step s (.redirect task addr retryCount maxRetries)
        (((s.publish { inner with nextNode := index }).submit
          ⟨{ task with id := s.submitted.length }, retryCount, maxRetries.getD 0⟩).hand pool
            (Task.wrap { task with id := s.submitted.length } index ver retryCount
              (maxRetries.getD 0)))
  | resubmit {lastIndex : UInt64} {view : ℕ} {healthy : PoolRef → Bool} {cluster : ClusterConfig}
      {found : Option (PoolRef × UInt64)} (task : Task B) (hview : s.published[view]? = some cluster)
      (hsel : (cluster.select s.inner.stateless healthy s.inner.nextNode (.after lastIndex)).2 =
        found) :
      Step s (.resubmit task lastIndex view healthy)
        ((s.submit ⟨{ task with id := s.submitted.length }, 0, 0⟩).start
          { task with id := s.submitted.length } cluster.ver found)
  | done {i : ℕ} {t : Task (FailoverTask B)} (work : List Access) (hget : s.inPools[i]? = some t) :
      Step s (.dispose i work .ok)
        ((s.endAttempt i (attemptOf t work .ok)).complete (disposed t work .ok).user)
  | failed {i : ℕ} {t : Task (FailoverTask B)} (work : List Access) {outcome : Outcome}
      (hne : outcome ≠ .ok) (hget : s.inPools[i]? = some t) :
      Step s (.dispose i work outcome)
        ((s.endAttempt i (attemptOf t work outcome)).errorHandle (disposed t work outcome))
  | giveUp {t : Task (FailoverTask B)} {rest : List (Task (FailoverTask B))} (view : ℕ)
      (healthy : PoolRef → Bool) (hrx : s.retryRx = t :: rest) :
      Step s (.retry view healthy) (complete { s with retryRx := rest } t.user)
  | retry {view : ℕ} {healthy : PoolRef → Bool} {t t' : Task (FailoverTask B)}
      {rest : List (Task (FailoverTask B))} {cluster : ClusterConfig} {route : Route}
      {nextNode : UInt64} {found : Option (PoolRef × UInt64)} (hrx : s.retryRx = t :: rest)
      (hview : s.published[view]? = some cluster)
      (htask : t' = { t with body := { t.body with configVer := cluster.ver } })
      (hsel : cluster.select s.inner.stateless healthy s.inner.nextNode route = (nextNode, found)) :
      Step s (.retry view healthy)
        (restart { s with retryRx := rest, inner := { s.inner with nextNode } } t' found)
  | addAddr {addr : String} {inner : FailoverPoolInner} {pool : PoolRef} {index ver : UInt64}
      (hadd : s.inner.getOrAddAddr addr = some (inner, pool, index, ver)) :
      Step s (.getOrAddAddr addr) (s.publish inner)
  | updateAddrs {addrs : List String} {inner : FailoverPoolInner}
      (hupd : s.inner.updateAddrs addrs = some inner) : Step s (.updateAddrs addrs) (s.publish inner)
  | drop : Step s .drop { s with alive := false }
  | workerExit : Step s .workerExit { s with worker := false }

theorem next_cases {s s' : FailoverPool B} {e : FailoverEvent B} (h : s.next e = some s') :
    Step s e s' := by
  cases e with
  | sendReq task view healthy =>
    simp only [next] at h
    split at h
    · cases h
    · obtain ⟨cluster, hview, h⟩ := Option.bind_eq_some_iff.mp h
      cases h
      exact .sendReq task hview rfl
  | redirect task addr retryCount maxRetries =>
    simp only [next] at h
    split at h
    · cases h
    · obtain ⟨⟨inner, pool, index, ver⟩, hadd, h⟩ := Option.bind_eq_some_iff.mp h
      cases h
      exact .redirect task retryCount maxRetries hadd
  | resubmit task lastIndex view healthy =>
    simp only [next] at h
    split at h
    · cases h
    · obtain ⟨cluster, hview, h⟩ := Option.bind_eq_some_iff.mp h
      cases h
      exact .resubmit task hview rfl
  | dispose i work outcome =>
    obtain ⟨t, hget, h⟩ := Option.bind_eq_some_iff.mp h
    cases outcome with
    | ok =>
      cases h
      exact .done work hget
    | rpc e =>
      cases h
      exact .failed work nofun hget
    | custom e =>
      cases h
      exact .failed work nofun hget
  | retry view healthy =>
    simp only [next] at h
    split at h
    · cases h
    · split at h
      · cases h
      · rename_i t rest hrx
        split at h
        · cases h
          exact .giveUp view healthy hrx
        · obtain ⟨cluster, hview, h⟩ := Option.bind_eq_some_iff.mp h
          cases h
          refine .retry hrx hview ?_ rfl
          -- a task of this very view has its version already
          split
          · rename_i hsame
            rw [eq_of_beq hsame]
          · rfl
  | getOrAddAddr addr =>
    simp only [next] at h
    split at h
    · cases h
    · obtain ⟨⟨inner, pool, index, ver⟩, hadd, rfl⟩ := Option.map_eq_some_iff.mp h
      exact .addAddr hadd
  | updateAddrs addrs =>
    simp only [next] at h
    split at h
    · cases h
    · obtain ⟨inner, hupd, rfl⟩ := Option.map_eq_some_iff.mp h
      exact .updateAddrs hupd
  | drop =>
    cases h
    exact .drop
  | workerExit =>
    simp only [next] at h
    split at h
    · cases h
      exact .workerExit
    · cases h

end FailoverPool

/-! ## One submission -/

/-- What is on record about one submission. -/
structure Record (B : Type) where
  sub : Option (Submission B)
  /-- how often it was given to a pool -/
  handed : ℕ
  attempts : List (Attempt B)

/-- The limit in force. -/
def Submission.limit {B : Type} (sub : Submission B) (retryLimit : ℕ) : ℕ :=
  if 0 < sub.maxRetries then sub.maxRetries else retryLimit

section

variable {B : Type}

/-- A task in a pool: one attempt is under way, and all before it ended in
retriable errors. -/
structure InPool (L : ℕ) (sub : Submission B) (r : Record B) (t : Task (FailoverTask B)) :
    Prop where
  sub_eq : r.sub = some sub
  maxRetries : t.body.maxRetries = sub.maxRetries
  handed : r.handed = r.attempts.length + 1
  retry : t.body.retry = sub.retry + r.attempts.length
  limit : r.attempts ≠ [] → t.body.retry ≤ sub.limit L
  retriable : ∀ a ∈ r.attempts, a.outcome.Retriable

variable {L : ℕ} {sub : Submission B} {r : Record B}

/-- A new task goes to a pool. -/
theorem inPool_wrap (sub : Submission B) (index ver : UInt64) :
    InPool L sub ⟨some sub, 1, []⟩ (sub.task.wrap index ver sub.retry sub.maxRetries) :=
  ⟨rfl, rfl, rfl, rfl, fun h => absurd rfl h, nofun⟩

/-- The budget of a submission is kept: it was given to pools as often as its limit
allows, and a further time only after a retriable error. -/
structure Within (L : ℕ) (sub : Submission B) (r : Record B) : Prop where
  limit : r.handed ≤ 1 ∨ sub.retry + r.handed ≤ sub.limit L + 1
  retriable : ∀ k, k + 1 < r.handed → ∃ a, r.attempts[k]? = some a ∧ a.outcome.Retriable

theorem InPool.within {t : Task (FailoverTask B)} (h : InPool L sub r t) : Within L sub r := by
  refine ⟨?_, fun k hk => ?_⟩
  · by_cases hnil : r.attempts = []
    · left
      rw [h.handed, hnil]
      rfl
    · right
      have := h.limit hnil
      rw [h.retry] at this
      rw [h.handed]
      omega
  · rw [h.handed] at hk
    have hlt : k < r.attempts.length := by omega
    exact ⟨_, List.getElem?_eq_getElem hlt, h.retriable _ (List.getElem_mem hlt)⟩

variable [ClientTask B]

/-- A task in the retry channel: its attempts have ended, and it may have one
more. -/
structure Queued (L : ℕ) (sub : Submission B) (r : Record B) (t : Task (FailoverTask B)) :
    Prop where
  sub_eq : r.sub = some sub
  maxRetries : t.body.maxRetries = sub.maxRetries
  handed : r.handed = r.attempts.length
  retry : t.body.retry = sub.retry + r.attempts.length
  limit : t.body.retry ≤ sub.limit L
  retriable : ∀ a ∈ r.attempts, a.outcome.Retriable
  result : ∃ a, r.attempts.getLast? = some a ∧ t.user = a.task ∧ a.outcome.Shows a.task

/-- The result of the last attempt, or `Unreachable` if there was none. -/
def Record.Result (r : Record B) (sub : Submission B) (d : Task B) : Prop :=
  match r.attempts.getLast? with
  | some a => d = a.task ∧ a.outcome.Shows a.task
  | none => d = sub.task.setRpcError .unreachable

/-- A completed task: its attempts were within the budget, and it shows the result
of the last one. -/
structure Finished (L : ℕ) (sub : Submission B) (r : Record B) (d : Task B) : Prop where
  sub_eq : r.sub = some sub
  handed : r.handed = r.attempts.length
  limit : r.handed ≤ 1 ∨ sub.retry + r.handed ≤ sub.limit L + 1
  retriable : ∀ a ∈ r.attempts.dropLast, a.outcome.Retriable
  result : r.Result sub d

/-- Work on a task leaves its retry state alone. -/
theorem retryState_foldl_apply (work : List Access) (t : Task (FailoverTask B)) :
    (work.foldl Access.apply t).id = t.id ∧
      (work.foldl Access.apply t).body.retry = t.body.retry ∧
      (work.foldl Access.apply t).body.maxRetries = t.body.maxRetries := by
  induction work generalizing t with
  | nil => exact ⟨rfl, rfl, rfl⟩
  | cons x work ih =>
    obtain ⟨hid, hretry, hmax⟩ := ih (Access.apply t x)
    rw [List.foldl_cons]
    cases x <;> exact ⟨hid, hretry, hmax⟩

/-- The user's task shows the result set on the task around it. -/
theorem Outcome.shows_user_set (t : Task (FailoverTask B)) (o : Outcome) :
    o.Shows (o.set t).user := by
  cases o with
  | ok => exact ⟨t.user, rfl⟩
  | rpc e =>
    refine ⟨t.user, ?_⟩
    by_cases he : e < .method
    · simp only [Outcome.set, Task.setRpcError, ClientTask.setRpcError, he, if_true]
      rfl
    · simp only [Outcome.set, Task.setRpcError, ClientTask.setRpcError, he, if_false]
      rfl
  | custom e => exact ⟨t.user, t.body.lastIndex.toNat, t.body.configVer, rfl⟩

/-- Setting a result keeps the identity. -/
theorem Outcome.id_set (t : Task B) (o : Outcome) : (o.set t).id = t.id := by
  cases o <;> rfl

/-- An error after which the task wants a retry is a retriable one, and it is
counted. -/
theorem Outcome.retry_of_wantsRetry {t : Task (FailoverTask B)} {o : Outcome} (ho : o ≠ .ok)
    {L : ℕ} (h : (o.set t).body.wantsRetry L = true) :
    o.Retriable ∧ (o.set t).body.retry = t.body.retry + 1 ∧
      (o.set t).body.maxRetries = t.body.maxRetries := by
  rw [FailoverTask.wantsRetry, Bool.and_eq_true] at h
  obtain ⟨hshould, -⟩ := h
  cases o with
  | ok => exact absurd rfl ho
  | custom e => cases hshould
  | rpc e =>
    by_cases he : e < .method
    · refine ⟨⟨e, rfl, he⟩, ?_⟩
      simp only [Outcome.set, Task.setRpcError, ClientTask.setRpcError, he, if_true, and_self]
    · simp only [Outcome.set, Task.setRpcError, ClientTask.setRpcError, he, if_false] at hshould
      cases hshould

/-- An attempt ends and the task is completed. -/
theorem InPool.finish {t : Task (FailoverTask B)} (h : InPool L sub r t) {a : Attempt B}
    (hshows : a.outcome.Shows a.task) :
    Finished L sub { r with attempts := r.attempts ++ [a] } a.task := by
  have hlast : (r.attempts ++ [a]).getLast? = some a := List.getLast?_concat
  refine ⟨h.sub_eq, ?_, h.within.limit, ?_, ?_⟩
  · rw [List.length_append]
    exact h.handed
  · rw [List.dropLast_concat]
    exact h.retriable
  · rw [Record.Result, hlast]
    exact ⟨rfl, hshows⟩

/-- An attempt ends in a retriable error and the task goes to the retry channel. -/
theorem InPool.queue {t t' : Task (FailoverTask B)} (h : InPool L sub r t) {a : Attempt B}
    (hshows : a.outcome.Shows a.task) (hretriable : a.outcome.Retriable) (htask : t'.user = a.task)
    (hretry : t'.body.retry = t.body.retry + 1)
    (hmax : t'.body.maxRetries = t.body.maxRetries) (hwants : t'.body.wantsRetry L = true) :
    Queued L sub { r with attempts := r.attempts ++ [a] } t' := by
  have hmax' := hmax.trans h.maxRetries
  rw [FailoverTask.wantsRetry, Bool.and_eq_true, hmax'] at hwants
  refine ⟨h.sub_eq, hmax', ?_, ?_, of_decide_eq_true hwants.2, fun a' ha' => ?_,
    a, List.getLast?_concat, htask, hshows⟩
  · rw [List.length_append]
    exact h.handed
  · rw [List.length_append, hretry, h.retry]
    rfl
  · rcases List.mem_append.mp ha' with ha' | ha'
    · exact h.retriable a' ha'
    · rw [List.mem_singleton.mp ha']
      exact hretriable

/-- The retry worker hands the task on. -/
theorem Queued.rehand {t t' : Task (FailoverTask B)} (h : Queued L sub r t)
    (hretry : t'.body.retry = t.body.retry) (hmax : t'.body.maxRetries = t.body.maxRetries) :
    InPool L sub { r with handed := r.handed + 1 } t' :=
  ⟨h.sub_eq, hmax.trans h.maxRetries, congrArg (· + 1) h.handed, hretry.trans h.retry,
    fun _ => hretry ▸ h.limit, h.retriable⟩

/-- The retry worker gives up. -/
theorem Queued.finish {t : Task (FailoverTask B)} (h : Queued L sub r t) :
    Finished L sub r t.user := by
  obtain ⟨a, hlast, htask, hshows⟩ := h.result
  refine ⟨h.sub_eq, h.handed, Or.inr ?_, fun a ha => h.retriable a (List.dropLast_subset _ ha), ?_⟩
  · have := h.limit
    rw [h.retry] at this
    rw [h.handed]
    omega
  · rw [Record.Result, hlast]
    exact ⟨htask, hshows⟩

theorem Finished.within {d : Task B} (h : Finished L sub r d) : Within L sub r := by
  refine ⟨h.limit, fun k hk => ?_⟩
  rw [h.handed] at hk
  have hlt : k < r.attempts.dropLast.length := by
    rw [List.length_dropLast]
    omega
  refine ⟨_, List.getElem?_eq_getElem (by omega), ?_⟩
  rw [← List.getElem_dropLast hlt]
  exact h.retriable _ (List.getElem_mem hlt)

/-- A new task finds no pool. -/
theorem finished_unreachable (sub : Submission B) :
    Finished L sub ⟨some sub, 0, []⟩ (sub.task.setRpcError .unreachable) :=
  ⟨rfl, rfl, Or.inl (Nat.zero_le _), nofun, rfl⟩

end

/-! ## All submissions -/

namespace FailoverPool

variable {B : Type}

/-- Where the tasks are that are in no one's hands at the moment. -/
def places (s : FailoverPool B) : List ℕ :=
  s.inPools.map Task.id ++ (s.retryRx.map Task.id ++ s.completed.map Task.id)

def record (s : FailoverPool B) (id : ℕ) : Record B where
  sub := s.submitted[id]?
  handed := (s.handed.map Prod.fst).count id
  attempts := s.attempts.filter (·.id = id)

variable [ClientTask B]

/-- Every task submitted is in one place, and its record fits that place; `held` is
the one in someone's hands. -/
structure Inv (L : ℕ) (held : Option ℕ) (s : FailoverPool B) : Prop where
  limit : s.retryLimit = L
  nodup : (held.toList ++ s.places).Nodup
  mem_places : ∀ i, i ∈ held.toList ++ s.places ↔ i < s.submitted.length
  fresh : ∀ i, s.submitted.length ≤ i → s.record i = ⟨none, 0, []⟩
  inPools : ∀ t ∈ s.inPools, ∃ sub, InPool L sub (s.record t.id) t
  queued : ∀ t ∈ s.retryRx, ∃ sub, Queued L sub (s.record t.id) t
  completed : ∀ d ∈ s.completed, ∃ sub, Finished L sub (s.record d.id) d

namespace Inv

variable {L : ℕ} {s : FailoverPool B}

theorem new (inner : FailoverPoolInner) (L : ℕ) : Inv L none (new inner L : FailoverPool B) :=
  ⟨rfl, List.nodup_nil, fun _ => ⟨nofun, nofun⟩, fun _ _ => rfl, nofun, nofun, nofun⟩

/-- The routing state does not matter here. -/
theorem setInner {held : Option ℕ} (inv : Inv L held s) (inner : FailoverPoolInner)
    (published : List ClusterConfig) (alive worker : Bool) :
    Inv L held { s with inner, published, alive, worker } :=
  ⟨inv.limit, inv.nodup, inv.mem_places, inv.fresh, inv.inPools, inv.queued, inv.completed⟩

/-- A task is taken out of its pool. -/
theorem takePool (inv : Inv L none s) {i : ℕ} {t : Task (FailoverTask B)}
    (h : s.inPools[i]? = some t) :
    Inv L (some t.id) { s with inPools := s.inPools.eraseIdx i } := by
  obtain ⟨hi, hget⟩ := List.getElem?_eq_some_iff.mp h
  have hperm : (t.id :: places { s with inPools := s.inPools.eraseIdx i }).Perm s.places := by
    have := (List.getElem_cons_eraseIdx_perm hi).map Task.id
    rw [List.map_cons, hget] at this
    exact this.append_right _
  exact ⟨inv.limit, hperm.nodup_iff.mpr inv.nodup,
    fun i => hperm.mem_iff.trans (inv.mem_places i), inv.fresh,
    fun t ht => inv.inPools t (List.mem_of_mem_eraseIdx ht), inv.queued, inv.completed⟩

/-- A task is taken from the retry channel. -/
theorem takeRetry (inv : Inv L none s) {t : Task (FailoverTask B)}
    {rest : List (Task (FailoverTask B))} (h : s.retryRx = t :: rest) :
    Inv L (some t.id) { s with retryRx := rest } := by
  have hperm : (t.id :: places { s with retryRx := rest }).Perm s.places := by
    rw [places, places, h]
    exact List.perm_middle.symm
  exact ⟨inv.limit, hperm.nodup_iff.mpr inv.nodup,
    fun i => hperm.mem_iff.trans (inv.mem_places i), inv.fresh, inv.inPools,
    fun t' ht' => inv.queued t' (h ▸ List.mem_cons_of_mem _ ht'), inv.completed⟩

/-- Tasks that stay where they are and keep their records still fit their places. -/
theorem placed {held : Option ℕ} (inv : Inv L held s) {s' : FailoverPool B}
    (hpools : s'.inPools = s.inPools) (hretry : s'.retryRx = s.retryRx)
    (hcompleted : s'.completed = s.completed)
    (hrecord : ∀ i ∈ s.places, s'.record i = s.record i) :
    (∀ t ∈ s'.inPools, ∃ sub, InPool L sub (s'.record t.id) t) ∧
      (∀ t ∈ s'.retryRx, ∃ sub, Queued L sub (s'.record t.id) t) ∧
      ∀ d ∈ s'.completed, ∃ sub, Finished L sub (s'.record d.id) d := by
  rw [hpools, hretry, hcompleted]
  refine ⟨fun t ht => ?_, fun t ht => ?_, fun d hd => ?_⟩
  · rw [hrecord _ (List.mem_append_left _ (List.mem_map_of_mem ht))]
    exact inv.inPools t ht
  · rw [hrecord _ (List.mem_append_right _ (List.mem_append_left _ (List.mem_map_of_mem ht)))]
    exact inv.queued t ht
  · rw [hrecord _ (List.mem_append_right _ (List.mem_append_right _ (List.mem_map_of_mem hd)))]
    exact inv.completed d hd

/-- What is in a place is not what is held. -/
theorem ne_of_mem {id : ℕ} (inv : Inv L (some id) s) {i : ℕ} (h : i ∈ s.places) : i ≠ id := by
  rintro rfl
  exact (List.nodup_cons.mp inv.nodup).1 h

/-- The record of the task held changes, and no other. -/
theorem setRecord {id : ℕ} (inv : Inv L (some id) s) {s' : FailoverPool B}
    (hlimit : s'.retryLimit = s.retryLimit) (hpools : s'.inPools = s.inPools)
    (hretry : s'.retryRx = s.retryRx) (hcompleted : s'.completed = s.completed)
    (hlength : s'.submitted.length = s.submitted.length)
    (hrecord : ∀ i, i ≠ id → s'.record i = s.record i) : Inv L (some id) s' := by
  have hplaces : s'.places = s.places := by rw [places, places, hpools, hretry, hcompleted]
  have hid : id < s.submitted.length := (inv.mem_places id).mp List.mem_cons_self
  obtain ⟨hinPools, hqueued, hfinished⟩ := inv.placed hpools hretry hcompleted
    fun i hi => hrecord i (inv.ne_of_mem hi)
  refine ⟨hlimit.trans inv.limit, ?_, ?_, fun i hi => ?_, hinPools, hqueued, hfinished⟩
  · rw [hplaces]
    exact inv.nodup
  · rw [hplaces, hlength]
    exact inv.mem_places
  · rw [hlength] at hi
    rw [hrecord i (Nat.ne_of_gt (Nat.lt_of_lt_of_le hid hi)), inv.fresh i hi]

/-- An attempt of the task held goes on record. -/
theorem attempt (a : Attempt B) (inv : Inv L (some a.id) s) :
    Inv L (some a.id) { s with attempts := s.attempts ++ [a] } := by
  refine inv.setRecord rfl rfl rfl rfl rfl fun i hi => ?_
  rw [record, record, List.filter_append, List.filter_cons_of_neg, List.filter_nil, List.append_nil]
  exact fun h => hi (of_decide_eq_true h).symm

/-- A handing of the task held goes on record. -/
theorem handing {id : ℕ} (inv : Inv L (some id) s) (pool : PoolRef) :
    Inv L (some id) { s with handed := s.handed ++ [(id, pool)] } := by
  refine inv.setRecord rfl rfl rfl rfl rfl fun i hi => ?_
  rw [record, record, List.map_append, List.count_append]
  have hzero : (([(id, pool)] : List (ℕ × PoolRef)).map Prod.fst).count i = 0 :=
    List.count_eq_zero_of_not_mem fun h => hi (List.mem_singleton.mp h)
  rw [hzero, Nat.add_zero]

/-- The task held is put in a pool. -/
theorem putPool {t : Task (FailoverTask B)} (inv : Inv L (some t.id) s)
    (ht : ∃ sub, InPool L sub (s.record t.id) t) :
    Inv L none { s with inPools := s.inPools ++ [t] } := by
  have hperm : (places { s with inPools := s.inPools ++ [t] }).Perm (t.id :: s.places) := by
    rw [places, List.map_append, List.append_assoc]
    exact List.perm_middle
  refine ⟨inv.limit, hperm.nodup_iff.mpr inv.nodup,
    fun i => hperm.mem_iff.trans (inv.mem_places i), inv.fresh, fun t' ht' => ?_, inv.queued,
    inv.completed⟩
  rcases List.mem_append.mp ht' with ht' | ht'
  · exact inv.inPools t' ht'
  · rw [List.mem_singleton.mp ht']
    exact ht

/-- The task held is put in the retry channel. -/
theorem putRetry {t : Task (FailoverTask B)} (inv : Inv L (some t.id) s)
    (ht : ∃ sub, Queued L sub (s.record t.id) t) :
    Inv L none { s with retryRx := s.retryRx ++ [t] } := by
  have hperm : (places { s with retryRx := s.retryRx ++ [t] }).Perm (t.id :: s.places) := by
    rw [places, List.map_append, List.append_assoc, ← List.append_assoc]
    refine List.perm_middle.trans ?_
    rw [List.append_assoc]
    rfl
  refine ⟨inv.limit, hperm.nodup_iff.mpr inv.nodup,
    fun i => hperm.mem_iff.trans (inv.mem_places i), inv.fresh, inv.inPools, fun t' ht' => ?_,
    inv.completed⟩
  rcases List.mem_append.mp ht' with ht' | ht'
  · exact inv.queued t' ht'
  · rw [List.mem_singleton.mp ht']
    exact ht

/-- The task held is completed. -/
theorem complete {d : Task B} (inv : Inv L (some d.id) s)
    (hd : ∃ sub, Finished L sub (s.record d.id) d) : Inv L none (s.complete d) := by
  have hperm : (s.complete d).places.Perm (d.id :: s.places) := by
    rw [places, FailoverPool.complete, List.map_append, ← List.append_assoc, ← List.append_assoc]
    refine List.perm_append_comm.trans ?_
    rw [List.append_assoc]
    rfl
  refine ⟨inv.limit, hperm.nodup_iff.mpr inv.nodup,
    fun i => hperm.mem_iff.trans (inv.mem_places i), inv.fresh, inv.inPools, inv.queued,
    fun d' hd' => ?_⟩
  rcases List.mem_append.mp hd' with hd' | hd'
  · exact inv.completed d' hd'
  · rw [List.mem_singleton.mp hd']
    exact hd

/-- The task held is given to a pool. -/
theorem hand {t : Task (FailoverTask B)} (inv : Inv L (some t.id) s) (pool : PoolRef)
    (ht : ∃ sub, InPool L sub { s.record t.id with handed := (s.record t.id).handed + 1 } t) :
    Inv L none (s.hand pool t) := by
  refine (inv.handing pool).putPool ?_
  have hself : record { s with handed := s.handed ++ [(t.id, pool)] } t.id =
      { s.record t.id with handed := (s.record t.id).handed + 1 } := by
    have hone : (([(t.id, pool)] : List (ℕ × PoolRef)).map Prod.fst).count t.id = 1 :=
      List.count_singleton_self
    rw [record, List.map_append, List.count_append, hone]
    rfl
  rw [hself]
  exact ht

/-- A task is submitted. -/
theorem submit (inv : Inv L none s) (sub : Submission B) :
    Inv L (some s.submitted.length) (s.submit sub) ∧
      (s.submit sub).record s.submitted.length = ⟨some sub, 0, []⟩ := by
  have hfresh := inv.fresh _ (Nat.le_refl s.submitted.length)
  have hlen : (s.submit sub).submitted.length = s.submitted.length + 1 := List.length_append
  have hrecord : ∀ i ∈ s.places, (s.submit sub).record i = s.record i := fun i hi => by
    have hlt := (inv.mem_places i).mp hi
    rw [record, record, FailoverPool.submit, List.getElem?_append_left hlt]
  obtain ⟨hinPools, hqueued, hfinished⟩ := inv.placed
    (show (s.submit sub).inPools = s.inPools from rfl) rfl rfl hrecord
  refine ⟨⟨inv.limit, ?_, fun i => ?_, fun i hi => ?_, hinPools, hqueued, hfinished⟩, ?_⟩
  · refine List.nodup_cons.mpr ⟨fun h => ?_, inv.nodup⟩
    exact Nat.lt_irrefl _ ((inv.mem_places _).mp h)
  · rw [hlen, Nat.lt_succ_iff_lt_or_eq, ← inv.mem_places i]
    exact List.mem_cons.trans Or.comm
  · have hold := inv.fresh i (by omega)
    rw [record, Record.mk.injEq] at hold
    rw [record, Record.mk.injEq]
    exact ⟨List.getElem?_eq_none hi, hold.2⟩
  · rw [record, Record.mk.injEq] at hfresh
    rw [record, Record.mk.injEq]
    exact ⟨List.getElem?_concat_length, hfresh.2⟩

/-- A submission is selected a pool, or fails. -/
theorem start (inv : Inv L none s) {task : Task B} (hid : task.id = s.submitted.length)
    (ver : UInt64) (found : Option (PoolRef × UInt64)) :
    Inv L none ((s.submit ⟨task, 0, 0⟩).start task ver found) := by
  obtain ⟨inv', hrecord⟩ := inv.submit ⟨task, 0, 0⟩
  rw [← hid] at inv' hrecord
  rcases found with _ | ⟨pool, index⟩
  · refine inv'.complete (d := task.setRpcError .unreachable) ⟨⟨task, 0, 0⟩, ?_⟩
    rw [show (task.setRpcError .unreachable).id = task.id from rfl, hrecord]
    exact finished_unreachable _
  · refine inv'.hand (t := task.wrap index ver 0 0) pool ⟨⟨task, 0, 0⟩, ?_⟩
    rw [show (task.wrap index ver 0 0).id = task.id from rfl, hrecord]
    exact inPool_wrap ⟨task, 0, 0⟩ index ver

/-- The attempt under way ends. -/
theorem endAttempt (inv : Inv L none s) {i : ℕ} {t : Task (FailoverTask B)}
    (hget : s.inPools[i]? = some t) (a : Attempt B) (ha : a.id = t.id) :
    Inv L (some a.id) (s.endAttempt i a) ∧ (s.endAttempt i a).record a.id =
      { s.record t.id with attempts := (s.record t.id).attempts ++ [a] } := by
  constructor
  · have inv' := inv.takePool hget
    rw [← ha] at inv'
    exact inv'.attempt a
  · have hone : ([a] : List (Attempt B)).filter (·.id = a.id) = [a] :=
      List.filter_cons_of_pos (decide_eq_true rfl)
    rw [record, FailoverPool.endAttempt, List.filter_append, hone, ha]
    rfl

/-- The task of an attempt that ended in an error. -/
theorem errorHandle {t : Task (FailoverTask B)} (inv : Inv L (some t.id) s)
    (hfinished : ∃ sub, Finished L sub (s.record t.id) t.user)
    (hqueued : t.body.wantsRetry L = true → ∃ sub, Queued L sub (s.record t.id) t) :
    Inv L none (s.errorHandle t) := by
  rw [FailoverPool.errorHandle]
  split
  · rename_i hwants
    rw [inv.limit] at hwants
    split
    · exact inv.putRetry (hqueued hwants)
    · exact inv.complete (d := t.user) hfinished
  · exact inv.complete (d := t.user) hfinished

/-- A pool is done with a task: the attempt is on record, and what becomes of the task
fits it. -/
theorem dispose (inv : Inv L none s) {i : ℕ} {t : Task (FailoverTask B)}
    (hget : s.inPools[i]? = some t) (work : List Access) (outcome : Outcome) :
    Inv L (some (disposed t work outcome).id) (s.endAttempt i (attemptOf t work outcome)) ∧
      ∃ sub, Finished L sub ((s.endAttempt i (attemptOf t work outcome)).record
          (disposed t work outcome).id) (disposed t work outcome).user ∧
        (outcome ≠ .ok → (disposed t work outcome).body.wantsRetry L = true →
          Queued L sub ((s.endAttempt i (attemptOf t work outcome)).record
            (disposed t work outcome).id) (disposed t work outcome)) := by
  obtain ⟨sub, hpool⟩ := inv.inPools t (List.mem_of_getElem? hget)
  obtain ⟨hid, hretry, hmax⟩ := retryState_foldl_apply work t
  have hshows : outcome.Shows (disposed t work outcome).user := outcome.shows_user_set _
  obtain ⟨inv', hrecord⟩ := inv.endAttempt hget (attemptOf t work outcome)
    ((outcome.id_set _).trans hid)
  rw [show (attemptOf t work outcome).id = (disposed t work outcome).id from rfl] at hrecord
  refine ⟨inv', sub, ?_, fun hne hwants => ?_⟩
  · rw [hrecord]
    exact hpool.finish hshows
  · obtain ⟨hretriable, hretry', hmax'⟩ := Outcome.retry_of_wantsRetry hne hwants
    rw [hrecord]
    exact hpool.queue hshows hretriable rfl (hretry'.trans (congrArg (· + 1) hretry))
      (hmax'.trans hmax) hwants

/-- The retry worker hands a task on, or gives up. -/
theorem restart {t : Task (FailoverTask B)} (inv : Inv L (some t.id) s) {sub : Submission B}
    (t' : Task (FailoverTask B)) (hqueued : Queued L sub (s.record t.id) t)
    (hid : t'.id = t.id) (huser : t'.user = t.user)
    (hretry : t'.body.retry = t.body.retry) (hmax : t'.body.maxRetries = t.body.maxRetries)
    (found : Option (PoolRef × UInt64)) : Inv L none (s.restart t' found) := by
  rw [← hid] at inv hqueued
  rcases found with _ | ⟨pool, index⟩
  · have hfinished : Finished L sub (s.record t'.id) t'.user := by
      rw [huser]
      exact hqueued.finish
    exact inv.complete (d := t'.user) ⟨sub, hfinished⟩
  · exact inv.hand (t := { t' with body := { t'.body with lastIndex := index } }) pool
      ⟨sub, hqueued.rehand hretry hmax⟩

/-- Every step keeps the invariant. -/
theorem step (inv : Inv L none s) {e : FailoverEvent B} {s' : FailoverPool B}
    (h : s.next e = some s') : Inv L none s' := by
  cases next_cases h with
  | sendReq task hview hsel =>
    exact (inv.setInner _ s.published s.alive s.worker).start rfl _ _
  | resubmit task hview hsel => exact inv.start rfl _ _
  | @redirect addr inner pool index ver task retryCount maxRetries hadd =>
    let sub : Submission B :=
      ⟨{ task with id := s.submitted.length }, retryCount, maxRetries.getD 0⟩
    obtain ⟨inv', hrecord⟩ := (inv.setInner { inner with nextNode := index }
      (s.published ++ [inner.pools]) s.alive s.worker).submit sub
    refine inv'.hand (t := sub.task.wrap index ver sub.retry sub.maxRetries) pool ⟨sub, ?_⟩
    rw [show (sub.task.wrap index ver sub.retry sub.maxRetries).id = s.submitted.length from rfl,
      hrecord]
    exact inPool_wrap sub index ver
  | done work hget =>
    obtain ⟨inv', sub, hfinished, -⟩ := inv.dispose hget work .ok
    exact inv'.complete ⟨sub, hfinished⟩
  | failed work hne hget =>
    obtain ⟨inv', sub, hfinished, hqueued⟩ := inv.dispose hget work _
    exact inv'.errorHandle ⟨sub, hfinished⟩ fun hwants => ⟨sub, hqueued hne hwants⟩
  | @giveUp t rest view healthy hrx =>
    obtain ⟨sub, hqueued⟩ := inv.queued t (hrx ▸ List.mem_cons_self)
    exact (inv.takeRetry hrx).complete (d := t.user) ⟨sub, hqueued.finish⟩
  | @retry view healthy t t' rest cluster route nextNode found hrx hview htask hsel =>
    obtain ⟨sub, hqueued⟩ := inv.queued t (hrx ▸ List.mem_cons_self)
    have inv' := (inv.takeRetry hrx).setInner { s.inner with nextNode } s.published s.alive s.worker
    exact inv'.restart t' hqueued (htask ▸ rfl) (htask ▸ rfl) (htask ▸ rfl) (htask ▸ rfl)
      found
  | @addAddr addr inner pool index ver hadd =>
    exact inv.setInner inner (s.published ++ [inner.pools]) s.alive s.worker
  | @updateAddrs addrs inner hupd =>
    exact inv.setInner inner (s.published ++ [inner.pools]) s.alive s.worker
  | drop => exact inv.setInner s.inner s.published false s.worker
  | workerExit => exact inv.setInner s.inner s.published s.alive false

end Inv

/-! ## The retry budget -/

/-- How often a task was given to a pool. -/
def timesHanded (s : FailoverPool B) (id : ℕ) : ℕ := (s.record id).handed

/-- The budget is kept, wherever the task is. -/
theorem Inv.within {L : ℕ} {s : FailoverPool B} (inv : Inv L none s) {id : ℕ}
    {sub : Submission B} (hsub : s.submitted[id]? = some sub) : Within L sub (s.record id) := by
  have hsub' : (s.record id).sub = some sub := hsub
  have hmem : id ∈ s.places := (inv.mem_places id).mpr (List.getElem?_eq_some_iff.mp hsub).1
  rcases List.mem_append.mp hmem with hmem | hmem
  · obtain ⟨t, ht, rfl⟩ := List.mem_map.mp hmem
    obtain ⟨sub₁, h⟩ := inv.inPools t ht
    obtain rfl := Option.some.inj (h.sub_eq.symm.trans hsub')
    exact h.within
  · rcases List.mem_append.mp hmem with hmem | hmem
    · obtain ⟨t, ht, rfl⟩ := List.mem_map.mp hmem
      obtain ⟨sub₁, h⟩ := inv.queued t ht
      obtain rfl := Option.some.inj (h.sub_eq.symm.trans hsub')
      exact h.finish.within
    · obtain ⟨d, hd, rfl⟩ := List.mem_map.mp hmem
      obtain ⟨sub₁, h⟩ := inv.completed d hd
      obtain rfl := Option.some.inj (h.sub_eq.symm.trans hsub')
      exact h.within

end FailoverPool

end RazorRpc
