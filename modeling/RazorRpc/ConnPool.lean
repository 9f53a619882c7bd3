import RazorRpc.Task
import RazorRpc.Lib.Lts

/-!
# The connection pool (`stream/src/client/pool.rs`)

The workers of a `ConnPool` share one channel of tasks, a health flag and two
counters. Worker 0 monitors the address; when a task finds it busy and alone, it
goes on as worker 1 and leaves the monitoring to a new worker 0.

A worker is where its coroutine is between two steps (`WorkerAt`); a step is what
it does up to the next point where another worker can see a difference. What
`connect`, `ping`, `send_task` and `flush_req` return, whether a timer fires and
whether a stream has requests in flight is up to the label of the step.
`Recovery` records what has happened to the health of the pool.
-/

namespace RazorRpc

/-- What a worker does after `set_err`. -/
inductive AfterErr : Type where
  /-- `continue 'CONN_LOOP` -/
  | reconnect
  /-- `cleanup()`, then perhaps a second of sleep, then `continue 'CONN_LOOP` -/
  | clean (nap : Bool)
  | exit

/-- Where a worker is. -/
inductive WorkerAt (B : Type) : Type where
  | connecting
  /-- at the head of the monitor loop -/
  | counting
  /-- asleep before a ping, beside other workers -/
  | napping
  /-- `alone` when the channel timed out with no other worker -/
  | pinging (alone : Bool)
  | receiving
  | received (task : Task B)
  | takingOver (task : Task B)
  | sending (task : Task B)
  /-- about to call `set_err` -/
  | failing (after : AfterErr)
  | cleaning (nap : Bool)
  | sleeping
  /-- about to enter `_run_worker` -/
  | entering
  | serving
  | forwarding (task : Task B)
  | draining
  /-- `last` after the channel is disconnected -/
  | flushing (last : Bool)
  /-- `_run_worker` has returned -/
  | leaving (ok : Bool)
  | exiting
  | ended

structure Worker (B : Type) where
  workerId : UInt64
  pos : WorkerAt B

/-- What has happened to the health of a pool. -/
structure Recovery where
  /-- `set_err` was called -/
  failed : Bool
  /-- the workers that connected as the monitor since then -/
  reconnected : List ℕ
  /-- a ping or a task went through on such a connection -/
  answered : Bool

/-- What the workers of a pool share. -/
structure ConnPoolInner (B : Type) where
  /-- the channel, oldest task first -/
  rx : List (Task B)
  channelSize : ℕ
  /-- a `ConnPool` handle is alive -/
  connected : Bool
  isOk : Bool
  workerCount : UInt64
  connectedWorkerCount : UInt64
  /-- ghost: tasks handed to `facts.error_handle` -/
  handled : List (Task B)
  /-- ghost -/
  recovery : Recovery

namespace ConnPoolInner

variable {B : Type}

def setErr (inner : ConnPoolInner B) : ConnPoolInner B :=
  { inner with isOk := false, recovery := ⟨true, [], false⟩ }

/-- Worker `i` has connected. -/
def noteConnected (inner : ConnPoolInner B) (i : ℕ) (w : Worker B) : ConnPoolInner B :=
  if w.workerId = 0 then
    { inner with
      recovery := { inner.recovery with reconnected := i :: inner.recovery.reconnected } }
  else inner

/-- A ping or a task of worker `i` went through. -/
def noteAnswered (inner : ConnPoolInner B) (i : ℕ) : ConnPoolInner B :=
  { inner with
    recovery := { inner.recovery with
      answered := inner.recovery.answered || inner.recovery.reconnected.contains i } }

variable [ClientTask B]

/-- One turn of `cleanup`; `none` when the channel is empty. -/
def cleanupOne (inner : ConnPoolInner B) : Option (ConnPoolInner B) :=
  match inner.rx with
  | task :: rx =>
    some { inner with rx, handled := inner.handled ++ [task.setRpcError .unreachable] }
  | [] => none

/-- `cleanup`. -/
def cleanup (inner : ConnPoolInner B) : ConnPoolInner B :=
  { inner with
    rx := []
    handled := inner.handled ++ inner.rx.map (·.setRpcError .unreachable) }

end ConnPoolInner

/-- A worker after a step, and a worker it has spawned. -/
structure Stepped (B : Type) where
  inner : ConnPoolInner B
  worker : Worker B
  spawned : Option (Worker B)

namespace Worker

variable {B : Type}

/-- A new coroutine of `run`. -/
def spawn (workerId : UInt64) : Worker B := ⟨workerId, .connecting⟩

/-- The worker moves on. -/
def goto (w : Worker B) (inner : ConnPoolInner B) (pos : WorkerAt B) : Stepped B :=
  ⟨inner, { w with pos }, none⟩

def hasEnded (w : Worker B) : Bool :=
  match w.pos with
  | .ended => true
  | _ => false

/-- What follows `set_err`. -/
def afterErr : AfterErr → WorkerAt B
  | .reconnect => .connecting
  | .clean nap => .cleaning nap
  | .exit => .exiting

variable [ClientTask B]

/-- `run`, one step of worker `i`; `answer` is what the world says. -/
def step (i : ℕ) (answer : Bool) (inner : ConnPoolInner B) (w : Worker B) : Option (Stepped B) :=
  match w.pos with
  | .connecting =>
    if answer then
      some (w.goto (inner.noteConnected i w) (if w.workerId = 0 then .counting else .entering))
    else some (w.goto inner (.failing (.clean true)))
  | .counting =>
    some (w.goto inner (if 1 < inner.workerCount then .napping else .receiving))
  | .napping => some (w.goto inner (.pinging false))
  | .pinging alone =>
    if answer then some (w.goto (inner.noteAnswered i) .counting)
    else some (w.goto inner (.failing (if alone then .clean false else .reconnect)))
  | .receiving =>
    match inner.rx with
    | task :: rx => some (w.goto { inner with rx } (.received task))
    | [] =>
      if !inner.connected then some (w.goto inner .exiting)
      -- the timer fires
      else if answer then some (w.goto inner (.pinging true))
      else none
  | .received task =>
    -- the stream has requests in flight
    if answer && inner.workerCount == 1 then some (w.goto inner (.takingOver task))
    else some (w.goto inner (.sending task))
  | .takingOver task =>
    if inner.workerCount = 1 then
      some ⟨{ inner with workerCount := 2 }, ⟨1, .sending task⟩, some (spawn 0)⟩
    else some (w.goto inner (.sending task))
  | .sending _ =>
    if answer then
      some (w.goto (inner.noteAnswered i) (if w.workerId = 0 then .counting else .entering))
    else some (w.goto inner (.failing (if w.workerId = 0 then .clean true else .exit)))
  | .failing after => some (w.goto inner.setErr (afterErr after))
  | .cleaning nap =>
    match inner.cleanupOne with
    | some inner => some (w.goto inner (.cleaning nap))
    | none => some (w.goto inner (if nap then .sleeping else .connecting))
  | .sleeping => some (w.goto inner .connecting)
  | .entering =>
    some (w.goto { inner with connectedWorkerCount := inner.connectedWorkerCount + 1 } .serving)
  | .serving =>
    match inner.rx with
    | task :: rx => some (w.goto { inner with rx } (.forwarding task))
    | [] => if !inner.connected then some (w.goto inner (.flushing true)) else none
  | .forwarding _ =>
    if answer then some (w.goto (inner.noteAnswered i) .draining)
    else some (w.goto inner (.leaving false))
  | .draining =>
    match inner.rx with
    | task :: rx => some (w.goto { inner with rx } (.forwarding task))
    | [] => some (w.goto inner (.flushing false))
  | .flushing last =>
    if answer then some (w.goto inner (if last then .leaving true else .serving))
    else some (w.goto inner (.leaving false))
  | .leaving ok =>
    some (w.goto { inner with connectedWorkerCount := inner.connectedWorkerCount + 1 }
      (if ok then .exiting else .failing .exit))
  | .exiting => some (w.goto { inner with workerCount := inner.workerCount - 1 } .ended)
  | .ended => none

/-- What a step of worker `i` can do to the shared state. -/
inductive Effect (i : ℕ) (w : Worker B) (inner : ConnPoolInner B) : ConnPoolInner B → Prop
  | nothing : Effect i w inner inner
  | take {task : Task B} {rx : List (Task B)} (h : inner.rx = task :: rx) :
      Effect i w inner { inner with rx }
  | connected : Effect i w inner (inner.noteConnected i w)
  | answered : Effect i w inner (inner.noteAnswered i)
  | takeOver (h : inner.workerCount = 1) : Effect i w inner { inner with workerCount := 2 }
  | setErr : Effect i w inner inner.setErr
  | cleanup {inner' : ConnPoolInner B} (h : inner.cleanupOne = some inner') : Effect i w inner inner'
  | count : Effect i w inner { inner with connectedWorkerCount := inner.connectedWorkerCount + 1 }
  | exit : Effect i w inner { inner with workerCount := inner.workerCount - 1 }

theorem effect_of_step {i : ℕ} {answer : Bool} {inner : ConnPoolInner B} {w : Worker B}
    {r : Stepped B} (h : w.step i answer inner = some r) : Effect i w inner r.inner := by
  rw [step] at h
  cases hpos : w.pos with
  | connecting =>
    simp only [hpos] at h
    cases answer with
    | true =>
      cases h
      exact .connected
    | false =>
      cases h
      exact .nothing
  | pinging _ | sending _ | forwarding _ =>
    simp only [hpos] at h
    cases answer with
    | true =>
      cases h
      exact .answered
    | false =>
      cases h
      exact .nothing
  | flushing last =>
    simp only [hpos] at h
    cases answer <;> cases h <;> exact .nothing
  | counting | napping | sleeping =>
    simp only [hpos] at h
    cases h
    exact .nothing
  | receiving | serving | draining =>
    simp only [hpos] at h
    split at h
    · rename_i task rx hrx
      cases h
      exact .take hrx
    · repeat' split at h
      all_goals cases h
      all_goals exact .nothing
  | received task =>
    simp only [hpos] at h
    split at h <;> cases h <;> exact .nothing
  | takingOver task =>
    simp only [hpos] at h
    split at h
    · rename_i hone
      cases h
      exact .takeOver hone
    · cases h
      exact .nothing
  | failing after =>
    simp only [hpos] at h
    cases h
    exact .setErr
  | cleaning nap =>
    simp only [hpos] at h
    split at h
    · rename_i hone
      cases h
      exact .cleanup hone
    · cases h
      exact .nothing
  | entering | leaving _ =>
    simp only [hpos] at h
    cases h
    exact .count
  | exiting =>
    simp only [hpos] at h
    cases h
    exact .exit
  | ended =>
    simp only [hpos] at h
    cases h

end Worker

/-! ## The pool -/

/-- A pool with its workers; a worker that has ended keeps its place. -/
structure ConnPool (B : Type) where
  inner : ConnPoolInner B
  workers : List (Worker B)
  /-- `ConnPoolInner` has been dropped -/
  innerDropped : Bool

/-- What happens next. -/
inductive PoolEvent (B : Type) : Type where
  /-- the user spawns a worker -/
  | spawn
  | sendReq (task : Task B)
  /-- the last handle is dropped -/
  | dropHandles
  | worker (i : ℕ) (answer : Bool)
  | dropInner

namespace ConnPool

variable {B : Type}

/-- `spawn`. -/
def spawn (p : ConnPool B) : ConnPool B :=
  { p with
    inner := { p.inner with workerCount := p.inner.workerCount + 1 }
    workers := p.workers ++ [.spawn p.inner.workerCount] }

/-- `ConnPool::new`. -/
def new (thresholds channelSize : ℕ) : ConnPool B :=
  let channelSize :=
    if 0 < thresholds then if channelSize < thresholds then thresholds else channelSize
    else if channelSize = 0 then 128 else channelSize
  spawn
    { inner :=
        { rx := [], channelSize, connected := true, isOk := true, workerCount := 0
          connectedWorkerCount := 0, handled := [], recovery := ⟨false, [], false⟩ }
      workers := [], innerDropped := false }

def isHealthy (p : ConnPool B) : Bool := p.inner.isOk

variable [ClientTask B]

/-- The steps of a pool. -/
def next (p : ConnPool B) : PoolEvent B → Option (ConnPool B)
  | .spawn => if p.inner.connected then some p.spawn else none
  | .sendReq task =>
    if p.inner.connected && decide (p.inner.rx.length < p.inner.channelSize) then
      some { p with inner := { p.inner with rx := p.inner.rx ++ [task] } }
    else none
  | .dropHandles => some { p with inner := { p.inner with connected := false } }
  | .worker i answer => do
    let w ← p.workers[i]?
    let r ← w.step i answer p.inner
    some { p with inner := r.inner, workers := p.workers.set i r.worker ++ r.spawned.toList }
  | .dropInner =>
    if !p.inner.connected && p.workers.all Worker.hasEnded && !p.innerDropped then
      some { p with inner := p.inner.cleanup, innerDropped := true }
    else none

end ConnPool

/-! ## Health -/

/-- Healthy until the first failure. -/
def ConnPoolInner.HealthOk {B : Type} (inner : ConnPoolInner B) : Prop :=
  inner.isOk = !inner.recovery.failed

theorem ConnPoolInner.HealthOk.noteConnected {B : Type} {inner : ConnPoolInner B}
    (h : inner.HealthOk) (i : ℕ) (w : Worker B) : (inner.noteConnected i w).HealthOk := by
  rw [ConnPoolInner.noteConnected]
  split
  · exact h
  · exact h

namespace ConnPool

variable {B : Type}

/-- The monitor has reconnected after the last failure, and a ping or a task has
gone through on the new connection. -/
def Recovered (p : ConnPool B) : Prop :=
  p.inner.recovery.failed = true ∧ p.inner.recovery.answered = true

instance (p : ConnPool B) : Decidable p.Recovered := inferInstanceAs (Decidable (_ ∧ _))

variable [ClientTask B]

/-- No step of a worker makes a pool healthy again. -/
theorem healthOk_effect {inner inner' : ConnPoolInner B} (h : inner.HealthOk) {i : ℕ}
    {w : Worker B} (heffect : Worker.Effect i w inner inner') : inner'.HealthOk := by
  cases heffect with
  | connected => exact h.noteConnected i w
  | setErr => exact rfl
  | cleanup hone =>
    rw [ConnPoolInner.cleanupOne] at hone
    split at hone
    · cases hone
      exact h
    · cases hone
  | nothing | take _ | answered | takeOver _ | count | exit => exact h

theorem healthOk_next {p p' : ConnPool B} (h : p.inner.HealthOk) {e : PoolEvent B}
    (hnext : p.next e = some p') : p'.inner.HealthOk := by
  cases e with
  | worker i answer =>
    obtain ⟨w, -, hnext⟩ := Option.bind_eq_some_iff.mp hnext
    obtain ⟨r, hstep, hnext⟩ := Option.bind_eq_some_iff.mp hnext
    cases hnext
    exact healthOk_effect h (Worker.effect_of_step hstep)
  | dropHandles =>
    cases hnext
    exact h
  | spawn | sendReq _ | dropInner =>
    simp only [next] at hnext
    split at hnext
    · cases hnext
      exact h
    · cases hnext

/-- A pool is healthy exactly until the first `set_err`. -/
theorem isHealthy_eq {thresholds channelSize : ℕ} {p : ConnPool B}
    (h : Lts.Reach next (fun _ _ => True) (new thresholds channelSize) p) :
    p.isHealthy = !p.inner.recovery.failed := by
  have hok : p.inner.HealthOk := h.invariant (I := fun p => p.inner.HealthOk)
    (show (new thresholds channelSize : ConnPool B).inner.HealthOk from rfl)
    fun _ _ _ hok _ hnext => healthOk_next hok hnext
  exact hok

/-- **A pool does not recover.** Whenever the monitor has reconnected after the
last failure and the new connection has proved to work, the pool is still not
healthy: nothing sets `is_ok` again. -/
theorem isHealthy_of_recovered {thresholds channelSize : ℕ} {p : ConnPool B}
    (h : Lts.Reach next (fun _ _ => True) (new thresholds channelSize) p) (hrec : p.Recovered) :
    p.isHealthy = false := by
  rw [isHealthy_eq h, hrec.1]
  rfl

/-- The first connect fails, the second succeeds, and a ping is answered. -/
def reconnects : List (PoolEvent APIClientReq) :=
  [.worker 0 false, .worker 0 true, .worker 0 true, .worker 0 true, .worker 0 true,
    .worker 0 true, .worker 0 true, .worker 0 true]

theorem isHealthy_of_reconnects :
    ∃ p : ConnPool APIClientReq, Lts.Reach next (fun _ _ => True) (new 128 0) p ∧ p.Recovered ∧
      p.isHealthy = false := by
  have hrun : (Lts.exec next (fun _ _ => True) (new 128 0) reconnects).any
      (fun p => decide p.Recovered) = true := by decide +kernel
  obtain ⟨p, hreach, htest⟩ := Lts.Reach.exists_of_exec hrun
  have hrec := of_decide_eq_true htest
  exact ⟨p, hreach, hrec, isHealthy_of_recovered hreach hrec⟩

/-- The pool has recovered, and `is_healthy()` says no. -/
theorem unhealthy_after_recovery :
    ¬ ∀ p : ConnPool APIClientReq, Lts.Reach next (fun _ _ => True) (new 128 0) p →
      p.Recovered → p.isHealthy = true := by
  have hrun : (Lts.exec next (fun _ _ => True) (new 128 0) reconnects).any
      (fun p => decide (p.Recovered ∧ p.isHealthy = false)) = true := by decide +kernel
  obtain ⟨p, hreach, htest⟩ := Lts.Reach.exists_of_exec hrun
  obtain ⟨hrec, hbad⟩ := of_decide_eq_true htest
  intro hclaim
  cases hbad.symm.trans (hclaim p hreach hrec)

end ConnPool

end RazorRpc
