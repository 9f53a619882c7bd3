import RazorRpc.Task
import RazorRpc.Lib.BTreeMap

/-!
# The task registry of a connection (`stream/src/client/timer.rs`)

`ClientTaskTimer` holds the tasks that wait for a response. The sender registers
a task through a bounded channel; the receiver pulls it from there into
`sent_tasks`, moves that map to the front of `delay_tasks_queue` every second,
and drops the batch at the back of the queue as timed out. A response takes its
task out of wherever it is.

Operations return the registry afterwards together with what they report: the
tasks they hand to `facts.error_handle`, or the result of a poll (`none` while
it is pending). The receiver owns the registry; only the channel, the counter
and the stop flag are shared with the sender.
-/

namespace RazorRpc

/-- `ClientTaskTimer`. Of a `ClientTaskItem` the task is kept here; its throttler
guard is counted by the connection, and goes when the item is dropped. -/
structure ClientTaskTimer (B : Type) where
  /-- the channel from the sender, oldest first -/
  pendingTasks : List (Task B)
  /-- capacity of the channel -/
  pendingCap : ℕ
  /-- `AtomicU64`: arithmetic wraps -/
  pendingTaskCount : UInt64
  /-- tasks pulled in the current second -/
  sentTasks : BTreeMap ℕ (Task B)
  /-- tasks of past seconds, most recent first -/
  delayTasksQueue : List (BTreeMap ℕ (Task B))
  minDelaySeq : ℕ
  /-- in seconds -/
  taskTimeout : ℕ
  /-- sequence number of the last task pulled -/
  processedSeq : ℕ
  regStoppedFlag : Bool
  /-- ghost: items dropped because another came under the same number -/
  replaced : ℕ

namespace ClientTaskTimer

variable {B : Type}

def new (taskTimeout thresholds : ℕ) : ClientTaskTimer B :=
  let thresholds := if thresholds = 0 then 500 else thresholds
  { pendingTasks := [], pendingCap := thresholds * 2, pendingTaskCount := 0,
    sentTasks := .empty, delayTasksQueue := [], minDelaySeq := 0, taskTimeout,
    processedSeq := 0, regStoppedFlag := false, replaced := 0 }

/-! ## The channel -/

/-- Register a task: send it through the channel. `none` while the channel is
full: the sender waits. -/
def regTask (t : ClientTaskTimer B) (task : Task B) : Option (ClientTaskTimer B) :=
  if t.pendingTasks.length < t.pendingCap then
    some { t with pendingTasks := t.pendingTasks ++ [task] }
  else none

def stopRegTask (t : ClientTaskTimer B) : ClientTaskTimer B := { t with regStoppedFlag := true }

/-- A task arrives from the channel. -/
def gotPendingTask (t : ClientTaskTimer B) (task : Task B) : ClientTaskTimer B :=
  { t with
    pendingTaskCount := t.pendingTaskCount - 1
    processedSeq := task.key
    sentTasks := t.sentTasks.insert task.key task
    replaced := if (t.sentTasks.get? task.key).isSome then t.replaced + 1 else t.replaced }

/-- `while let Ok(task) = try_recv() { got_pending_task(task) }`. -/
def pullPending (t : ClientTaskTimer B) : ClientTaskTimer B :=
  t.pendingTasks.foldl gotPendingTask { t with pendingTasks := [] }

/-- `poll_sent_task`: pull everything; report whether there was anything. -/
def pollSentTask (t : ClientTaskTimer B) : ClientTaskTimer B × Bool :=
  (t.pullPending, !t.pendingTasks.isEmpty)

/-! ## Taking a task -/

/-- Look through the batches, most recent first, for `seq`. -/
def removeDelayed (seq : ℕ) :
    List (BTreeMap ℕ (Task B)) → List (BTreeMap ℕ (Task B)) × Option (Task B)
  | [] => ([], none)
  | batch :: queue =>
    match batch.get? seq with
    | some task => (batch.erase seq :: queue, some task)
    | none =>
      let r := removeDelayed seq queue
      (batch :: r.1, r.2)

/-- The last part of `take_task`: look in `sent_tasks`, then in the queue. -/
def removeTask (t : ClientTaskTimer B) (seq : ℕ) : ClientTaskTimer B × Option (Task B) :=
  match t.sentTasks.get? seq with
  | some task => ({ t with sentTasks := t.sentTasks.erase seq }, some task)
  | none =>
    let r := removeDelayed seq t.delayTasksQueue
    ({ t with delayTasksQueue := r.1 }, r.2)

/-- `WaitRegTaskFuture::poll`. The stop flag is set only after the last
registration, so reading it and draining the channel may count as one step. -/
def waitRegTaskPoll (t : ClientTaskTimer B) (targetSeq : ℕ) : ClientTaskTimer B × Option Bool :=
  if targetSeq ≤ t.processedSeq then (t, some true)
  else if t.regStoppedFlag then (t, some false)
  else
    let r := t.pollSentTask
    if r.2 ∧ targetSeq ≤ r.1.processedSeq then (r.1, some true) else (r.1, none)

/-- `take_task` from its await on: poll the wait future, then look. -/
def resumeTakeTask (t : ClientTaskTimer B) (seq : ℕ) :
    ClientTaskTimer B × Option (Option (Task B)) :=
  match t.waitRegTaskPoll seq with
  | (t, none) => (t, none)
  | (t, some false) => (t, some none)
  | (t, some true) =>
    let r := t.removeTask seq
    (r.1, some r.2)

/-- The first poll of `take_task`. -/
def takeTask (t : ClientTaskTimer B) (seq : ℕ) : ClientTaskTimer B × Option (Option (Task B)) :=
  if seq < t.minDelaySeq then (t, some none)
  else if t.processedSeq < seq then t.resumeTakeTask seq
  else
    let r := t.removeTask seq
    (r.1, some r.2)

/-! ## Time and tear-down -/

/-- `check_pending_tasks_empty`: pull everything, then look for any task. -/
def checkPendingTasksEmpty (t : ClientTaskTimer B) : ClientTaskTimer B × Bool :=
  let t := t.pullPending
  (t, t.sentTasks.isEmpty && t.delayTasksQueue.all BTreeMap.isEmpty)

variable [ClientTask B]

/-- `clean_pending_tasks`: fail every task that is left. -/
def cleanPendingTasks (t : ClientTaskTimer B) : ClientTaskTimer B × List (Task B) :=
  let t := t.pullPending
  let tasks := t.sentTasks.values ++ t.delayTasksQueue.flatMap BTreeMap.values
  ({ t with
      sentTasks := .empty
      delayTasksQueue := t.delayTasksQueue.map fun _ => .empty },
    tasks.map (·.setRpcError .io))

/-- The loop over a timed-out batch that finds its least sequence number. -/
def minSeq (seqs : List ℕ) : ℕ :=
  seqs.foldl (fun minSeq seq => if minSeq = 0 ∨ seq < minSeq then seq else minSeq) 0

/-- `adjust_task_queue`: a second has passed. -/
def adjustTaskQueue (t : ClientTaskTimer B) : ClientTaskTimer B × List (Task B) :=
  let queue := t.sentTasks :: t.delayTasksQueue
  let t := { t with sentTasks := .empty, delayTasksQueue := queue }
  if t.taskTimeout < queue.length then
    let realTimeout := queue.getLast (List.cons_ne_nil _ _)
    let t := { t with delayTasksQueue := queue.dropLast }
    if realTimeout.isEmpty then (t, [])
    else
      ({ t with minDelaySeq := minSeq (realTimeout.values.map Task.key) },
        realTimeout.values.map (·.setRpcError .timeout))
  else (t, [])

end ClientTaskTimer

end RazorRpc
