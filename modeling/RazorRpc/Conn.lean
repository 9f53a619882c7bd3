import RazorRpc.ConnProto
import RazorRpc.Lib.Lts

/-!
# A connection as a system

The sender, the receiver and the rest of the world share one `ClientStreamInner`.
A step of the system is one operation of one side; everything else may happen in
between. What arrives on the socket, when a tick is due and whether a write
succeeds is up to the label of the step.

* `Conn` — the shared state, with the ghost record the results are about: who
  holds a task at the moment, and what became of it. The phases of the two sides
  advance by their protocols.
* `SendOp.exec`, `RecvOp.exec` — what each operation does to it.
* `Receiver` — `receive_loop` with `ReceiverTimerFuture::poll` unrolled; the
  receive future it polls is a program, and dropping the future drops the task
  among its locals.
* `Sys.next` — the steps; `SenderStep` and `ReceiverStep` say once what a step
  can be.
-/

namespace RazorRpc

open Prog ClientStream

/-- The fixed parameters of a connection. -/
structure ConnConfig where
  clientId : UInt64
  taskTimeout : ℕ
  thresholds : ℕ
  platform : Platform

/-- The shared state of a connection. -/
structure Conn (B : Type) where
  closed : Bool
  hasErr : Bool
  seq : UInt64
  encodeBuf : Bytes.HeadedBuf rpcReqHeaderLen
  timer : ClientTaskTimer B
  /-- the throttler: guards alive, and its threshold -/
  inflight : ℕ
  thresholds : ℕ
  /-- the close handle is alive -/
  closeTx : Bool
  /-- a `ClientTaskItem` is among the locals of the receive future -/
  item : Bool
  /-- ghost: how far the call of the sender has come -/
  send : SendPhase
  /-- ghost: how far the receive future has come -/
  recv : RecvPhase
  /-- ghost: identity of the next task sent -/
  nextId : ℕ
  /-- ghost: the numbers drawn for tasks -/
  taskSeqs : List UInt64
  /-- ghost: the numbers of the requests that went out -/
  wire : List UInt64
  /-- ghost: tasks registered -/
  registered : List (Task B)
  /-- ghost: tasks completed -/
  completed : List (Completion B)
  /-- ghost: tasks dropped with the receive future -/
  dropped : List ℕ

namespace Conn

variable {B : Type}

/-- `ClientStreamInner::new`. -/
def new (cfg : ConnConfig) : Conn B :=
  let thresholds := if cfg.thresholds = 0 then 128 else cfg.thresholds
  { closed := false, hasErr := false, seq := 1
    encodeBuf := .withCapacity rpcReqHeaderLen (1024 - rpcReqHeaderLen)
    timer := .new cfg.taskTimeout thresholds
    inflight := 0, thresholds, closeTx := true, item := false
    send := .start none, recv := ⟨none, .nothing⟩, nextId := 0, taskSeqs := [], wire := []
    registered := [], completed := [], dropped := [] }

/-- The receiver leaves the registry like this; the guards of the items replaced
on the way are gone. -/
def setTimer (c : Conn B) (timer : ClientTaskTimer B) : Conn B :=
  { c with timer, inflight := c.inflight - (timer.replaced - c.timer.replaced) }

/-- The receive future is dropped with its locals. -/
def dropFuture (c : Conn B) : Conn B :=
  { c with
    dropped := c.dropped ++ c.recv.held.toList
    recv := ⟨none, .nothing⟩
    inflight := if c.item then c.inflight - 1 else c.inflight
    item := false }

variable [ClientTask B]

/-- `time_reach`. -/
def timeReach (c : Conn B) : Conn B :=
  let r := c.timer.adjustTaskQueue
  { c with
    timer := r.1
    completed := c.completed ++ r.2.map .errorHandled
    inflight := c.inflight - r.2.length }

/-- `clean_pending_tasks`. -/
def clean (c : Conn B) : Conn B :=
  let r := c.timer.cleanPendingTasks
  let c := c.setTimer r.1
  { c with
    completed := c.completed ++ r.2.map .errorHandled
    inflight := c.inflight - r.2.length }

end Conn

/-! ## Operations -/

section Exec

variable {B : Type}

/-- The sender's operations; `ok` is what the socket answers. -/
def SendOp.exec (ok : Bool) : Handler (SendOp B) SendOp.Res (Conn B)
  | .nearlyFull, c => (c, some (decide (c.thresholds < c.inflight + 1)))
  | .pendingAdd, c =>
    ({ c with timer := { c.timer with pendingTaskCount := c.timer.pendingTaskCount + 1 } }, some ())
  | .pendingSub, c =>
    ({ c with timer := { c.timer with pendingTaskCount := c.timer.pendingTaskCount - 1 } }, some ())
  | .loadClosed, c => (c, some c.closed)
  | .storeClosed, c => ({ c with closed := true }, some ())
  | .storeHasErr, c => ({ c with hasErr := true }, some ())
  | .seqUpdate, c =>
    ({ c with
        seq := c.seq + 1
        taskSeqs := if c.send.owned.isSome then c.taskSeqs ++ [c.seq] else c.taskSeqs },
      some c.seq)
  | .loadBuf, c => (c, some c.encodeBuf)
  | .storeBuf buf, c => ({ c with encodeBuf := buf }, some ())
  | .writeAll _, c => ({ c with wire := c.wire ++ c.send.drawn.toList }, some ok)
  | .flush, c => (c, some ok)
  | .shutdownWrite, c => (c, some ())
  | .addTask, c => ({ c with inflight := c.inflight + 1 }, some ())
  | .regTask t, c =>
    match c.timer.regTask t with
    | some timer => ({ c with timer, registered := c.registered ++ [t] }, some ())
    | none => (c, none)
  | .throttle, c => if c.inflight ≤ c.thresholds then (c, some ()) else (c, none)
  | .stopRegTask, c => ({ c with timer := c.timer.stopRegTask }, some ())
  | .errorHandle t, c => ({ c with completed := c.completed ++ [.errorHandled t] }, some ())
  | .dropCloseTx, c => ({ c with closeTx := false }, some ())

/-- What a read of the receiver finds on the socket. -/
inductive Arrival : Type where
  | nothing
  | bytes (bs : List UInt8)
  | error

/-- The receiver's operations. A header read that is raced by the close channel
ends when the channel has fired and the header is not the one to win. -/
def RecvOp.exec (arrival : Arrival) : Handler (RecvOp B) RecvOp.Res (Conn B)
  | .loadClosed, c => (c, some c.closed)
  | .storeClosed, c => ({ c with closed := true }, some ())
  | .loadHasErr, c => (c, some c.hasErr)
  | .checkPendingTasksEmpty, c =>
    let r := c.timer.checkPendingTasksEmpty
    (c.setTimer r.1, some r.2)
  | .readHead cancellable, c =>
    match arrival with
    | .bytes bs => (c, if bs.length = rpcRespHeaderLen then some (.ok bs) else none)
    | .error => (c, some .err)
    | .nothing => (c, if cancellable && !c.closeTx then some .closed else none)
  | .readExact n, c =>
    match arrival with
    | .bytes bs => (c, if bs.length = n then some (some bs) else none)
    | .error => (c, some none)
    | .nothing => (c, none)
  | .takeTask seq, c =>
    let r := c.timer.takeTask seq.toNat
    ({ c.setTimer r.1 with item := r.2.join.isSome }, some r.2)
  | .resumeTakeTask seq, c =>
    let r := c.timer.resumeTakeTask seq.toNat
    ({ c.setTimer r.1 with item := r.2.join.isSome }, r.2)
  | .done t, c => ({ c with completed := c.completed ++ [.done t] }, some ())
  | .errorHandle t, c => ({ c with completed := c.completed ++ [.errorHandled t] }, some ())
  | .dropItem, c => ({ c with item := false, inflight := c.inflight - 1 }, some ())
  | .panic, c => (c, none)

/-- Reading leaves the shared state alone. -/
theorem RecvOp.exec_readHead (arrival : Arrival) (cancellable : Bool) (c : Conn B) :
    (RecvOp.exec arrival (.readHead cancellable) c).1 = c := by
  cases arrival <;> rfl

theorem RecvOp.exec_readExact (arrival : Arrival) (n : ℕ) (c : Conn B) :
    (RecvOp.exec arrival (.readExact n) c).1 = c := by
  cases arrival <;> rfl

/-- What the receiver's operations leave alone. -/
theorem RecvOp.exec_frame {arrival : Arrival} {o : RecvOp B} {c c' : Conn B} {a : Option o.Res}
    (h : RecvOp.exec arrival o c = (c', a)) :
    c'.send = c.send ∧ c'.recv = c.recv ∧ c'.dropped = c.dropped := by
  obtain rfl : (RecvOp.exec arrival o c).1 = c' := congrArg Prod.fst h
  cases o with
  | readHead cancellable =>
    rw [RecvOp.exec_readHead]
    exact ⟨rfl, rfl, rfl⟩
  | readExact n =>
    rw [RecvOp.exec_readExact]
    exact ⟨rfl, rfl, rfl⟩
  | _ => exact ⟨rfl, rfl, rfl⟩

/-- A registration that goes through. -/
theorem SendOp.exec_regTask {ok : Bool} {t : Task B} {c c' : Conn B} {a : Unit}
    (h : SendOp.exec ok (.regTask t) c = (c', some a)) :
    ∃ timer, c.timer.regTask t = some timer ∧
      c' = { c with timer, registered := c.registered ++ [t] } := by
  simp only [SendOp.exec] at h
  rcases hreg : c.timer.regTask t with _ | timer
  · rw [hreg] at h
    cases h
  · rw [hreg] at h
    cases h
    exact ⟨timer, rfl, rfl⟩

/-- The throttler lets the sender go. -/
theorem SendOp.exec_throttle {ok : Bool} {c c' : Conn B} {a : Unit}
    (h : SendOp.exec ok .throttle c = (c', some a)) : c' = c := by
  simp only [SendOp.exec] at h
  split at h
  · cases h
    rfl
  · cases h

/-- What the sender's operations leave alone. -/
theorem SendOp.exec_frame {ok : Bool} {o : SendOp B} {c c' : Conn B} {a : o.Res}
    (h : SendOp.exec ok o c = (c', some a)) : c'.recv = c.recv ∧ c'.dropped = c.dropped := by
  cases o with
  | regTask t =>
    obtain ⟨timer, -, rfl⟩ := SendOp.exec_regTask h
    exact ⟨rfl, rfl⟩
  | throttle =>
    rw [SendOp.exec_throttle h]
    exact ⟨rfl, rfl⟩
  | _ =>
    cases h
    exact ⟨rfl, rfl⟩

end Exec

/-! ## The two sides -/

/-- Where the sender is. -/
inductive Sender (B : Type) : Type where
  | idle
  /-- in a call; `dropping` for `Drop for ClientStream` -/
  | running (dropping : Bool) (p : Send B (Except RpcIntErr Unit))
  /-- the `ClientStream` is gone -/
  | gone

/-- How far a poll of `ReceiverTimerFuture` has come; `polling` is inside the
poll of the receive future. -/
inductive Stage : Type where
  | suspended
  | ticking
  | checking
  | pulling
  | polling
  deriving DecidableEq

/-- Where `receive_loop` is. -/
inductive Receiver (B : Type) : Type where
  /-- at the selector, with what is left of the receive future -/
  | future (stage : Stage) (p : Recv B (Option RpcIntErr))
  /-- the receive future ended with an error, or was given up -/
  | failed
  | cleaning
  /-- at the test of `pending_task_count` -/
  | draining
  | sleeping
  | returned
  | panicked

section

variable {B : Type}

def Sender.isGone : Sender B → Bool
  | gone => true
  | _ => false

/-- The coroutine has ended. -/
def Receiver.isOver : Receiver B → Bool
  | returned | panicked => true
  | _ => false

def Receiver.isReturned : Receiver B → Bool
  | returned => true
  | _ => false

theorem Receiver.eq_returned {r : Receiver B} (h : r.isReturned = true) : r = .returned := by
  cases r <;> first | rfl | cases h

end

/-- The calls a user makes on a `ClientStream`. -/
inductive Call (B : Type) : Type where
  | sendTask (t : Task B) (needFlush : Bool)
  | flushReq
  | ping
  | setErrorAndExit
  | drop

/-- A connection with its two sides. -/
structure Sys (B : Type) where
  conn : Conn B
  sender : Sender B
  receiver : Receiver B
  /-- `ClientStreamInner` has been dropped -/
  innerDropped : Bool

/-- What happens next. -/
inductive Label (B : Type) : Type where
  | call (call : Call B)
  /-- the sender goes on; what the socket answers it -/
  | sender (ok : Bool)
  /-- the receiver goes on; whether a tick is due, and what arrives -/
  | receiver (tick : Bool) (arrival : Arrival)
  | dropInner

namespace Sys

variable {B : Type} [ClientTask B]

/-- One operation of the sender, or the end of its call. -/
def stepSender (ok : Bool) (c : Conn B) : Sender B → Option (Conn B × Sender B)
  | .idle => none
  | .running dropping (.ret _) =>
    some ({ c with send := .start none }, if dropping then .gone else .idle)
  | .running dropping (.act o k) =>
    match SendOp.exec ok o c with
    | (c', some r) => some ({ c' with send := sending.next c.send o r }, .running dropping (k r))
    | (_, none) => none
  | .gone => none

/-- What a step of the sender can be. -/
inductive SenderStep (ok : Bool) (c : Conn B) : Sender B → Conn B → Sender B → Prop
  | finish (dropping : Bool) (r : Except RpcIntErr Unit) :
      SenderStep ok c (.running dropping (.ret r)) { c with send := .start none }
        (if dropping then .gone else .idle)
  | op (dropping : Bool) {o : SendOp B} {k : o.Res → Send B (Except RpcIntErr Unit)}
      {c' : Conn B} {a : o.Res} (h : SendOp.exec ok o c = (c', some a)) :
      SenderStep ok c (.running dropping (.act o k)) { c' with send := sending.next c.send o a }
        (.running dropping (k a))

theorem stepSender_cases {ok : Bool} {c c' : Conn B} {p p' : Sender B}
    (h : stepSender ok c p = some (c', p')) : SenderStep ok c p c' p' := by
  cases p with
  | idle => cases h
  | gone => cases h
  | running dropping prog =>
    cases prog with
    | ret r =>
      cases h
      exact SenderStep.finish dropping r
    | act o k =>
      simp only [stepSender] at h
      rcases hexec : SendOp.exec ok o c with ⟨c₁, _ | a⟩
      · rw [hexec] at h
        cases h
      · rw [hexec] at h
        cases h
        exact SenderStep.op dropping hexec

/-- `ClientStream::connect`, with the receive loop spawned. -/
def init (cfg : ConnConfig) : Sys B where
  conn := .new cfg
  sender := .idle
  receiver := .future .suspended (recvOneResp cfg.platform)
  innerDropped := false

/-- The program of a call on a task with this identity. -/
def program (cfg : ConnConfig) (id : ℕ) : Call B → Send B (Except RpcIntErr Unit)
  | .sendTask t needFlush => sendTask cfg.clientId { t with id } needFlush
  | .flushReq => ClientStream.flushReq
  | .ping => sendPingReq cfg.clientId
  | .setErrorAndExit => ClientStream.setErrorAndExit
  | .drop => dropStream

/-- A call begins; a task that is sent gets an identity of its own. -/
def begin (cfg : ConnConfig) (c : Conn B) (call : Call B) : Conn B × Sender B :=
  let p := program cfg c.nextId call
  match call with
  | .sendTask _ _ =>
    ({ c with send := .start (some c.nextId), nextId := c.nextId + 1 }, .running false p)
  | .drop => (c, .running true p)
  | _ => (c, .running false p)

/-- One step of the receive loop. -/
def stepReceiver (pf : Platform) (tick : Bool) (arrival : Arrival) (c : Conn B) :
    Receiver B → Option (Conn B × Receiver B)
  | .future .suspended p => some (c, .future .ticking p)
  | .future .ticking p =>
    if tick then some (c.timeReach, .future .ticking p) else some (c, .future .checking p)
  | .future .checking p =>
    if c.hasErr then some (c.dropFuture, .failed) else some (c, .future .pulling p)
  | .future .pulling p =>
    some (c.setTimer c.timer.pollSentTask.1, .future .polling p)
  | .future .polling (.ret none) => some (c, .future .polling (recvOneResp pf))
  | .future .polling (.ret (some _)) => some (c, .failed)
  | .future .polling (.act .panic _) => some (c.dropFuture, .panicked)
  | .future .polling (.act o k) =>
    match RecvOp.exec arrival o c with
    | (c', some r) => some ({ c' with recv := receiving.next c.recv o r }, .future .polling (k r))
    | (c', none) => some (c', .future .suspended (.act o k))
  | .failed => some ({ c with closed := true }, .cleaning)
  | .cleaning => some (c.clean, .draining)
  | .draining =>
    if 0 < c.timer.pendingTaskCount then some (c.clean, .sleeping) else some (c, .returned)
  | .sleeping => some (c, .draining)
  | .returned => none
  | .panicked => none

/-- The last reference goes when both sides are gone. -/
def innerUnused (s : Sys B) : Bool := s.sender.isGone && s.receiver.isOver && !s.innerDropped

/-- The steps of the system. -/
def next (cfg : ConnConfig) (s : Sys B) : Label B → Option (Sys B)
  | .call call =>
    match s.sender with
    | .idle =>
      let r := begin cfg s.conn call
      some { s with conn := r.1, sender := r.2 }
    | _ => none
  | .sender ok =>
    (stepSender ok s.conn s.sender).map fun r => { s with conn := r.1, sender := r.2 }
  | .receiver tick arrival =>
    (stepReceiver cfg.platform tick arrival s.conn s.receiver).map fun r =>
      { s with conn := r.1, receiver := r.2 }
  | .dropInner =>
    if s.innerUnused then some { s with conn := s.conn.clean, innerDropped := true } else none

/-- What a step of the receive loop can be. -/
inductive ReceiverStep (pf : Platform) (arrival : Arrival) (c : Conn B) :
    Receiver B → Conn B → Receiver B → Prop
  /-- the next part of `ReceiverTimerFuture::poll` -/
  | stage {stage stage' : Stage} (p : Recv B (Option RpcIntErr))
      (h : stage ≠ .pulling ∧ stage ≠ .polling ∧ stage' ≠ .suspended ∧ stage' ≠ .polling) :
      ReceiverStep pf arrival c (.future stage p) c (.future stage' p)
  | tick (p : Recv B (Option RpcIntErr)) :
      ReceiverStep pf arrival c (.future .ticking p) c.timeReach (.future .ticking p)
  | giveUp (p : Recv B (Option RpcIntErr)) (h : c.hasErr = true) :
      ReceiverStep pf arrival c (.future .checking p) c.dropFuture .failed
  | pull (p : Recv B (Option RpcIntErr)) :
      ReceiverStep pf arrival c (.future .pulling p) (c.setTimer c.timer.pullPending)
        (.future .polling p)
  | again :
      ReceiverStep pf arrival c (.future .polling (.ret none)) c
        (.future .polling (recvOneResp pf))
  | fail (e : RpcIntErr) :
      ReceiverStep pf arrival c (.future .polling (.ret (some e))) c .failed
  | panic (k : Empty → Recv B (Option RpcIntErr)) :
      ReceiverStep pf arrival c (.future .polling (.act .panic k)) c.dropFuture .panicked
  | op {o : RecvOp B} {k : o.Res → Recv B (Option RpcIntErr)} {c' : Conn B} {a : o.Res}
      (h : RecvOp.exec arrival o c = (c', some a)) :
      ReceiverStep pf arrival c (.future .polling (.act o k))
        { c' with recv := receiving.next c.recv o a } (.future .polling (k a))
  | wait {o : RecvOp B} {k : o.Res → Recv B (Option RpcIntErr)} {c' : Conn B}
      (h : RecvOp.exec arrival o c = (c', none)) :
      ReceiverStep pf arrival c (.future .polling (.act o k)) c' (.future .suspended (.act o k))
  | close : ReceiverStep pf arrival c .failed { c with closed := true } .cleaning
  | clean : ReceiverStep pf arrival c .cleaning c.clean .draining
  | drain : ReceiverStep pf arrival c .draining c.clean .sleeping
  | leave : ReceiverStep pf arrival c .draining c .returned
  | wake : ReceiverStep pf arrival c .sleeping c .draining

/-- An operation of the receive future that is no panic. -/
theorem stepReceiver_act (pf : Platform) (tick : Bool) (arrival : Arrival) (c : Conn B)
    {o : RecvOp B} (h : o ≠ .panic) (k : o.Res → Recv B (Option RpcIntErr)) :
    stepReceiver pf tick arrival c (.future .polling (.act o k)) =
      match RecvOp.exec arrival o c with
      | (c', some r) =>
        some ({ c' with recv := receiving.next c.recv o r }, .future .polling (k r))
      | (c', none) => some (c', .future .suspended (.act o k)) := by
  cases o <;> first | rfl | exact absurd rfl h

theorem stepReceiver_polling {pf : Platform} {tick : Bool} {arrival : Arrival} {c c' : Conn B}
    {p : Recv B (Option RpcIntErr)} {r : Receiver B}
    (h : stepReceiver pf tick arrival c (.future .polling p) = some (c', r)) :
    ReceiverStep pf arrival c (.future .polling p) c' r := by
  rcases p with (_ | e) | ⟨o, k⟩
  · cases h
    exact .again
  · cases h
    exact .fail e
  · by_cases hpanic : o = .panic
    · subst hpanic
      cases h
      exact .panic k
    · rw [stepReceiver_act _ _ _ _ hpanic] at h
      rcases hexec : RecvOp.exec arrival o c with ⟨c₁, _ | a⟩
      · rw [hexec] at h
        cases h
        exact .wait hexec
      · rw [hexec] at h
        cases h
        exact .op hexec

theorem stepReceiver_cases {pf : Platform} {tick : Bool} {arrival : Arrival} {c c' : Conn B}
    {r r' : Receiver B} (h : stepReceiver pf tick arrival c r = some (c', r')) :
    ReceiverStep pf arrival c r c' r' := by
  cases r with
  | future stage p =>
    cases stage with
    | suspended =>
      cases h
      exact .stage p (by decide)
    | ticking =>
      simp only [stepReceiver] at h
      split at h
      · cases h
        exact .tick p
      · cases h
        exact .stage p (by decide)
    | checking =>
      simp only [stepReceiver] at h
      split at h
      · rename_i herr
        cases h
        exact .giveUp p herr
      · cases h
        exact .stage p (by decide)
    | pulling =>
      cases h
      exact .pull p
    | polling => exact stepReceiver_polling h
  | failed =>
    cases h
    exact .close
  | cleaning =>
    cases h
    exact .clean
  | draining =>
    simp only [stepReceiver] at h
    split at h
    · cases h
      exact .drain
    · cases h
      exact .leave
  | sleeping =>
    cases h
    exact .wake
  | returned => cases h
  | panicked => cases h

/-! ## Runs of the API layer -/

/-- A connection for requests of the API layer. -/
def apiConfig : ConnConfig :=
  { clientId := 9, taskTimeout := 20, thresholds := 128, platform := ⟨fun _ => true, true⟩ }

/-- The sender goes on for `n` operations, all of them successful. -/
def sends (n : ℕ) : List (Label APIClientReq) := List.replicate n (.sender true)

/-- The receiver goes on for `n` steps while nothing arrives. -/
def receives (n : ℕ) : List (Label APIClientReq) := List.replicate n (.receiver false .nothing)

end Sys

end RazorRpc
