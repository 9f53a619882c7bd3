import RazorRpc.Proto
import RazorRpc.Timer
import RazorRpc.Lib.Prog

/-!
# Reading responses and writing requests (`transport/tcp/src/client.rs`)

The transport of a client connection, as programs of atomic operations. The
receiving side (`Recv`) and the sending side (`Send`) run in different threads
over one connection; an operation is an access to what they share, to the
socket, or a call of the user's `ClientFacts`. Between two operations a program
only computes on its locals.

Reads wait (`readHead`, `readExact`, `resumeTakeTask`), and the future may be
dropped there. The buffer read into (`resp_buf`) is resized to the length asked
for and filled completely, so its earlier content never shows.
-/

namespace RazorRpc

open Bytes

/-! ## Operations of the receiver -/

/-- The outcome of reading a header: `closed` when the wait was cut short by the
close channel. -/
inductive HeadRead : Type where
  | ok (bytes : List UInt8)
  | err
  | closed

/-- What the receiving side does to the connection. -/
inductive RecvOp (B : Type) : Type where
  /-- `closed.load` -/
  | loadClosed
  /-- `closed.store(true)` -/
  | storeClosed
  /-- `has_err.load` -/
  | loadHasErr
  | checkPendingTasksEmpty
  /-- `read_exact` of a header; with `cancellable`, together with `close_rx.recv()` -/
  | readHead (cancellable : Bool)
  /-- `read_exact` into a buffer of `n` bytes, with time-out -/
  | readExact (n : ℕ)
  /-- the first poll of `take_task` -/
  | takeTask (seq : UInt64)
  /-- `take_task` from its await on -/
  | resumeTakeTask (seq : UInt64)
  /-- `task.done()` -/
  | done (t : Task B)
  /-- `facts.error_handle(task)` -/
  | errorHandle (t : Task B)
  /-- the `ClientTaskItem` goes out of scope, and with it the throttler's guard -/
  | dropItem
  /-- a panic -/
  | panic

/-- The answers to the receiver's operations; a read that fails answers `none`. -/
@[reducible] def RecvOp.Res {B : Type} : RecvOp B → Type
  | loadClosed => Bool
  | storeClosed => Unit
  | loadHasErr => Bool
  | checkPendingTasksEmpty => Bool
  | readHead _ => HeadRead
  | readExact _ => Option (List UInt8)
  | takeTask _ => Option (Option (Task B))
  | resumeTakeTask _ => Option (Task B)
  | done _ => Unit
  | errorHandle _ => Unit
  | dropItem => Unit
  | panic => Empty

/-- Programs of the receiving side. -/
abbrev Recv (B : Type) := Prog (RecvOp B) RecvOp.Res

namespace Recv

variable {B : Type}

def loadClosed : Recv B Bool := Prog.perform RecvOp.loadClosed
def storeClosed : Recv B Unit := Prog.perform RecvOp.storeClosed
def loadHasErr : Recv B Bool := Prog.perform RecvOp.loadHasErr
def checkPendingTasksEmpty : Recv B Bool := Prog.perform RecvOp.checkPendingTasksEmpty
def readHead (cancellable : Bool) : Recv B HeadRead := Prog.perform (RecvOp.readHead cancellable)
def readExact (n : ℕ) : Recv B (Option (List UInt8)) := Prog.perform (RecvOp.readExact n)
def done (t : Task B) : Recv B Unit := Prog.perform (RecvOp.done t)
def errorHandle (t : Task B) : Recv B Unit := Prog.perform (RecvOp.errorHandle t)
def dropItem : Recv B Unit := Prog.perform RecvOp.dropItem
def panic {α : Type} : Recv B α := Prog.act RecvOp.panic nofun

/-- `take_task`, which may wait for a registration. -/
def takeTask (seq : UInt64) : Recv B (Option (Task B)) :=
  Prog.act (RecvOp.takeTask seq) fun
    | some r => .ret r
    | none => Prog.perform (RecvOp.resumeTakeTask seq)

end Recv

/-! ## `TcpClient`, receiving -/

/-- What the transport takes from outside: the allocator of another crate (does
it give a buffer of this size, a positive one?) and whether the build checks
arithmetic. -/
structure Platform where
  alloc : Int32 → Bool
  overflowChecks : Bool

namespace TcpClient

open Recv

variable {B : Type} [ClientTask B]

/-- `Buffer::alloc` of the other crate. It asserts that the size is positive. -/
def allocBuffer (pf : Platform) (size : Int32) : Recv B Bool :=
  if 0 < size then return pf.alloc size else panic

/-- `_recv_and_dump`: read `l` bytes and forget them. `Ok(())` is `true`. The
length becomes an `i32`, negative from 2 GiB on. -/
def recvAndDump (pf : Platform) (l : ℕ) : Recv B Bool := do
  let size := Int32.ofNat l
  if ← allocBuffer pf size then
    match ← readExact size.toNatClampNeg with
    | some _ => return true
    | none => return false
  else return false

omit [ClientTask B] in
theorem recvAndDump_of_pos {pf : Platform} {l : ℕ} (h : 0 < Int32.ofNat l) :
    recvAndDump (B := B) pf l =
      if pf.alloc (Int32.ofNat l) then
        readExact (Int32.ofNat l).toNatClampNeg >>= fun r => Prog.ret r.isSome
      else Prog.ret false := by
  rw [recvAndDump, allocBuffer, if_pos h, Prog.pure_eq, Prog.ret_bind]
  refine if_congr Iff.rfl (congrArg (Prog.act _) (funext fun r => ?_)) rfl
  cases r <;> rfl

omit [ClientTask B] in
theorem recvAndDump_of_not_pos {pf : Platform} {l : ℕ} (h : ¬ 0 < Int32.ofNat l) :
    recvAndDump (B := B) pf l = panic := by
  rw [recvAndDump, allocBuffer, if_neg h, Recv.panic, Prog.act_bind]
  exact congrArg (Prog.act _) (funext fun r => by cases r)

/-- The error a response with an error string stands for. -/
def setErrString (task : Task B) (buf : List UInt8) : Task B :=
  if (ofStr rpcErrPrefix).isPrefixOf buf then
    match (toStr? buf).bind RpcIntErr.fromStr with
    | some e => task.setRpcError e
    | none => task.setCustomError (.buf buf) 0 0
  else task.setCustomError (.buf buf) 0 0

/-- `_recv_error`. A negative length does not fit a buffer, and a flag that is
neither of the two is `unreachable!()`. -/
def recvError (head : RespHead) (task : Task B) : Recv B Bool :=
  if head.flag = respFlagHasErrno then do
    errorHandle (task.setCustomError (.num head.msgLen) 0 0)
    return true
  else if head.flag = respFlagHasErrString then
    if head.blobLen < 0 then panic
    else do
      match ← readExact head.blobLen.toNatClampNeg with
      | none =>
        errorHandle (task.setRpcError .io)
        return false
      | some buf =>
        errorHandle (setErrString task buf)
        return true
  else panic

/-- The message of a response; `none` for a read error. -/
def recvMsg (head : RespHead) : Recv B (Option (List UInt8)) :=
  if 0 < head.msgLen then readExact head.msgLen.toNat else return some []

/-- The end of a response that has been read: decode, then complete the task. -/
def finishTask (head : RespHead) (task : Task B) (msg : List UInt8) : Recv B Bool :=
  if 0 < head.msgLen then
    match task.decodeResp msg with
    | (task, false) => do
      errorHandle (task.setRpcError .decode)
      return true
    | (task, true) => do
      done task.setOk
      return true
  else do
    done task.setOk
    return true

/-- The part of `_recv_resp_body` for a task that was found. -/
def recvTask (pf : Platform) (head : RespHead) (task : Task B) : Recv B Bool :=
  if 0 < head.flag then recvError head task
  else do
    match ← recvMsg head with
    | none =>
      errorHandle (task.setRpcError .io)
      return false
    | some msg =>
      if 0 < head.blobLen then
        match task.reserveRespBlob head.blobLen with
        | (task, none) =>
          errorHandle (task.setRpcError .decode)
          recvAndDump pf head.blobLen.toNatClampNeg
        | (task, some len) =>
          match ← readExact len with
          | none =>
            errorHandle (task.setRpcError .io)
            return false
          | some blob => finishTask head (task.fillRespBlob blob) msg
      else finishTask head task msg

/-- The length of the body of a response nobody waits for, a `u32`. -/
def dataLen (head : RespHead) : UInt32 :=
  if head.flag = 0 then head.msgLen + head.blobLen.toUInt32
  else if head.flag = respFlagHasErrString then head.blobLen.toUInt32
  else 0

/-- The part of `_recv_resp_body` for a response nobody waits for: skip its body.
The addition of the two lengths wraps, or panics in a build that checks
arithmetic. -/
def recvUnknown (pf : Platform) (head : RespHead) : Recv B Bool :=
  if head.flag = 0 ∧ pf.overflowChecks ∧
      2 ^ 32 ≤ head.msgLen.toNat + head.blobLen.toUInt32.toNat then panic
  else if 0 < dataLen head then recvAndDump pf (dataLen head).toNat
  else return true

/-- `_recv_resp_body` after `take_task`. -/
def recvFound (pf : Platform) (head : RespHead) : Option (Task B) → Recv B Bool
  | some task => do
    let r ← recvTask pf head task
    dropItem
    return r
  | none => recvUnknown pf head

/-- `_recv_resp_body`. -/
def recvRespBody (pf : Platform) (head : RespHead) : Recv B Bool := do
  let found ← takeTask head.seq
  recvFound pf head found

/-- `read_resp` after the header. -/
def recvHead (pf : Platform) : Except RpcIntErr RespHead → Recv B (Except RpcIntErr Bool)
  | .error e => return .error e
  | .ok head => do
    if ← recvRespBody pf head then return .ok true else return .error .io

/-- `read_resp`: `Ok(true)` after a response, `Ok(false)` when the close channel
fired first. -/
def readResp (pf : Platform) (closeCh : Bool) : Recv B (Except RpcIntErr Bool) := do
  match ← readHead closeCh with
  | .closed => return .ok false
  | .err => return .error .io
  | .ok headBuf => recvHead pf (RespHead.decodeHead headBuf)

end TcpClient

/-! ## Operations of the sender -/

/-- What the sending side does to the connection. -/
inductive SendOp (B : Type) : Type where
  /-- `throttler.nearly_full()` -/
  | nearlyFull
  /-- `pending_task_count.fetch_add(1)` -/
  | pendingAdd
  /-- `pending_task_count.fetch_sub(1)` -/
  | pendingSub
  | loadClosed
  | storeClosed
  | storeHasErr
  /-- `seq.fetch_add(1)` -/
  | seqUpdate
  /-- the encode buffer as it is -/
  | loadBuf
  | storeBuf (buf : HeadedBuf rpcReqHeaderLen)
  /-- `write_all`, with time-out -/
  | writeAll (bytes : List UInt8)
  /-- `flush`, with time-out -/
  | flush
  | shutdownWrite
  /-- `throttler.add_task()` -/
  | addTask
  /-- `timer.reg_task(task)`, which waits while the channel is full -/
  | regTask (t : Task B)
  /-- `throttler.throttle()`, which waits while too much is in flight -/
  | throttle
  | stopRegTask
  /-- `facts.error_handle(task)` -/
  | errorHandle (t : Task B)
  /-- the close handle is dropped -/
  | dropCloseTx

/-- The answers to the sender's operations; socket operations answer whether
they succeeded. -/
@[reducible] def SendOp.Res {B : Type} : SendOp B → Type
  | nearlyFull | loadClosed | writeAll _ | flush => Bool
  | seqUpdate => UInt64
  | loadBuf => HeadedBuf rpcReqHeaderLen
  | _ => Unit

/-- Programs of the sending side. -/
abbrev Send (B : Type) := Prog (SendOp B) SendOp.Res

namespace Send

variable {B : Type}

def nearlyFull : Send B Bool := Prog.perform SendOp.nearlyFull
def pendingAdd : Send B Unit := Prog.perform SendOp.pendingAdd
def pendingSub : Send B Unit := Prog.perform SendOp.pendingSub
def loadClosed : Send B Bool := Prog.perform SendOp.loadClosed
def storeClosed : Send B Unit := Prog.perform SendOp.storeClosed
def storeHasErr : Send B Unit := Prog.perform SendOp.storeHasErr
def seqUpdate : Send B UInt64 := Prog.perform SendOp.seqUpdate
def loadBuf : Send B (HeadedBuf rpcReqHeaderLen) := Prog.perform SendOp.loadBuf
def storeBuf (buf : HeadedBuf rpcReqHeaderLen) : Send B Unit := Prog.perform (SendOp.storeBuf buf)
def writeAll (bytes : List UInt8) : Send B Bool := Prog.perform (SendOp.writeAll bytes)
def flush : Send B Bool := Prog.perform SendOp.flush
def shutdownWrite : Send B Unit := Prog.perform SendOp.shutdownWrite
def addTask : Send B Unit := Prog.perform SendOp.addTask
def regTask (t : Task B) : Send B Unit := Prog.perform (SendOp.regTask t)
def throttle : Send B Unit := Prog.perform SendOp.throttle
def stopRegTask : Send B Unit := Prog.perform SendOp.stopRegTask
def errorHandle (t : Task B) : Send B Unit := Prog.perform (SendOp.errorHandle t)
def dropCloseTx : Send B Unit := Prog.perform SendOp.dropCloseTx

end Send

/-! ## `TcpClient`, sending -/

namespace TcpClient

variable {B : Type}

/-- `flush_req` of the transport. -/
def flushReq : Send B Bool := Send.flush

/-- The blob of a request, if there is one. -/
def writeBlob : Option (List UInt8) → Send B Bool
  | none => return true
  | some blob => Send.writeAll blob

/-- `write_req`: the encoded buffer, the blob, and a flush on demand. -/
def writeReq (buf : List UInt8) (blob : Option (List UInt8)) (needFlush : Bool) : Send B Bool := do
  if ← Send.writeAll buf then
    if ← writeBlob blob then
      if needFlush then flushReq else return true
    else return false
  else return false

/-- `close_conn`. -/
def closeConn : Send B Unit := do
  if ← flushReq then Send.shutdownWrite

end TcpClient

end RazorRpc
