import RazorRpc.Proto

/-!
# Reading requests (`transport/tcp/src/server.rs`)

`readReq` is `TcpServer::read_req` over the bytes the connection delivers: a
header, then the action string, the message and the blob, each of the length
the header says. Reading past the end of the stream is the I/O error.

The buffers the source reads into (`action_buf`, `msg_buf`) are resized to the
length asked for and then filled completely, so their earlier content never
shows; they are not part of the state. `Buffer::alloc` belongs to another crate
and is a parameter.
-/

namespace RazorRpc

open Bytes

/-- A request as the transport hands it to the dispatcher. -/
structure RpcSvrReq where
  seq : UInt64
  action : RpcAction
  msg : List UInt8
  blob : Option (List UInt8)
  deriving DecidableEq

/-- Computations that read from the bytes still to come. -/
abbrev Input := StateT (List UInt8) (Except RpcIntErr)

namespace Input

/-- `read_exact` into a buffer of `n` bytes. -/
def readExact (n : ℕ) : Input (List UInt8) := fun bs =>
  if n ≤ bs.length then .ok (bs.take n, bs.drop n) else .error .io

/-- The next `n` bytes are what is read, and nothing more. -/
theorem readExact_append {n : ℕ} {bs : List UInt8} (h : bs.length = n) (rest : List UInt8) :
    readExact n (bs ++ rest) = .ok (bs, rest) := by
  rw [readExact, if_pos (by rw [List.length_append]; omega), List.take_left' h,
    List.drop_left' h]

/-- Sequencing after a step that succeeds. -/
theorem bind_ok {α β : Type} {m : Input α} {f : α → Input β} {bs bs' : List UInt8} {a : α}
    (h : m bs = .ok (a, bs')) : (m >>= f) bs = f a bs' := by
  change (m bs >>= fun p => f p.1 p.2) = f a bs'
  rw [h]
  rfl

end Input

namespace TcpServer

open Input

/-- The action: a number stands in the header, a string follows it. -/
def readAction (head : ReqHead) : Input RpcAction :=
  match head.getAction with
  | .ok num => pure (.num num)
  | .error actionLen => do
    let actionBuf ← readExact actionLen.toNatClampNeg
    match toStr? actionBuf with
    | some s => pure (.str s)
    | none => throw .decode

def readMsg (head : ReqHead) : Input (List UInt8) :=
  if 0 < head.msgLen then readExact head.msgLen.toNat else pure []

/-- The blob, read into a buffer allocated for it. -/
def readBlob (alloc : Int32 → Bool) (head : ReqHead) : Input (Option (List UInt8)) :=
  let blobLen := head.blobLen.toInt32
  if 0 < blobLen then
    if alloc blobLen then some <$> readExact blobLen.toNatClampNeg else throw .decode
  else pure none

/-- `read_req`: one request off the stream. -/
def readReq (alloc : Int32 → Bool) : Input RpcSvrReq := do
  let headBuf ← readExact rpcReqHeaderLen
  match ReqHead.decodeHead headBuf with
  | .error _ => throw .decode
  | .ok head =>
    let action ← readAction head
    let msg ← readMsg head
    let blob ← readBlob alloc head
    return { seq := head.seq, action, msg, blob }

/-- `read_req` called `n` times. -/
def readReqs (alloc : Int32 → Bool) : ℕ → Input (List RpcSvrReq)
  | 0 => pure []
  | n + 1 => do
    let req ← readReq alloc
    let reqs ← readReqs alloc n
    return req :: reqs

end TcpServer

end RazorRpc
