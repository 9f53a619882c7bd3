import RazorRpc.Error

/-!
# Tasks (`stream/src/client/task.rs`, `stream/src/server/task.rs`)

What the framework asks of a user's task, on either side of a connection.

* `ClientTask B` — the client-side trait, over the user's own part `B` of a
  task. The framework's part is `Task B`: the `ClientTaskCommon` a task derefs
  to (its `seq`) and, as a ghost, the identity of the object. No trait method
  can reach either, so a task keeps both through every call.
* `ServerTaskEncode T` — the server-side trait, with the four task types the
  repository ships.

Trait methods that append to a caller's buffer are modelled by what they
append *and* what they return (`Written`, `EncodedResp`): a codec may fail after
some bytes are already in the buffer.
-/

namespace RazorRpc

/-- The action of a request: a name or a number (`proto.rs`). -/
inductive RpcAction : Type where
  | str (s : String)
  | num (n : Int32)
  deriving DecidableEq

/-- The effect of encoding a message into a buffer: the bytes appended, and the
size returned (`none` for `Err(())`). -/
structure Written where
  /-- appended to the buffer, also when encoding fails half-way -/
  bytes : List UInt8
  /-- `Ok(size)` or `Err(())` -/
  ret : Option ℕ

/-- `Codec::encode_into` for the messages of type `M`. -/
class Codec (M : Type) where
  encodeInto : M → Written

/-- `MsgpCodec::encode_into` over the serializer `writeNamed` of the
MessagePack crate, which appends and may then fail: the size returned is the
growth of the buffer. -/
def MsgpCodec.encodeInto {M : Type} (writeNamed : M → List UInt8 × Bool) (msg : M) : Written :=
  let (bytes, ok) := writeNamed msg
  ⟨bytes, if ok then some bytes.length else none⟩

/-! ## Client side -/

/-- The client-side task trait, codec applied. -/
class ClientTask (B : Type) where
  getAction : B → RpcAction
  /-- append the message to the buffer -/
  encodeReq : B → Written
  getReqBlob : B → Option (List UInt8)
  /-- `decode_resp(&mut self, ..)`: the task afterwards, and whether it is `Ok` -/
  decodeResp : B → List UInt8 → B × Bool
  /-- `reserve_resp_blob(&mut self, size)`: the task afterwards, and the length
  of the slice handed out, if any -/
  reserveRespBlob : B → Int32 → B × Option ℕ
  /-- the task after the slice handed out has been filled -/
  fillRespBlob : B → List UInt8 → B
  setCustomError : B → EncodedErr → ℕ → UInt64 → B
  setRpcError : B → RpcIntErr → B
  setOk : B → B

/-- A client task as the framework sees it. -/
@[ext] structure Task (B : Type) where
  /-- ghost: which object this is -/
  id : ℕ
  /-- `ClientTaskCommon::seq` -/
  seq : UInt64
  /-- the user's part -/
  body : B
  deriving DecidableEq

namespace Task

variable {B : Type}

/-- The key a task is registered under. -/
def key (t : Task B) : ℕ := t.seq.toNat

def setSeq (t : Task B) (seq : UInt64) : Task B := { t with seq := seq }

variable [ClientTask B]

def setCustomError (t : Task B) (e : EncodedErr) (lastIndex : ℕ) (confVer : UInt64) : Task B :=
  { t with body := ClientTask.setCustomError t.body e lastIndex confVer }

def setRpcError (t : Task B) (e : RpcIntErr) : Task B :=
  { t with body := ClientTask.setRpcError t.body e }

def setOk (t : Task B) : Task B := { t with body := ClientTask.setOk t.body }

/-- `reserve_resp_blob`: the task afterwards and the slice's length. -/
def reserveRespBlob (t : Task B) (size : Int32) : Task B × Option ℕ :=
  let r := ClientTask.reserveRespBlob t.body size
  ({ t with body := r.1 }, r.2)

def fillRespBlob (t : Task B) (bs : List UInt8) : Task B :=
  { t with body := ClientTask.fillRespBlob t.body bs }

def decodeResp (t : Task B) (bs : List UInt8) : Task B × Bool :=
  let r := ClientTask.decodeResp t.body bs
  ({ t with body := r.1 }, r.2)

end Task

/-- How a task ends: `done()`, or `facts.error_handle`. -/
inductive Completion (B : Type) : Type where
  | done (t : Task B)
  | errorHandled (t : Task B)
  deriving DecidableEq

namespace Completion

variable {B : Type}

/-- Which object ended. -/
def id : Completion B → ℕ
  | done t => t.id
  | errorHandled t => t.id

/-- A proper end: `done()` after `set_ok`, error handling after an error was set. -/
def Proper [ClientTask B] : Completion B → Prop
  | done t => ∃ t' : Task B, t = t'.setOk
  | errorHandled t => (∃ (t' : Task B) (e : RpcIntErr), t = t'.setRpcError e) ∨
      ∃ (t' : Task B) (e : EncodedErr) (lastIndex : ℕ) (confVer : UInt64),
        t = t'.setCustomError e lastIndex confVer

end Completion

/-- The request of the API layer (`src/client/task.rs`): the message is encoded
already, and the response is kept undecoded until the caller picks it up. The
one-shot channel `done` answers on is the framework's completion event. -/
structure APIClientReq where
  reqMsg : Option (List UInt8)
  /-- in `Service.method` format -/
  action : String
  resp : Option (List UInt8)
  res : Option (Except EncodedErr Unit)
  configVer : UInt64
  lastIndex : ℕ
  deriving DecidableEq

instance : ClientTask APIClientReq where
  getAction r := .str r.action
  encodeReq r :=
    match r.reqMsg with
    | some msg => ⟨msg, some msg.length⟩
    | none => ⟨[], some 0⟩
  getReqBlob _ := none
  decodeResp r buf := (if buf.isEmpty then r else { r with resp := some buf }, true)
  reserveRespBlob r _ := (r, none)
  fillRespBlob r _ := r
  setCustomError r e lastIndex configVer := { r with res := some (.error e), lastIndex, configVer }
  setRpcError r e := { r with res := some (.error (.rpc e)) }
  setOk r := { r with res := some (.ok ()) }

/-- A fresh API request. -/
def APIClientReq.new (action : String) (reqMsg : List UInt8) : APIClientReq :=
  { reqMsg := some reqMsg, action, resp := none, res := none, configVer := 0, lastIndex := 0 }

/-! ## Server side -/

/-- The outcome of `encode_resp`: the sequence number, what was appended to the
buffer, and the result: message length and blob, or an error. -/
structure EncodedResp where
  seq : UInt64
  /-- appended to the buffer, also when the result is an error -/
  written : List UInt8
  result : Except EncodedErr (ℕ × Option (List UInt8))

/-- How to encode a server response. -/
class ServerTaskEncode (T : Type) where
  encodeResp : T → EncodedResp

/-- `RpcErrCodec::encode`, codec applied. -/
class RpcErrCodec (E : Type) where
  encode : E → EncodedErr

/-- The unit error is sent as the number 0. -/
instance : RpcErrCodec Unit := ⟨fun _ => .num 0⟩

/-- Encode a message as a response: a codec failure becomes `Encode`. -/
def encodeMsg {M : Type} [Codec M] (seq : UInt64) (msg : M) (blob : Option (List UInt8)) :
    EncodedResp :=
  let w := Codec.encodeInto msg
  match w.ret with
  | none => ⟨seq, w.bytes, .error (.rpc .encode)⟩
  | some len => ⟨seq, w.bytes, .ok (len, blob)⟩

/-- A request turned into its response. `res` is set before the task reaches the
writer, so the `panic!` on a missing result is not representable. -/
structure ServerTaskVariant (M E : Type) where
  seq : UInt64
  msg : M
  blob : Option (List UInt8)
  res : Except E Unit

/-- Request and response in one task; without `resp` the response is empty. -/
structure ServerTaskVariantFull (P E : Type) where
  seq : UInt64
  resp : Option P
  respBlob : Option (List UInt8)
  res : Except E Unit

/-- The response of the API layer: a pre-encoded message (`src/server/task.rs`). -/
structure APIServerResp where
  seq : UInt64
  msg : Option (List UInt8)
  res : Except EncodedErr Unit

/-- A pre-encoded response with a blob (`stream/src/server/mod.rs`). -/
structure RpcSvrResp where
  seq : UInt64
  msg : Option (List UInt8)
  blob : Option (List UInt8)
  res : Except EncodedErr Unit

/-- Write a message that is encoded already. -/
def writePreEncoded (seq : UInt64) (msg blob : Option (List UInt8))
    (res : Except EncodedErr Unit) : EncodedResp :=
  match res, msg with
  | .ok (), some msg => ⟨seq, msg, .ok (msg.length, blob)⟩
  | .ok (), none => ⟨seq, [], .ok (0, blob)⟩
  | .error e, _ => ⟨seq, [], .error e⟩

instance {M E : Type} [Codec M] [RpcErrCodec E] : ServerTaskEncode (ServerTaskVariant M E) where
  encodeResp t := match t.res with
    | .ok () => encodeMsg t.seq t.msg t.blob
    | .error e => ⟨t.seq, [], .error (RpcErrCodec.encode e)⟩

instance {P E : Type} [Codec P] [RpcErrCodec E] :
    ServerTaskEncode (ServerTaskVariantFull P E) where
  encodeResp t := match t.res, t.resp with
    | .ok (), some resp => encodeMsg t.seq resp t.respBlob
    | .ok (), none => ⟨t.seq, [], .ok (0, t.respBlob)⟩
    | .error e, _ => ⟨t.seq, [], .error (RpcErrCodec.encode e)⟩

instance : ServerTaskEncode APIServerResp where
  encodeResp t := writePreEncoded t.seq t.msg none t.res

instance : ServerTaskEncode RpcSvrResp where
  encodeResp t := writePreEncoded t.seq t.msg t.blob t.res

end RazorRpc
