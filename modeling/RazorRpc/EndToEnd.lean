import RazorRpc.ReqStream
import RazorRpc.RespFrame
import RazorRpc.RespStream
import RazorRpc.Service
import Mathlib.Data.List.Nodup

/-!
# A call from end to end

A call over one `ConnPool`, when nothing fails on the way: the endpoint encodes the
argument, the request is framed and written, the server reads and dispatches it, the
method runs, the answer is framed and written, the client reads it into the task and
the caller takes the result out.

* `Link` — what a call finds: buffers in use before, other requests and responses on
  the wire, a registry with other tasks;
* `Link.call` — the stages one after the other;
* `Method.respItem`, `RespItem.frame` — what the stages hand on.

The stages compose to the identity on results and errors, up to the length of an
error string: `call_transparent_iff`.
-/

namespace RazorRpc

open Bytes Prog ClientTaskTimer RespInput

/-! ## The stages -/

/-- `Codec::decode` undoes `Codec::encode`, and no message is encoded as nothing. -/
def Serde.Lawful (M : Type) [Serde M] : Prop :=
  ∀ x : M, ∃ b : List UInt8, Serde.encode x = some b ∧ b ≠ [] ∧ Serde.decode b = some x

/-- The task of a completion: `error_handle` of the API's facts is `done()` as well. -/
def Completion.task {B : Type} : Completion B → Task B
  | done t => t
  | errorHandled t => t

/-- What the writer of a connection writes for an item. -/
def writeItem (buf : HeadedBuf rpcRespHeaderLen) : RespItem → List UInt8
  | .ok resp =>
    let (buf, _, blob) := RespHead.encode buf resp
    buf.bytes ++ blob.getD []
  | .error (seq, err) => (RespHead.encodeInternal buf seq err).1.bytes

/-- The connection a call is made over. -/
structure Link where
  clientId : UInt64
  /-- the sequence number the call gets -/
  seq : UInt64
  id : ℕ
  /-- the buffers of client and server, as earlier requests left them -/
  reqBuf : HeadedBuf rpcReqHeaderLen
  respBuf : HeadedBuf rpcRespHeaderLen
  /-- what follows on the wire -/
  reqRest : List UInt8
  respRest : List UInt8
  /-- the allocators of server and client have memory -/
  alloc : Int32 → Bool
  alloc_ok : ∀ n, 0 < n → alloc n = true
  pf : Platform
  pf_ok : ∀ n, 0 < n → pf.alloc n = true
  closeCh : Bool
  /-- the registry when the response arrives -/
  timer : ClientTaskTimer APIClientReq

/-- `endpoint_async` calls a method by this name. -/
def serviceMethod (service method : String) : String := service ++ "." ++ method

namespace Link

variable {W : Type}

/-- The task of a request on this connection. -/
def taskOf (l : Link) (r : APIClientReq) : Task APIClientReq := ⟨l.id, l.seq, r⟩

/-- The request goes there and back: the request with its result, and the state of the
services afterwards. `none` if a stage fails. -/
def exchange (l : Link) (api : ServiceStatic W) (w : W) (r : APIClientReq) :
    Option (APIClientReq × W) := do
  let wire := (ClientOp.write l.clientId l.reqBuf (.task (l.taskOf r))).2
  let (req, _) ← (TcpServer.readReq l.alloc (wire ++ l.reqRest)).toOption
  let (_, s) ← Reader.handle api req ⟨⟨true, []⟩, w⟩
  match s.noti.items with
  | [item] =>
    match poll handler (TcpClient.readResp l.pf l.closeCh)
        ⟨writeItem l.respBuf item ++ l.respRest, l.timer, []⟩ with
    | (⟨_, _, [completion]⟩, .ret (.ok true)) => some (completion.task.body, s.world)
    | _ => none
  | _ => none

/-- `ConnPool::call`. -/
def call (l : Link) (api : ServiceStatic W) (w : W) (service : String) (m : Method W)
    [Inhabited m.Resp] (arg : m.Arg) : Option (Except (RpcError m.Err) m.Resp) := do
  let msg ← Serde.encode arg
  let (r, _) ← l.exchange api w (.new (serviceMethod service m.name) msg)
  (r.processRes m.Err m.Resp).2

/-- The registry is one that operations lead to, and it has the task. -/
structure Awaits (l : Link) (r : APIClientReq) : Prop where
  reach : ∃ taskTimeout thresholds hi, Reach taskTimeout thresholds hi l.timer
  ready : l.timer.Ready l.seq.toNat
  lookup : l.timer.lookup l.seq.toNat = some (l.taskOf r)

end Link

/-! ## The request -/

/-- A request of the API is read back as it was sent. -/
theorem Link.readReq_write (l : Link) {action : String} {msg : List UInt8}
    (haction : (ofStr action).length < 2 ^ 31) (hmsg : msg.length ≤ u32Max) :
    TcpServer.readReq l.alloc ((ClientOp.write l.clientId l.reqBuf
        (.task (l.taskOf (.new action msg)))).2 ++ l.reqRest) =
      .ok (⟨l.seq, .str action, msg, none⟩, l.reqRest) := by
  have henc : ReqHead.Encodes (l.taskOf (.new action msg)).body :=
    ⟨⟨msg.length, rfl, hmsg⟩, Nat.zero_le _⟩
  obtain ⟨req, hreq, hread⟩ := readReq_writeTask l.alloc_ok appendsWhatItReturns_api l.clientId
    l.reqBuf henc haction l.reqRest
  rw [ClientOp.request?, if_pos henc] at hreq
  rw [hread, ← Option.some.inj hreq]
  rfl

/-! ## The method -/

section

variable {W : Type}

/-- The item that carries the result of a method. -/
def Method.respItem (m : Method W) (seq : UInt64) : Except (RpcError m.Err) m.Resp → RespItem
  | .ok resp =>
    match Serde.encode resp with
    | some msg => .ok ⟨seq, some msg, .ok ()⟩
    | none => .ok ⟨seq, none, .error (.rpc .encode)⟩
  | .error (.rpc e) => .ok ⟨seq, none, .error (.rpc e)⟩
  | .error (.user e) => .ok ⟨seq, none, .error (RpcErrCodec.encode e)⟩

/-- A request says in one way what it calls. -/
theorem RpcSvrReq.Calls.unique {req : RpcSvrReq} {service method service' method' : String}
    (h : req.Calls service method) (h' : req.Calls service' method') :
    service = service' ∧ method = method' := by
  have haction : service ++ "." ++ method = service' ++ "." ++ method' :=
    RpcAction.str.inj (h.1.symm.trans h'.1)
  have hsplit := splitOnce_append h.2 method
  have hsplit' := splitOnce_append h'.2 method'
  rw [show String.singleton '.' = "." from rfl] at hsplit hsplit'
  rw [haction, hsplit'] at hsplit
  obtain ⟨hservice, hmethod⟩ := Prod.mk.inj (Option.some.inj hsplit)
  exact ⟨hservice.symm, hmethod.symm⟩

/-- Names are distinct, so a name means one service. -/
theorem ServiceStatic.Has.unique {api : ServiceStatic W} {name : String} {s s' : Service W}
    (h : api.Has name s) (h' : api.Has name s') : s = s' := by
  cases api with
  | service svc => exact h.trans h'.symm
  | muxDyn services | muxStruct services =>
    exact List.inj_on_of_nodup_map services.distinct h.1 h'.1 (h.2.trans h'.2.symm)

theorem ServiceStatic.IsFor.unique {api : ServiceStatic W} {req : RpcSvrReq} {m m' : Method W}
    (h : api.IsFor req m) (h' : api.IsFor req m') : m = m' := by
  obtain ⟨service, s, hcalls, hhas, hm⟩ := h
  obtain ⟨service', s', hcalls', hhas', hm'⟩ := h'
  obtain ⟨rfl, hname⟩ := hcalls.unique hcalls'
  obtain rfl := hhas.unique hhas'
  exact List.inj_on_of_nodup_map s.distinct hm hm' hname

/-- A request for a method is answered with what the method returns. -/
theorem Answer.of_isFor {api : ServiceStatic W} {req : RpcSvrReq} {m : Method W} {w w' : W}
    {item : RespItem} (h : Answer api req w item w') (hfor : api.IsFor req m) {arg : m.Arg}
    (harg : Serde.decode req.msg = some arg) :
    item = m.respItem req.seq (m.run arg w).1 ∧ w' = (m.run arg w).2 := by
  obtain ⟨service, s, hcalls, hhas, hm⟩ := id hfor
  cases h with
  | ping haction => cases haction.symm.trans hcalls.1
  | number haction => cases haction.symm.trans hcalls.1
  | undotted haction hdot =>
    rw [RpcAction.str.inj (haction.symm.trans hcalls.1)] at hdot
    simp at hdot
  | noService hcalls' hnone =>
    obtain ⟨rfl, -⟩ := hcalls.unique hcalls'
    exact absurd hhas (hnone s)
  | noMethod hcalls' hhas' hnone =>
    obtain ⟨rfl, hname⟩ := hcalls.unique hcalls'
    obtain rfl := hhas.unique hhas'
    exact absurd hname (hnone m hm)
  | badArg hfor' harg' =>
    obtain rfl := hfor.unique hfor'
    cases harg.symm.trans harg'
  | badResp hfor' harg' hrun hmsg =>
    obtain rfl := hfor.unique hfor'
    obtain rfl := Option.some.inj (harg.symm.trans harg')
    rw [hrun]
    simp only [Method.respItem, hmsg, and_self]
  | ok hfor' harg' hrun hmsg =>
    obtain rfl := hfor.unique hfor'
    obtain rfl := Option.some.inj (harg.symm.trans harg')
    rw [hrun]
    simp only [Method.respItem, hmsg, and_self]
  | rpcErr hfor' harg' hrun | userErr hfor' harg' hrun =>
    obtain rfl := hfor.unique hfor'
    obtain rfl := Option.some.inj (harg.symm.trans harg')
    rw [hrun]
    exact ⟨rfl, rfl⟩

/-- The reader runs the method and puts its result on the channel. -/
theorem Reader.handle_isFor {api : ServiceStatic W} {req : RpcSvrReq} {m : Method W}
    (hfor : api.IsFor req m) {arg : m.Arg} (harg : Serde.decode req.msg = some arg) (w : W) :
    Reader.handle api req ⟨⟨true, []⟩, w⟩ =
      some (.ok (), ⟨⟨true, [m.respItem req.seq (m.run arg w).1]⟩, (m.run arg w).2⟩) := by
  obtain ⟨r, item, w', hhandle, hanswer, hok⟩ := Reader.handle_answer api req ⟨⟨true, []⟩, w⟩
  obtain ⟨rfl, rfl⟩ := hanswer.of_isFor hfor harg
  rw [hhandle, hok rfl]
  rfl

end

/-! ## The response -/

/-- A pre-encoded message within the limit is framed as it is. -/
theorem writeItem_ok (buf : HeadedBuf rpcRespHeaderLen) (seq : UInt64) {msg : List UInt8}
    (hmsg : msg.length ≤ u32Max) :
    writeItem buf (.ok ⟨seq, some msg, .ok ()⟩) =
      ((RespBody.ok msg []).head seq).toBytes ++ msg := by
  have hfit : FitsHead msg.length none := ⟨hmsg, Nat.zero_le _⟩
  have hout : ServerTaskEncode.encodeResp (⟨seq, some msg, .ok ()⟩ : APIServerResp) =
      ⟨seq, msg, .ok (msg.length, none)⟩ := rfl
  have henc := RespHead.encode_ok buf hout rfl
  rw [if_pos hfit] at henc
  simp only [writeItem]
  rw [henc]
  simp only [Option.getD_none, List.append_nil]
  exact RespHead.bytes_writeHead buf msg seq 0 _ _

/-- An error is framed as its string. -/
theorem writeItem_error (buf : HeadedBuf rpcRespHeaderLen) (seq : UInt64) (e : EncodedErr) :
    writeItem buf (.ok ⟨seq, none, .error e⟩) =
      (RespHead.ofError seq e).toBytes ++ (RespHead.errString e).getD [] := by
  have := RespHead.bytes_encodeError buf [] seq e
  simp only [writeItem, RespHead.encode, ServerTaskEncode.encodeResp, writePreEncoded]
  rw [this]
  simp

/-- The header of an error that has a string. -/
theorem ofError_eq_head (seq : UInt64) {e : EncodedErr} {s : List UInt8}
    (hs : RespHead.errString e = some s) :
    RespHead.ofError seq e = (RespBody.errString s).head seq := by
  cases e with
  | num n => cases hs
  | rpc e | static e | buf e =>
    rw [RespHead.ofError, hs]
    rfl

/-- A negative length is no size of a buffer. -/
theorem recvTask_negative {pf : Platform} {head : RespHead} (hflag : head.flag = respFlagHasErrString)
    (hneg : head.blobLen < 0) (task : Task APIClientReq) :
    TcpClient.recvTask pf head task = Recv.panic := by
  simp only [TcpClient.recvTask, TcpClient.recvError, hflag, if_pos hneg]
  rfl

section Client

variable {l : Link} {r : APIClientReq}

/-- `read_resp` comes to the task that waits. -/
theorem Link.Awaits.poll_readResp (h : l.Awaits r) {head : RespHead} (hseq : head.seq = l.seq)
    (hdecode : RespHead.decodeHead head.toBytes = .ok head) (payload : List UInt8) :
    poll handler (TcpClient.readResp l.pf l.closeCh) ⟨head.toBytes ++ payload, l.timer, []⟩ =
      poll handler (do
        if ← TcpClient.recvFound l.pf head (some (l.taskOf r)) then return .ok true
        else return .error .io) ⟨payload, (l.timer.takeTask l.seq.toNat).1, []⟩ := by
  obtain ⟨_, _, hi, hreach⟩ := h.reach
  obtain ⟨hfound, -⟩ := hreach.inv.takeTask_of_ready h.ready
  have htake : handler (RecvOp.takeTask head.seq) ⟨payload, l.timer, []⟩ =
      (⟨payload, (l.timer.takeTask l.seq.toNat).1, []⟩, some (some (some (l.taskOf r)))) := by
    simp only [handler, hseq, hfound, h.lookup]
  rw [TcpClient.readResp, poll_bind (poll_readHead head.length_toBytes l.closeCh payload l.timer [])]
  change poll handler (TcpClient.recvHead l.pf (RespHead.decodeHead head.toBytes)) _ = _
  rw [hdecode]
  exact poll_act htake _

/-- The task is completed by the response. -/
theorem Link.Awaits.poll_completed (h : l.Awaits r) {head : RespHead} (hseq : head.seq = l.seq)
    (hdecode : RespHead.decodeHead head.toBytes = .ok head) {payload rest : List UInt8}
    {t : ClientTaskTimer APIClientReq} {c : Completion APIClientReq}
    (hrecv : poll handler (TcpClient.recvTask l.pf head (l.taskOf r))
      ⟨payload, (l.timer.takeTask l.seq.toNat).1, []⟩ = (⟨rest, t, [c]⟩, ret true)) :
    poll handler (TcpClient.readResp l.pf l.closeCh) ⟨head.toBytes ++ payload, l.timer, []⟩ =
      (⟨rest, t, [c]⟩, ret (.ok true)) := by
  rw [h.poll_readResp hseq hdecode]
  refine poll_bind (a := true) ?_ _
  exact poll_bind hrecv _

/-- The receiver panics over the response. -/
theorem Link.Awaits.poll_panic (h : l.Awaits r) {head : RespHead} (hseq : head.seq = l.seq)
    (hdecode : RespHead.decodeHead head.toBytes = .ok head) {payload : List UInt8}
    (hrecv : TcpClient.recvTask l.pf head (l.taskOf r) = Recv.panic) :
    ∃ s k, poll handler (TcpClient.readResp l.pf l.closeCh) ⟨head.toBytes ++ payload, l.timer, []⟩ =
      (s, act .panic k) := by
  rw [h.poll_readResp hseq hdecode]
  have hfound : TcpClient.recvFound l.pf head (some (l.taskOf r)) = Recv.panic >>= fun r => (do
      Recv.dropItem
      return r) := by
    rw [TcpClient.recvFound, hrecv]
  rw [hfound]
  exact ⟨_, _, rfl⟩

/-- A message completes the request. -/
theorem Link.Awaits.poll_ok (h : l.Awaits r) {msg : List UInt8} (hmsg : msg.length ≤ u32Max)
    (hne : msg ≠ []) :
    ∃ s, poll handler (TcpClient.readResp l.pf l.closeCh)
        ⟨writeItem l.respBuf (.ok ⟨l.seq, some msg, .ok ()⟩) ++ l.respRest, l.timer, []⟩ =
      (⟨l.respRest, s, [.done (l.taskOf { r with resp := some msg, res := some (.ok ()) })]⟩,
        ret (.ok true)) := by
  have hblob : ([] : List UInt8).length ≤ i32Max := Nat.zero_le _
  have hrecv := poll_recvTask_ok l.pf_ok reservesExactly_api hmsg hblob
    l.seq (l.taskOf r) l.respRest (l.timer.takeTask l.seq.toNat).1 []
  rw [List.nil_append] at hrecv
  have hcomplete : (RespBody.ok msg []).complete (l.taskOf r) =
      .done (l.taskOf { r with resp := some msg, res := some (.ok ()) }) := by
    have hempty : msg.isEmpty = false := by simpa using hne
    simp [RespBody.complete, placeBlob, decodeMsg, hne, Task.decodeResp, ClientTask.decodeResp,
      hempty, Task.setOk, ClientTask.setOk, Link.taskOf]
  rw [hcomplete] at hrecv
  rw [writeItem_ok l.respBuf l.seq hmsg, List.append_assoc]
  exact ⟨_, h.poll_completed rfl (RespHead.decodeHead_new _ _ _ _) hrecv⟩

/-- An error number completes the request. -/
theorem Link.Awaits.poll_errno (h : l.Awaits r) (n : UInt32) :
    ∃ s, poll handler (TcpClient.readResp l.pf l.closeCh)
        ⟨writeItem l.respBuf (.ok ⟨l.seq, none, .error (.num n)⟩) ++ l.respRest, l.timer, []⟩ =
      (⟨l.respRest, s, [.errorHandled ((l.taskOf r).setCustomError (.num n) 0 0)]⟩,
        ret (.ok true)) := by
  rw [writeItem_error, List.append_assoc]
  exact ⟨_, h.poll_completed rfl (RespHead.decodeHead_new _ _ _ _) rfl⟩

/-- An error string within the limit of its field completes the request. -/
theorem Link.Awaits.poll_errString (h : l.Awaits r) {e : EncodedErr} {s : List UInt8}
    (hs : RespHead.errString e = some s) (hfits : s.length ≤ i32Max) :
    ∃ t, poll handler (TcpClient.readResp l.pf l.closeCh)
        ⟨writeItem l.respBuf (.ok ⟨l.seq, none, .error e⟩) ++ l.respRest, l.timer, []⟩ =
      (⟨l.respRest, t, [.errorHandled (TcpClient.setErrString (l.taskOf r) s)]⟩,
        ret (.ok true)) := by
  have hrecv := poll_recvError hfits l.seq (l.taskOf r) l.respRest
    (l.timer.takeTask l.seq.toNat).1 []
  rw [writeItem_error, hs, ofError_eq_head l.seq hs, List.append_assoc]
  exact ⟨_, h.poll_completed rfl (RespHead.decodeHead_new _ _ _ _) hrecv⟩

/-- An error string over the limit of its field is too much for the client. -/
theorem Link.Awaits.poll_long (h : l.Awaits r) {e : EncodedErr} {s : List UInt8}
    (hs : RespHead.errString e = some s) (hlong : i32Max < s.length) (hmax : s.length ≤ u32Max) :
    ∃ s k, poll handler (TcpClient.readResp l.pf l.closeCh)
        ⟨writeItem l.respBuf (.ok ⟨l.seq, none, .error e⟩) ++ l.respRest, l.timer, []⟩ =
      (s, act .panic k) := by
  rw [writeItem_error, hs, ofError_eq_head l.seq hs, List.append_assoc]
  have hneg : ((RespBody.errString s).head l.seq).blobLen < 0 := by
    change Int32.ofNat s.length < 0
    exact ofNat_i32_neg hlong hmax
  have hseq : ((RespBody.errString s).head l.seq).seq = l.seq := rfl
  exact h.poll_panic hseq
    (RespHead.decodeHead_new _ _ _ _) (recvTask_negative rfl hneg _)

end Client

/-! ## The result -/

/-- An error as the client finds it on the wire: a number or a string. -/
def EncodedErr.onWire : EncodedErr → Except (List UInt8) UInt32
  | .num n => .ok n
  | .rpc e => .error e.asBytes
  | .buf b => .error b
  | .static s => .error (ofStr s)

/-- `RpcErrCodec::decode` undoes `encode` on this error. -/
def RpcErrDecode.Inverts {E : Type} [RpcErrDecode E] (e : E) : Prop :=
  RpcErrDecode.decode (RpcErrCodec.encode e).onWire = some e

/-- The error is not encoded as one of the framework's own names. -/
def RpcErrCodec.Unreserved {E : Type} [RpcErrCodec E] (e : E) : Prop :=
  ∀ x : RpcIntErr, RespHead.errString (RpcErrCodec.encode e) ≠ some x.asBytes

/-- A name of the framework's own is recognised. -/
theorem setErrString_asBytes {B : Type} [ClientTask B] (task : Task B) (e : RpcIntErr) :
    TcpClient.setErrString task e.asBytes = task.setRpcError e := by
  have hprefix : (ofStr rpcErrPrefix).isPrefixOf e.asBytes = true := by cases e <;> decide +kernel
  rw [TcpClient.setErrString, if_pos hprefix]
  simp only [RpcIntErr.asBytes, toStr?_ofStr, Option.bind_some, RpcIntErr.fromStr_asRef]

/-- Any other string is the user's. -/
theorem setErrString_unreserved {B : Type} [ClientTask B] (task : Task B) {s : List UInt8}
    (h : ∀ x : RpcIntErr, s ≠ x.asBytes) :
    TcpClient.setErrString task s = task.setCustomError (.buf s) 0 0 := by
  have hnone : (toStr? s).bind RpcIntErr.fromStr = none := by
    rw [Option.eq_none_iff_forall_ne_some]
    intro x hx
    obtain ⟨str, hstr, hfind⟩ := Option.bind_eq_some_iff.mp hx
    have hname := List.find?_some hfind
    refine h x ?_
    rw [← ofStr_eq_of_toStr? hstr, RpcIntErr.asBytes, eq_of_beq hname]
  simp only [TcpClient.setErrString, hnone, ite_self]

/-! ## All stages together -/

section Call

variable {W : Type}

/-- Every part of the call is within the limits of the length fields. -/
structure FitsWire (service : String) (m : Method W) (arg : m.Arg) (w : W) : Prop where
  action : (ofStr (serviceMethod service m.name)).length < 2 ^ 31
  req : ∀ msg, Serde.encode arg = some msg → msg.length ≤ u32Max
  resp : ∀ v msg, (m.run arg w).1 = .ok v → Serde.encode v = some msg → msg.length ≤ u32Max
  err : ∀ e s, (m.run arg w).1 = .error (.user e) →
    RespHead.errString (RpcErrCodec.encode e) = some s → s.length ≤ u32Max

/-- A call of a method that the server has, over a connection that waits for it. -/
structure ReadyCall (l : Link) (api : ServiceStatic W) (w : W) (svc : Service W) (m : Method W)
    (arg : m.Arg) : Prop where
  has : api.Has svc.name svc
  mem : m ∈ svc.methods
  arg_lawful : Serde.Lawful m.Arg
  resp_lawful : Serde.Lawful m.Resp
  fits : FitsWire svc.name m arg w
  awaits : ∀ msg, Serde.encode arg = some msg →
    l.Awaits (.new (serviceMethod svc.name m.name) msg)

namespace ReadyCall

variable {l : Link} {api : ServiceStatic W} {w : W} {svc : Service W} {m : Method W} {arg : m.Arg}

/-- The request reaches the method, and its result is what the client reads. -/
theorem exchange_eq (h : ReadyCall l api w svc m arg) {msg : List UInt8}
    (hmsg : Serde.encode arg = some msg) :
    l.exchange api w (.new (serviceMethod svc.name m.name) msg) =
      match poll handler (TcpClient.readResp l.pf l.closeCh)
        ⟨writeItem l.respBuf (m.respItem l.seq (m.run arg w).1) ++ l.respRest, l.timer, []⟩ with
      | (⟨_, _, [completion]⟩, .ret (.ok true)) =>
        some (completion.task.body, (m.run arg w).2)
      | _ => none := by
  obtain ⟨b, hb, -, hdecode⟩ := h.arg_lawful arg
  obtain rfl := Option.some.inj (hmsg.symm.trans hb)
  have hread := l.readReq_write h.fits.action (h.fits.req msg hmsg)
  have hfor : api.IsFor ⟨l.seq, .str (serviceMethod svc.name m.name), msg, none⟩ m :=
    ⟨svc.name, svc, ⟨rfl, svc.dotless⟩, h.has, h.mem⟩
  have hhandle := Reader.handle_isFor hfor hdecode w
  simp only [Link.exchange, hread, Except.toOption, Option.bind_eq_bind, Option.bind_some, hhandle]

variable [Inhabited m.Resp]

/-- What the caller makes of a completed request. -/
theorem call_of_poll (h : ReadyCall l api w svc m arg)
    {c : List UInt8 → Completion APIClientReq}
    (hpoll : ∀ msg, Serde.encode arg = some msg → ∃ t,
      poll handler (TcpClient.readResp l.pf l.closeCh)
        ⟨writeItem l.respBuf (m.respItem l.seq (m.run arg w).1) ++ l.respRest, l.timer, []⟩ =
      (⟨l.respRest, t, [c msg]⟩, ret (.ok true))) :
    ∃ msg, Serde.encode arg = some msg ∧
      l.call api w svc.name m arg = ((c msg).task.body.processRes m.Err m.Resp).2 := by
  obtain ⟨msg, hmsg, -, -⟩ := h.arg_lawful arg
  obtain ⟨t, hpoll⟩ := hpoll msg hmsg
  have hexchange := h.exchange_eq hmsg
  rw [hpoll] at hexchange
  refine ⟨msg, hmsg, ?_⟩
  simp only [Link.call, hmsg, Option.bind_eq_bind, Option.bind_some, hexchange]

/-- `Ok` arrives as `Ok`. -/
theorem call_ok (h : ReadyCall l api w svc m arg) {v : m.Resp} (hrun : (m.run arg w).1 = .ok v) :
    l.call api w svc.name m arg = some (.ok v) := by
  obtain ⟨resp, hresp, hne, hdecode⟩ := h.resp_lawful v
  obtain ⟨msg, hmsg, hcall⟩ := h.call_of_poll fun msg hmsg => by
    have hitem : m.respItem l.seq (m.run arg w).1 = .ok ⟨l.seq, some resp, .ok ()⟩ := by
      rw [hrun]
      simp only [Method.respItem, hresp]
    rw [hitem]
    exact (h.awaits msg hmsg).poll_ok (h.fits.resp v resp hrun hresp) hne
  rw [hcall]
  simp only [Completion.task, Link.taskOf, APIClientReq.processRes, hdecode]

/-- An error of the framework arrives as that error. -/
theorem call_rpc (h : ReadyCall l api w svc m arg) {e : RpcIntErr}
    (hrun : (m.run arg w).1 = .error (.rpc e)) :
    l.call api w svc.name m arg = some (.error (.rpc e)) := by
  have hfits : e.asBytes.length ≤ i32Max := by cases e <;> decide +kernel
  obtain ⟨msg, hmsg, hcall⟩ := h.call_of_poll fun msg hmsg => by
    rw [hrun]
    exact (h.awaits msg hmsg).poll_errString (e := .rpc e) rfl hfits
  rw [hcall, setErrString_asBytes]
  rfl

/-- A number arrives as the number, whatever it decodes to. -/
theorem call_errno (h : ReadyCall l api w svc m arg) {e : m.Err} {n : UInt32}
    (hrun : (m.run arg w).1 = .error (.user e)) (hn : RpcErrCodec.encode e = .num n) :
    l.call api w svc.name m arg = some (APIClientReq.decodeErr m.Err m.Resp (.ok n)) := by
  obtain ⟨msg, hmsg, hcall⟩ := h.call_of_poll fun msg hmsg => by
    rw [hrun, Method.respItem, hn]
    exact (h.awaits msg hmsg).poll_errno n
  rw [hcall]
  rfl

/-- A string of the user arrives as the string. -/
theorem call_errString (h : ReadyCall l api w svc m arg) {e : m.Err} {s : List UInt8}
    (hrun : (m.run arg w).1 = .error (.user e))
    (hs : RespHead.errString (RpcErrCodec.encode e) = some s) (hfits : s.length ≤ i32Max)
    (hfree : ∀ x : RpcIntErr, s ≠ x.asBytes) :
    l.call api w svc.name m arg = some (APIClientReq.decodeErr m.Err m.Resp (.error s)) := by
  obtain ⟨msg, hmsg, hcall⟩ := h.call_of_poll fun msg hmsg => by
    rw [hrun]
    exact (h.awaits msg hmsg).poll_errString hs hfits
  rw [hcall, setErrString_unreserved _ hfree]
  rfl

/-- A reserved name arrives as the framework's error. -/
theorem call_reserved (h : ReadyCall l api w svc m arg) {e : m.Err} {x : RpcIntErr}
    (hrun : (m.run arg w).1 = .error (.user e))
    (hs : RespHead.errString (RpcErrCodec.encode e) = some x.asBytes) :
    l.call api w svc.name m arg = some (.error (.rpc x)) := by
  have hfits : x.asBytes.length ≤ i32Max := by cases x <;> decide +kernel
  obtain ⟨msg, hmsg, hcall⟩ := h.call_of_poll fun msg hmsg => by
    rw [hrun]
    exact (h.awaits msg hmsg).poll_errString hs hfits
  rw [hcall, setErrString_asBytes]
  rfl

/-- A string that is too long for its length field never arrives. -/
theorem call_long (h : ReadyCall l api w svc m arg) {e : m.Err} {s : List UInt8}
    (hrun : (m.run arg w).1 = .error (.user e))
    (hs : RespHead.errString (RpcErrCodec.encode e) = some s) (hlong : i32Max < s.length) :
    l.call api w svc.name m arg = none := by
  obtain ⟨msg, hmsg, -, -⟩ := h.arg_lawful arg
  obtain ⟨s', k, hpoll⟩ := (h.awaits msg hmsg).poll_long hs hlong (h.fits.err e s hrun hs)
  have hexchange := h.exchange_eq hmsg
  rw [hrun, Method.respItem, hpoll] at hexchange
  simp only [Link.call, hmsg, Option.bind_eq_bind, Option.bind_some, hexchange, Option.bind_none]

/-- An error never arrives as `Ok`. -/
theorem call_user_ne_ok (h : ReadyCall l api w svc m arg) {e : m.Err}
    (hrun : (m.run arg w).1 = .error (.user e)) (v : m.Resp) :
    l.call api w svc.name m arg ≠ some (.ok v) := by
  have hdecode : ∀ b, APIClientReq.decodeErr m.Err m.Resp b ≠ .ok v := by
    intro b
    rw [APIClientReq.decodeErr]
    split <;> rintro ⟨⟩
  rcases hs : RespHead.errString (RpcErrCodec.encode e) with _ | s
  · rcases hn : RpcErrCodec.encode e with x | n | s | b
    · rw [hn] at hs
      cases hs
    · rw [h.call_errno hrun hn]
      exact fun heq => hdecode _ (Option.some.inj heq)
    · rw [hn] at hs
      cases hs
    · rw [hn] at hs
      cases hs
  · by_cases hreserved : ∃ x : RpcIntErr, s = x.asBytes
    · obtain ⟨x, rfl⟩ := hreserved
      rw [h.call_reserved hrun hs]
      rintro ⟨⟩
    · by_cases hlong : i32Max < s.length
      · rw [h.call_long hrun hs hlong]
        rintro ⟨⟩
      · rw [h.call_errString hrun hs (Nat.le_of_not_lt hlong) fun x hx => hreserved ⟨x, hx⟩]
        exact fun heq => hdecode _ (Option.some.inj heq)

/-- An error that decodes to itself and fits arrives as itself. -/
theorem call_user (h : ReadyCall l api w svc m arg) {e : m.Err}
    (hrun : (m.run arg w).1 = .error (.user e)) (hinv : RpcErrDecode.Inverts e)
    (hfree : RpcErrCodec.Unreserved e)
    (hfits : ((RespHead.errString (RpcErrCodec.encode e)).getD []).length ≤ i32Max) :
    l.call api w svc.name m arg = some (.error (.user e)) := by
  rw [RpcErrDecode.Inverts] at hinv
  have hstring : ∀ s, RespHead.errString (RpcErrCodec.encode e) = some s →
      (RpcErrCodec.encode e).onWire = .error s →
      l.call api w svc.name m arg = some (.error (.user e)) := by
    intro s hs hwire
    rw [hs] at hfits
    rw [h.call_errString hrun hs hfits fun x hx => hfree x (hs.trans (congrArg some hx))]
    rw [hwire] at hinv
    rw [APIClientReq.decodeErr, hinv]
  rcases henc : RpcErrCodec.encode e with x | n | s | b
  · exact hstring x.asBytes (by rw [henc]; rfl) (by rw [henc]; rfl)
  · rw [h.call_errno hrun henc]
    rw [henc] at hinv
    rw [APIClientReq.decodeErr]
    exact congrArg some (by rw [show RpcErrDecode.decode (.ok n) = some e from hinv])
  · exact hstring (ofStr s) (by rw [henc]; rfl) (by rw [henc]; rfl)
  · exact hstring b (by rw [henc]; rfl) (by rw [henc]; rfl)

end ReadyCall

/-- The result of a call is the method's own result. -/
structure Transparent (l : Link) (api : ServiceStatic W) (w : W) (svc : Service W) (m : Method W)
    [Inhabited m.Resp] (arg : m.Arg) : Prop where
  ok : ∀ v, l.call api w svc.name m arg = some (.ok v) ↔ (m.run arg w).1 = .ok v
  rpc : ∀ e, (m.run arg w).1 = .error (.rpc e) →
    l.call api w svc.name m arg = some (.error (.rpc e))
  user : ∀ e, (m.run arg w).1 = .error (.user e) → RpcErrDecode.Inverts e →
    RpcErrCodec.Unreserved e → l.call api w svc.name m arg = some (.error (.user e))

/-- **Transparency.** Over every connection, for every method of every server and every
argument, when nothing fails on the way: the call returns what the method returned,
exactly if the string of an error that should arrive is no longer than the signed length
field allows. -/
theorem call_transparent_iff {l : Link} {api : ServiceStatic W} {w : W} {svc : Service W}
    {m : Method W} [Inhabited m.Resp] {arg : m.Arg} (h : ReadyCall l api w svc m arg) :
    Transparent l api w svc m arg ↔
      ∀ e, (m.run arg w).1 = .error (.user e) → RpcErrDecode.Inverts e →
        RpcErrCodec.Unreserved e →
        ((RespHead.errString (RpcErrCodec.encode e)).getD []).length ≤ i32Max := by
  constructor
  · intro ht e hrun hinv hfree
    have hcall := ht.user e hrun hinv hfree
    rcases hs : RespHead.errString (RpcErrCodec.encode e) with _ | s
    · exact Nat.zero_le _
    · by_contra hlong
      rw [h.call_long hrun hs (Nat.lt_of_not_le hlong)] at hcall
      cases hcall
  · intro hfits
    refine ⟨fun v => ⟨fun hcall => ?_, h.call_ok⟩, fun e => h.call_rpc, fun e hrun hinv hfree =>
      h.call_user hrun hinv hfree (hfits e hrun hinv hfree)⟩
    rcases hrun : (m.run arg w).1 with ⟨e | e⟩ | v'
    · exact absurd hcall (h.call_user_ne_ok hrun v)
    · cases (h.call_rpc hrun).symm.trans hcall
    · cases (h.call_ok hrun).symm.trans hcall
      rfl

end Call

/-! ## Two calls that end in an error -/

/-- A method that fails with this error. -/
def failing {E : Type} [RpcErrDecode E] (e : E) : Method Unit :=
  { name := "inc", Arg := Unit, Resp := Unit, Err := E, run := fun _ w => (.error (.user e), w) }

instance {E : Type} [RpcErrDecode E] (e : E) : Inhabited (failing e).Resp :=
  inferInstanceAs (Inhabited Unit)

/-- A service with this method only. -/
def calcOf (m : Method Unit) : Service Unit := ⟨"Calc", [m], by decide, List.nodup_singleton _⟩

/-- A fresh connection with the call registered. -/
def freshLink : Link where
  clientId := 9
  seq := 1
  id := 0
  reqBuf := HeadedBuf.withCapacity rpcReqHeaderLen 992
  respBuf := HeadedBuf.withCapacity rpcRespHeaderLen 492
  reqRest := []
  respRest := []
  alloc := fun _ => true
  alloc_ok := fun _ _ => rfl
  pf := ⟨fun _ => true, true⟩
  pf_ok := fun _ _ => rfl
  closeCh := true
  timer := { new 20 128 with pendingTasks := [⟨0, 1, .new "Calc.inc" [0xc0]⟩] }

theorem lawful_unit : Serde.Lawful Unit := fun _ => ⟨[0xc0], rfl, by decide, rfl⟩

/-- The call is ready if the error is within the limit of messages. -/
theorem readyCall_failing {E : Type} [RpcErrDecode E] {e : E}
    (herr : ∀ s, RespHead.errString (RpcErrCodec.encode e) = some s → s.length ≤ u32Max) :
    ReadyCall freshLink (.service (calcOf (failing e))) () (calcOf (failing e)) (failing e) () := by
  refine ⟨rfl, List.mem_singleton_self _, lawful_unit, lawful_unit, ⟨?_, ?_, nofun, ?_⟩, ?_⟩
  · exact (by decide : (ofStr "Calc.inc").length < 2 ^ 31)
  · rintro msg hmsg
    rw [← Option.some.inj hmsg]
    decide
  · rintro e' s hrun hs
    obtain rfl : e = e' := RpcError.user.inj (Except.error.inj hrun)
    exact herr s hs
  · rintro msg hmsg
    rw [← Option.some.inj hmsg]
    have hreach : Reach 20 128 1 freshLink.timer :=
      Reach.regTask (freshLink.taskOf (.new "Calc.inc" [0xc0])) Reach.new (by decide) rfl
    exact ⟨⟨20, 128, 1, hreach⟩, Or.inr (Or.inr ⟨rfl, _, List.mem_cons_self, Nat.le_refl 1⟩), rfl⟩

/-- A short error arrives. -/
theorem call_transparent_busy :
    freshLink.call (.service (calcOf (failing "busy"))) () "Calc" (failing "busy") () =
      some (.error (.user "busy")) := by
  have hready : ReadyCall freshLink _ () (calcOf (failing "busy")) (failing "busy") () :=
    readyCall_failing fun s hs => by
      rw [← Option.some.inj hs]
      decide
  have hbusy : (ofStr "busy").length ≤ i32Max := by decide
  have ht := (call_transparent_iff hready).mpr fun e hrun _ _ => by
    obtain rfl : "busy" = e := RpcError.user.inj (Except.error.inj hrun)
    exact hbusy
  refine ht.user "busy" rfl (toStr?_ofStr "busy") fun x hx => ?_
  have hx : ofStr "busy" = x.asBytes := Option.some.inj hx
  revert hx
  cases x <;> decide +kernel

/-- An error of raw bytes. -/
structure RawErr where
  bytes : List UInt8

instance : RpcErrDecode RawErr where
  encode e := .buf e.bytes
  decode
    | .ok _ => none
    | .error b => some ⟨b⟩

/-- An error string of `2 ^ 31` bytes does not arrive: its length is negative in the
header. -/
theorem call_loses_long_error :
    let e : RawErr := ⟨List.replicate (2 ^ 31) 0⟩
    ReadyCall freshLink (.service (calcOf (failing e))) () (calcOf (failing e)) (failing e) () ∧
      RpcErrDecode.Inverts e ∧ RpcErrCodec.Unreserved e ∧
      ¬ Transparent freshLink (.service (calcOf (failing e))) () (calcOf (failing e)) (failing e)
        () := by
  intro e
  have hlen : e.bytes.length = 2 ^ 31 := List.length_replicate
  have hready : ReadyCall freshLink (.service (calcOf (failing e))) () (calcOf (failing e))
      (failing e) () := readyCall_failing fun s hs => by
    rw [← Option.some.inj hs, hlen]
    decide
  have hfree : RpcErrCodec.Unreserved e := by
    intro x hx
    have hshort : x.asBytes.length < 2 ^ 31 := by cases x <;> decide +kernel
    rw [← Option.some.inj hx, hlen] at hshort
    exact Nat.lt_irrefl _ hshort
  refine ⟨hready, rfl, hfree, fun ht => ?_⟩
  have hcall := ht.user e rfl rfl hfree
  rw [hready.call_long rfl (s := e.bytes) rfl (by rw [hlen]; decide)] at hcall
  cases hcall

end RazorRpc
