import RazorRpc.TcpClient

/-!
# One connection: sending and receiving (`stream/src/client/stream.rs`)

The methods of `ClientStreamInner` as programs over the operations of the two
sides, and what becomes of a task that is sent: `send_task` must either register
it or hand it to `facts.error_handle`, exactly once.

`sendTask_disposes_iff` says when it does. The exits of `send_request` are
handled by hand in two functions, and the one for a failed encode handles the
connection but not the task.
-/

namespace RazorRpc

namespace ClientStream

variable {B : Type}

/-! ## Sending -/

section Send

open Send

variable [ClientTask B]

/-- What `send_request` does after a failed write. -/
def writeFailed (task : Task B) : Send B (Except RpcIntErr Unit) := do
  storeClosed
  storeHasErr
  pendingSub
  stopRegTask
  errorHandle (task.setRpcError .io)
  return .error .io

/-- What `send_request` does with the result of the encode. -/
def writeEncoded (task : Task B) (buf : List UInt8) (needFlush : Bool) :
    Except Unit (Option (List UInt8)) → Send B (Except RpcIntErr Unit)
  | .error () => return .error .encode
  | .ok blob => do
    if ← TcpClient.writeReq buf blob needFlush then
      addTask
      regTask task
      return .ok ()
    else writeFailed task

/-- `send_request`. -/
def sendRequest (clientId : UInt64) (task : Task B) (needFlush : Bool) :
    Send B (Except RpcIntErr Unit) := do
  let seq ← seqUpdate
  let task := task.setSeq seq
  let buf ← loadBuf
  let encoded := ReqHead.encode buf clientId task
  storeBuf encoded.1
  writeEncoded task encoded.1.bytes needFlush encoded.2

/-- What `send_task` does with the result of `send_request`. -/
def finishSend : Except RpcIntErr Unit → Send B (Except RpcIntErr Unit)
  | .error _ => do
    storeClosed
    storeHasErr
    return .error .io
  | .ok () => do
    throttle
    return .ok ()

/-- `send_task`. -/
def sendTask (clientId : UInt64) (task : Task B) (needFlush : Bool) :
    Send B (Except RpcIntErr Unit) := do
  let full ← nearlyFull
  let needFlush := needFlush || full
  pendingAdd
  if ← loadClosed then
    errorHandle (task.setRpcError .io)
    pendingSub
    return .error .io
  else
    let r ← sendRequest clientId task needFlush
    finishSend r

/-- `flush_req`. -/
def flushReq : Send B (Except RpcIntErr Unit) := do
  if ← TcpClient.flushReq then return .ok ()
  else
    storeClosed
    storeHasErr
    stopRegTask
    return .error .io

/-- `send_ping_req`. -/
def sendPingReq (clientId : UInt64) : Send B (Except RpcIntErr Unit) := do
  if ← loadClosed then return .error .io
  else
    let seq ← seqUpdate
    let buf ← loadBuf
    let buf := ReqHead.encodePing buf clientId seq
    storeBuf buf
    if ← TcpClient.writeReq buf.bytes none true then return .ok ()
    else
      storeClosed
      return .error .io

/-- `set_error_and_exit`. -/
def setErrorAndExit : Send B (Except RpcIntErr Unit) := do
  storeHasErr
  TcpClient.closeConn
  return .ok ()

/-- `Drop for ClientStream`. -/
def dropStream : Send B (Except RpcIntErr Unit) := do
  dropCloseTx
  stopRegTask
  storeClosed
  return .ok ()

end Send

/-! ## What becomes of a task that is sent -/

section Dispose

open Prog

/-- How the sending side gives a task away. -/
inductive Disposal (B : Type) : Type where
  /-- to the registry -/
  | registered (t : Task B)
  /-- to `facts.error_handle` -/
  | handled (t : Task B)

/-- What matters of a run of the sending side. -/
structure Record (B : Type) where
  /-- the tasks given away, in order -/
  disposals : List (Disposal B)
  /-- the connection was found closed -/
  sawClosed : Bool

/-- The record of a run, operation by operation. Every operation is allowed. -/
def recording : Protocol (SendOp B) SendOp.Res (Record B) where
  ok _ _ := True
  next s
    | .regTask t, _ => { s with disposals := s.disposals ++ [.registered t] }
    | .errorHandle t, _ => { s with disposals := s.disposals ++ [.handled t] }
    | .loadClosed, closed => { s with sawClosed := s.sawClosed || closed }
    | _, _ => s

def recordOf (tr : List (Event (SendOp B) SendOp.Res)) : Record B :=
  tr.foldl (fun s e => recording.next s e.1 e.2) ⟨[], false⟩

/-- Writing only uses the socket: under a protocol that sees no more than the
first write, the rest leaves its state alone. -/
theorem follows_writeReq {φ : Type} {P : Protocol (SendOp B) SendOp.Res φ} {s s' : φ}
    (hfirst : ∀ bytes, P.ok s (.writeAll bytes) ∧ ∀ r, P.next s (.writeAll bytes) r = s')
    (hwrite : ∀ bytes, P.ok s' (.writeAll bytes) ∧ ∀ r, P.next s' (.writeAll bytes) r = s')
    (hflush : P.ok s' .flush ∧ ∀ r, P.next s' .flush r = s')
    (buf : List UInt8) (blob : Option (List UInt8)) (needFlush : Bool) :
    Follows P (fun _ s₁ => s₁ = s') s (TcpClient.writeReq buf blob needFlush) := by
  have hblob : Follows P (fun _ s₁ => s₁ = s') s' (TcpClient.writeBlob blob) := by
    cases blob with
    | none => exact rfl
    | some blob => exact hwrite blob
  refine ⟨(hfirst buf).1, fun wrote => ?_⟩
  rw [(hfirst buf).2 wrote]
  cases wrote with
  | false => exact rfl
  | true =>
    change Follows P _ s' (TcpClient.writeBlob blob >>= _)
    refine hblob.bind fun wroteBlob s₁ hs => ?_
    subst hs
    cases wroteBlob with
    | false => exact rfl
    | true =>
      cases needFlush with
      | false => exact rfl
      | true => exact hflush

variable [ClientTask B]

/-- The task was given away once: registered, or handled with an error set. -/
def Record.DisposedOnce (s : Record B) (task : Task B) : Prop :=
  ∃ t, t.id = task.id ∧
    (s.disposals = [.registered t] ∨ ∃ e, s.disposals = [.handled (t.setRpcError e)])

/-- If `c`, the task was given away once; if not, nothing was. -/
def Record.DisposedIf (s : Record B) (task : Task B) (c : Prop) : Prop :=
  (c → s.DisposedOnce task) ∧ (¬ c → s.disposals = [])

/-- A request gives its task away exactly when it encodes. -/
theorem follows_sendRequest (clientId : UInt64) (task : Task B) (needFlush : Bool) :
    Follows recording
      (fun _ s => s.sawClosed = false ∧ s.DisposedIf task (ReqHead.Encodes task.body))
      ⟨[], false⟩ (sendRequest clientId task needFlush) := by
  refine ⟨trivial, fun seq => ⟨trivial, fun buf => ⟨trivial, fun _ => ?_⟩⟩⟩
  change Follows recording _ ⟨[], false⟩
    (writeEncoded _ _ needFlush (ReqHead.encode buf clientId (task.setSeq seq)).2)
  by_cases henc : ReqHead.Encodes task.body
  · obtain ⟨⟨msgLen, hret, hmsg⟩, hblob⟩ := id henc
    have hok := (ReqHead.encode_of_encodes buf clientId (task.setSeq seq) hret hmsg hblob).1
    rw [hok]
    refine (follows_writeReq (fun _ => ⟨trivial, fun _ => rfl⟩) (fun _ => ⟨trivial, fun _ => rfl⟩)
      ⟨trivial, fun _ => rfl⟩ _ _ _).bind fun wrote s hs => ?_
    subst hs
    cases wrote with
    | true =>
      refine ⟨trivial, fun _ => ⟨trivial, fun _ => ⟨rfl, fun _ => ?_, absurd henc⟩⟩⟩
      exact ⟨task.setSeq seq, rfl, Or.inl rfl⟩
    | false =>
      -- closed, has_err, the counter and the stop flag first, then the task
      refine ⟨trivial, fun _ => ⟨trivial, fun _ => ⟨trivial, fun _ => ⟨trivial, fun _ =>
        ⟨trivial, fun _ => ⟨rfl, fun _ => ?_, absurd henc⟩⟩⟩⟩⟩⟩
      exact ⟨task.setSeq seq, rfl, Or.inr ⟨.io, rfl⟩⟩
  · rw [ReqHead.encode_of_not_encodes buf clientId (task.setSeq seq) henc]
    exact ⟨rfl, fun h => absurd h henc, fun _ => rfl⟩

/-- A task sent is given away once, unless it met an open connection and did not
encode: then it is not given away at all. -/
theorem follows_sendTask (clientId : UInt64) (task : Task B) (needFlush : Bool) :
    Follows recording
      (fun _ s => s.DisposedIf task (s.sawClosed ∨ ReqHead.Encodes task.body))
      ⟨[], false⟩ (sendTask clientId task needFlush) := by
  refine ⟨trivial, fun full => ⟨trivial, fun _ => ⟨trivial, fun closed => ?_⟩⟩⟩
  cases closed with
  | true =>
    refine ⟨trivial, fun _ => ⟨trivial, fun _ => ⟨fun _ => ?_, absurd (Or.inl rfl)⟩⟩⟩
    exact ⟨task, rfl, Or.inr ⟨.io, rfl⟩⟩
  | false =>
    change Follows recording _ ⟨[], false⟩ (sendRequest clientId task _ >>= finishSend)
    refine (follows_sendRequest clientId task _).bind fun r s hs => ?_
    obtain ⟨hopen, hs⟩ := hs
    have hdone : s.DisposedIf task (s.sawClosed ∨ ReqHead.Encodes task.body) := by
      rw [hopen]
      simpa using hs
    cases r with
    | error e => exact ⟨trivial, fun _ => ⟨trivial, fun _ => hdone⟩⟩
    | ok _ => exact ⟨trivial, fun _ => hdone⟩

/-- **No task is lost on the send path**, except one: in every complete run of
`send_task` the task is registered once or handled once, if and only if the
connection was found closed or the task encodes. -/
theorem sendTask_disposes_iff (clientId : UInt64) (task : Task B) (needFlush : Bool)
    {tr : List (Event (SendOp B) SendOp.Res)} {r : Except RpcIntErr Unit}
    (h : Runs (sendTask clientId task needFlush) tr r) :
    (recordOf tr).DisposedOnce task ↔ (recordOf tr).sawClosed ∨ ReqHead.Encodes task.body := by
  obtain ⟨hdisposed, hnothing⟩ := (follows_sendTask clientId task needFlush).of_runs h
  refine ⟨fun honce => ?_, hdisposed⟩
  by_contra hcond
  have hnil : (recordOf tr).disposals = [] := hnothing hcond
  obtain ⟨t, -, hreg | ⟨e, hhandled⟩⟩ := honce
  · rw [hnil] at hreg
    cases hreg
  · rw [hnil] at hhandled
    cases hhandled

/-- A call that finds the connection closed, run to its end. -/
theorem sendTask_disposes_closed :
    let task : Task APIClientReq := ⟨0, 0, .new "calc.add" [1]⟩
    ∃ tr r, Runs (sendTask 9 task false) tr r ∧ (recordOf tr).DisposedOnce task := by
  intro task
  have hrun : Runs (sendTask 9 task false)
      [⟨.nearlyFull, false⟩, ⟨.pendingAdd, ()⟩, ⟨.loadClosed, true⟩,
        ⟨.errorHandle (task.setRpcError .io), ()⟩, ⟨.pendingSub, ()⟩] (.error .io) :=
    Runs.act _ (Runs.act _ (Runs.act _ (Runs.act _ (Runs.act _ (Runs.ret _)))))
  exact ⟨_, _, hrun, (sendTask_disposes_iff 9 task false hrun).mpr (Or.inl rfl)⟩

/-- A task that does not encode has a run in which nobody hears of it again. -/
theorem sendTask_loses (clientId : UInt64) {task : Task B} (henc : ¬ ReqHead.Encodes task.body)
    (needFlush : Bool) :
    ∃ tr, Runs (sendTask clientId task needFlush) tr (.error .io) ∧
      (recordOf tr).disposals = [] := by
  let buf : Bytes.HeadedBuf rpcReqHeaderLen := .withCapacity rpcReqHeaderLen 992
  have herr := ReqHead.encode_of_not_encodes buf clientId (task.setSeq 1) henc
  have hencoded : Runs (writeEncoded (task.setSeq 1)
      (ReqHead.encode buf clientId (task.setSeq 1)).1.bytes (needFlush || false)
      (ReqHead.encode buf clientId (task.setSeq 1)).2) [] (.error .encode) := by
    rw [herr]
    exact Runs.ret _
  have hrequest : Runs (sendRequest clientId task (needFlush || false))
      [⟨.seqUpdate, (1 : UInt64)⟩, ⟨.loadBuf, buf⟩,
        ⟨.storeBuf (ReqHead.encode buf clientId (task.setSeq 1)).1, ()⟩] (.error .encode) :=
    Runs.act _ (Runs.act _ (Runs.act _ hencoded))
  have htail : Runs (sendRequest clientId task (needFlush || false) >>= finishSend) _
      (.error .io) :=
    runs_bind.mpr ⟨_, _, _, rfl, hrequest, Runs.act () (Runs.act () (Runs.ret _))⟩
  have hrun : Runs (sendTask clientId task needFlush)
      (⟨.nearlyFull, false⟩ :: ⟨.pendingAdd, ()⟩ :: ⟨.loadClosed, false⟩ :: _) (.error .io) :=
    Runs.act _ (Runs.act _ (Runs.act _ htail))
  exact ⟨_, hrun, rfl⟩

/-- A request whose message is one byte over the limit. -/
def oversized : APIClientReq := .new "calc.add" (List.replicate (u32Max + 1) 0)

theorem not_encodes_oversized : ¬ ReqHead.Encodes oversized := by
  rintro ⟨⟨msgLen, hret, hle⟩, -⟩
  have hlen : (List.replicate (u32Max + 1) (0 : UInt8)).length = msgLen := Option.some.inj hret
  rw [List.length_replicate] at hlen
  omega

/-- A message one byte over the limit: the call fails and its task is neither
registered nor handled. -/
theorem sendTask_loses_oversized :
    let task : Task APIClientReq := ⟨0, 0, .new "calc.add" (List.replicate (u32Max + 1) 0)⟩
    ∃ tr, Runs (sendTask 9 task false) tr (.error .io) ∧ (recordOf tr).disposals = [] := by
  intro task
  exact sendTask_loses 9 not_encodes_oversized false

end Dispose

/-! ## Receiving -/

section Recv

open Recv

variable [ClientTask B]

/-- The turn of `recv_one_resp` on a closed connection, once it is known whether
to quit. -/
def recvClosed (pf : Platform) (quit : Bool) : Recv B (Option RpcIntErr) :=
  if quit then return some .io
  else do
    match ← TcpClient.readResp pf false with
    | .error _ =>
      storeClosed
      return some .io
    | .ok _ => return none

/-- One turn of the loop in `recv_one_resp`: `none` to go round again. The loop
has no way out with `Ok`, so the loop of `recv_some` around it never gets to its
second turn. -/
def recvOneResp (pf : Platform) : Recv B (Option RpcIntErr) := do
  if ← loadClosed then
    if ← checkPendingTasksEmpty then recvClosed pf true
    else
      let hasErr ← loadHasErr
      recvClosed pf hasErr
  else
    match ← TcpClient.readResp pf true with
    | .error _ => return some .io
    | .ok true => return none
    | .ok false =>
      storeClosed
      return none

end Recv

end ClientStream

end RazorRpc
