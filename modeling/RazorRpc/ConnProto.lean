import RazorRpc.Stream

/-!
# What the two sides of a connection do with a task

The programs of the sender and the receiver, checked path by path against a
protocol:

* `sending` — a task the sender owns goes away once, registered under the number
  drawn for it or handled with an error set; and once its request is on the wire,
  the call does not end before the task is registered or registration stopped;
* `receiving` — a task is taken for the header just read, and it ends once and
  properly before the next is taken.

Whoever interleaves the two sides later needs no more of the programs than this.
-/

namespace RazorRpc

open Prog ClientStream

variable {B : Type} [ClientTask B]

/-! ## The protocols -/

/-- How far a call of the sender has come. -/
@[ext] structure SendPhase where
  /-- the task not given away yet -/
  owned : Option ℕ
  /-- the number drawn -/
  drawn : Option UInt64
  /-- something was written -/
  wrote : Bool
  /-- the task is registered or registration stopped; from the start, if the call
  has no task -/
  settled : Bool

/-- The phase a call begins in: with a task of this identity, or without. -/
def SendPhase.start (owned : Option ℕ) : SendPhase := ⟨owned, none, false, owned.isNone⟩

def sending : Protocol (SendOp B) SendOp.Res SendPhase where
  ok s
    | .seqUpdate => s.drawn = none
    | .regTask t => s.owned = some t.id ∧ s.drawn = some t.seq
    | .errorHandle t => s.owned = some t.id ∧ (Completion.errorHandled t).Proper
    | _ => True
  next s
    | .seqUpdate, seq => { s with drawn := some seq }
    | .writeAll _, _ => { s with wrote := true }
    | .regTask _, _ => { s with owned := none, settled := true }
    | .stopRegTask, _ => { s with settled := true }
    | .errorHandle _, _ => { s with owned := none }
    | _, _ => s

/-- A call may end: what was written is settled. -/
def SendPhase.CanEnd (s : SendPhase) : Prop := s.wrote = true → s.settled = true

/-- Which task the receive future is after. -/
inductive Asking : Type where
  | nothing
  /-- a header with this number was read -/
  | headed (seq : UInt64)
  /-- `take_task` waits for the registration of this number -/
  | waiting (seq : UInt64)

/-- How far the receive future has come. -/
structure RecvPhase where
  /-- the task among its locals -/
  held : Option ℕ
  asking : Asking

/-- After a header was read, or not. -/
def Asking.ofHead : HeadRead → Asking
  | .ok headBuf =>
    match RespHead.decodeHead headBuf with
    | .ok head => headed head.seq
    | .error _ => nothing
  | _ => nothing

def receiving : Protocol (RecvOp B) RecvOp.Res RecvPhase where
  ok s
    | .readHead _ => s.held = none
    | .takeTask seq => s = ⟨none, .headed seq⟩
    | .resumeTakeTask seq => s = ⟨none, .waiting seq⟩
    | .done t => s.held = some t.id ∧ (Completion.done t).Proper
    | .errorHandle t => s.held = some t.id ∧ (Completion.errorHandled t).Proper
    | _ => True
  next s
    | .readHead _, r => { s with asking := .ofHead r }
    | .takeTask _, some found => ⟨found.map Task.id, .nothing⟩
    | .takeTask seq, none => ⟨none, .waiting seq⟩
    | .resumeTakeTask _, found => ⟨found.map Task.id, .nothing⟩
    | .done _, _ => { s with held := none }
    | .errorHandle _, _ => { s with held := none }
    | _, _ => s

/-- A turn of the receive loop may end with empty hands. -/
def RecvPhase.Empty (s : RecvPhase) : Prop := s.held = none

theorem proper_setRpcError (t : Task B) (e : RpcIntErr) :
    (Completion.errorHandled (t.setRpcError e)).Proper := Or.inl ⟨t, e, rfl⟩

theorem proper_setCustomError (t : Task B) (e : EncodedErr) (i : ℕ) (v : UInt64) :
    (Completion.errorHandled (t.setCustomError e i v)).Proper := Or.inr ⟨t, e, i, v, rfl⟩

/-! ## The sender keeps to its protocol -/

section Sending

theorem sending_writeReq (s : SendPhase) (buf : List UInt8) (blob : Option (List UInt8))
    (needFlush : Bool) :
    Follows (sending (B := B)) (fun _ s' => s' = { s with wrote := true }) s
      (TcpClient.writeReq buf blob needFlush) :=
  follows_writeReq (fun _ => ⟨trivial, fun _ => rfl⟩) (fun _ => ⟨trivial, fun _ => rfl⟩)
    ⟨trivial, fun _ => rfl⟩ buf blob needFlush

theorem sending_sendRequest (clientId : UInt64) (task : Task B) (needFlush : Bool) :
    Follows sending (fun _ s => s.CanEnd) (.start (some task.id))
      (sendRequest clientId task needFlush) := by
  refine ⟨rfl, fun seq => ⟨trivial, fun buf => ⟨trivial, fun _ => ?_⟩⟩⟩
  change Follows sending _ ⟨some task.id, some seq, false, false⟩
    (writeEncoded _ _ needFlush (ReqHead.encode buf clientId (task.setSeq seq)).2)
  rcases (ReqHead.encode buf clientId (task.setSeq seq)).2 with _ | blob
  · exact Bool.noConfusion
  · refine (sending_writeReq _ _ _ _).bind fun wrote s hs => ?_
    subst hs
    cases wrote with
    | true => exact ⟨trivial, fun _ => ⟨⟨rfl, rfl⟩, fun _ => fun _ => rfl⟩⟩
    | false =>
      exact ⟨trivial, fun _ => ⟨trivial, fun _ => ⟨trivial, fun _ => ⟨trivial, fun _ =>
        ⟨⟨rfl, proper_setRpcError _ _⟩, fun _ => fun _ => rfl⟩⟩⟩⟩⟩

theorem sending_sendTask (clientId : UInt64) (task : Task B) (needFlush : Bool) :
    Follows sending (fun _ s => s.CanEnd) (.start (some task.id))
      (sendTask clientId task needFlush) := by
  refine ⟨trivial, fun full => ⟨trivial, fun _ => ⟨trivial, fun closed => ?_⟩⟩⟩
  cases closed with
  | true => exact ⟨⟨rfl, proper_setRpcError _ _⟩, fun _ => ⟨trivial, fun _ => Bool.noConfusion⟩⟩
  | false =>
    change Follows sending _ _ (sendRequest clientId task _ >>= finishSend)
    refine (sending_sendRequest clientId task _).bind fun r s hs => ?_
    cases r with
    | error e => exact ⟨trivial, fun _ => ⟨trivial, fun _ => hs⟩⟩
    | ok _ => exact ⟨trivial, fun _ => hs⟩

theorem sending_flushReq :
    Follows (sending (B := B)) (fun _ s => s.CanEnd) (.start none) ClientStream.flushReq := by
  refine ⟨trivial, fun ok => ?_⟩
  cases ok with
  | true => exact Bool.noConfusion
  | false => exact ⟨trivial, fun _ => ⟨trivial, fun _ => ⟨trivial, fun _ => Bool.noConfusion⟩⟩⟩

theorem sending_sendPingReq (clientId : UInt64) :
    Follows (sending (B := B)) (fun _ s => s.CanEnd) (.start none) (sendPingReq clientId) := by
  refine ⟨trivial, fun closed => ?_⟩
  cases closed with
  | true => exact Bool.noConfusion
  | false =>
    refine ⟨rfl, fun seq => ⟨trivial, fun buf => ⟨trivial, fun _ => ?_⟩⟩⟩
    change Follows sending _ ⟨none, some seq, false, true⟩ (TcpClient.writeReq _ none true >>= _)
    refine (sending_writeReq _ _ _ _).bind fun wrote s hs => ?_
    subst hs
    cases wrote with
    | true => exact fun _ => rfl
    | false => exact ⟨trivial, fun _ => fun _ => rfl⟩

theorem sending_setErrorAndExit :
    Follows (sending (B := B)) (fun _ s => s.CanEnd) (.start none)
      ClientStream.setErrorAndExit := by
  refine ⟨trivial, fun _ => ⟨trivial, fun ok => ?_⟩⟩
  cases ok with
  | true => exact ⟨trivial, fun _ => Bool.noConfusion⟩
  | false => exact Bool.noConfusion

theorem sending_dropStream :
    Follows (sending (B := B)) (fun _ s => s.CanEnd) (.start none) dropStream :=
  ⟨trivial, fun _ => ⟨trivial, fun _ => ⟨trivial, fun _ => Bool.noConfusion⟩⟩⟩

end Sending

/-! ## The receiver keeps to its protocol -/

section Receiving

open TcpClient

/-- What reading a body needs besides its task: it reads, completes and may panic. -/
def RecvOp.OfBody : RecvOp B → Prop
  | .readExact _ | .done _ | .errorHandle _ | .panic => True
  | _ => False

omit [ClientTask B] in
theorem uses_recvAndDump (pf : Platform) (l : ℕ) :
    Uses RecvOp.OfBody (recvAndDump pf l : Recv B Bool) := by
  by_cases hpos : 0 < Int32.ofNat l
  · rw [recvAndDump_of_pos hpos]
    split
    · exact ⟨trivial, fun _ => trivial⟩
    · exact trivial
  · rw [recvAndDump_of_not_pos hpos]
    exact ⟨trivial, nofun⟩

theorem uses_recvError (head : RespHead) (task : Task B) :
    Uses RecvOp.OfBody (recvError head task) := by
  rw [recvError]
  split
  · exact ⟨trivial, fun _ => trivial⟩
  · split
    · split
      · exact ⟨trivial, nofun⟩
      · refine ⟨trivial, fun r => ?_⟩
        cases r <;> exact ⟨trivial, fun _ => trivial⟩
    · exact ⟨trivial, nofun⟩

theorem uses_finishTask (head : RespHead) (task : Task B) (msg : List UInt8) :
    Uses RecvOp.OfBody (finishTask head task msg) := by
  rw [finishTask]
  split
  · rcases task.decodeResp msg with ⟨task', _ | _⟩
    · exact ⟨trivial, fun _ => trivial⟩
    · exact ⟨trivial, fun _ => trivial⟩
  · exact ⟨trivial, fun _ => trivial⟩

theorem uses_recvTask (pf : Platform) (head : RespHead) (task : Task B) :
    Uses RecvOp.OfBody (recvTask pf head task) := by
  rw [recvTask]
  split
  · exact uses_recvError head task
  · have hmsg : Uses RecvOp.OfBody (recvMsg head : Recv B _) := by
      rw [recvMsg]
      split
      · exact ⟨trivial, fun _ => trivial⟩
      · exact trivial
    refine hmsg.bind fun msg => ?_
    cases msg with
    | none => exact ⟨trivial, fun _ => trivial⟩
    | some msg =>
      dsimp only
      split
      · rcases task.reserveRespBlob head.blobLen with ⟨task', _ | len⟩
        · exact ⟨trivial, fun _ => uses_recvAndDump pf _⟩
        · refine ⟨trivial, fun r => ?_⟩
          cases r with
          | none => exact ⟨trivial, fun _ => trivial⟩
          | some blob => exact uses_finishTask head _ msg
      · exact uses_finishTask head task msg

omit [ClientTask B] in
theorem uses_recvUnknown (pf : Platform) (head : RespHead) :
    Uses RecvOp.OfBody (recvUnknown pf head : Recv B Bool) := by
  rw [recvUnknown]
  split
  · exact ⟨trivial, nofun⟩
  · split
    · exact uses_recvAndDump pf _
    · exact trivial

/-- Reading and forgetting concerns no task. -/
theorem receiving_recvAndDump (pf : Platform) (l : ℕ) (s : RecvPhase) :
    Follows (receiving (B := B)) (fun _ s' => s' = s) s (recvAndDump pf l) := by
  by_cases hpos : 0 < Int32.ofNat l
  · rw [recvAndDump_of_pos hpos]
    split
    · exact ⟨trivial, fun _ => rfl⟩
    · exact rfl
  · rw [recvAndDump_of_not_pos hpos]
    refine ⟨trivial, fun r => ?_⟩
    cases r

variable (a : Asking)

/-- The task of an error response ends. -/
theorem receiving_recvError (head : RespHead) (task : Task B) :
    Follows receiving (fun _ s => s.Empty) ⟨some task.id, a⟩ (recvError head task) := by
  rw [recvError]
  split
  · exact ⟨⟨rfl, proper_setCustomError _ _ _ _⟩, fun _ => rfl⟩
  · split
    · split
      · exact ⟨trivial, nofun⟩
      · refine ⟨trivial, fun r => ?_⟩
        cases r with
        | none => exact ⟨⟨rfl, proper_setRpcError _ _⟩, fun _ => rfl⟩
        | some buf =>
          have hproper : task.id = (setErrString task buf).id ∧
              (Completion.errorHandled (setErrString task buf)).Proper := by
            rw [setErrString]
            split
            · split
              · exact ⟨rfl, proper_setRpcError _ _⟩
              · exact ⟨rfl, proper_setCustomError _ _ _ _⟩
            · exact ⟨rfl, proper_setCustomError _ _ _ _⟩
          exact ⟨⟨congrArg some hproper.1, hproper.2⟩, fun _ => rfl⟩
    · exact ⟨trivial, nofun⟩

theorem receiving_finishTask (head : RespHead) (task : Task B) (msg : List UInt8) :
    Follows receiving (fun _ s => s.Empty) ⟨some task.id, a⟩ (finishTask head task msg) := by
  rw [finishTask]
  split
  · rcases hdec : task.decodeResp msg with ⟨task', _ | _⟩
    · have hid : task.id = task'.id := congrArg (·.1.id) hdec
      exact ⟨⟨congrArg some hid, proper_setRpcError _ _⟩, fun _ => rfl⟩
    · have hid : task.id = task'.id := congrArg (·.1.id) hdec
      exact ⟨⟨congrArg some hid, task', rfl⟩, fun _ => rfl⟩
  · exact ⟨⟨rfl, task, rfl⟩, fun _ => rfl⟩

/-- The task of a response ends, wherever reading it ends. -/
theorem receiving_recvTask (pf : Platform) (head : RespHead) (task : Task B) :
    Follows receiving (fun _ s => s.Empty) ⟨some task.id, a⟩ (recvTask pf head task) := by
  rw [recvTask]
  split
  · exact receiving_recvError a head task
  · have hmsg : Follows receiving (fun _ s => s = ⟨some task.id, a⟩) ⟨some task.id, a⟩
        (recvMsg (B := B) head) := by
      rw [recvMsg]
      split
      · exact ⟨trivial, fun _ => rfl⟩
      · exact rfl
    refine hmsg.bind fun msg s hs => ?_
    subst hs
    cases msg with
    | none => exact ⟨⟨rfl, proper_setRpcError _ _⟩, fun _ => rfl⟩
    | some msg =>
      dsimp only
      split
      · rcases hres : task.reserveRespBlob head.blobLen with ⟨task', _ | len⟩
        · have hid : task.id = task'.id := congrArg (·.1.id) hres
          refine ⟨⟨congrArg some hid, proper_setRpcError _ _⟩, fun _ => ?_⟩
          have hdump := receiving_recvAndDump (B := B) pf head.blobLen.toNatClampNeg ⟨none, a⟩
          exact hdump.mono fun _ s hs => congrArg RecvPhase.held hs
        · have hid : task.id = task'.id := congrArg (·.1.id) hres
          refine ⟨trivial, fun r => ?_⟩
          cases r with
          | none => exact ⟨⟨congrArg some hid, proper_setRpcError _ _⟩, fun _ => rfl⟩
          | some blob =>
            have := receiving_finishTask a head (task'.fillRespBlob blob) msg
            rw [show (task'.fillRespBlob blob).id = task.id from hid.symm] at this
            exact this
      · exact receiving_finishTask a head task msg

theorem receiving_recvUnknown (pf : Platform) (head : RespHead) :
    Follows (receiving (B := B)) (fun _ s => s.Empty) ⟨none, a⟩ (recvUnknown pf head) := by
  rw [recvUnknown]
  split
  · exact ⟨trivial, nofun⟩
  · split
    · have hdump := receiving_recvAndDump (B := B) pf (dataLen head).toNat ⟨none, a⟩
      exact hdump.mono fun _ s hs => congrArg RecvPhase.held hs
    · exact rfl

theorem receiving_recvFound (pf : Platform) (head : RespHead) (found : Option (Task B)) :
    Follows receiving (fun _ s => s.Empty) ⟨found.map Task.id, a⟩ (recvFound pf head found) := by
  cases found with
  | none => exact receiving_recvUnknown a pf head
  | some task =>
    refine (receiving_recvTask a pf head task).bind fun r s hs => ?_
    exact ⟨trivial, fun _ => hs⟩

/-- The task asked for is the one the header names. -/
theorem receiving_recvRespBody (pf : Platform) (head : RespHead) :
    Follows (receiving (B := B)) (fun _ s => s.Empty) ⟨none, .headed head.seq⟩
      (recvRespBody pf head) := by
  refine ⟨rfl, fun r => ?_⟩
  -- both polls of `take_task` go on alike
  cases r with
  | some found => exact receiving_recvFound _ pf head found
  | none => exact ⟨rfl, fun found => receiving_recvFound _ pf head found⟩

theorem receiving_readResp (pf : Platform) (closeCh : Bool) :
    Follows (receiving (B := B)) (fun _ s => s.Empty) ⟨none, a⟩ (readResp pf closeCh) := by
  refine ⟨rfl, fun r => ?_⟩
  cases r with
  | closed => exact rfl
  | err => exact rfl
  | ok headBuf =>
    change Follows receiving _ ⟨none, .ofHead (.ok headBuf)⟩
      (recvHead pf (RespHead.decodeHead headBuf))
    rw [Asking.ofHead]
    rcases RespHead.decodeHead headBuf with e | head
    · exact rfl
    · refine (receiving_recvRespBody pf head).bind fun ok s hs => ?_
      cases ok <;> exact hs

/-- What a turn of the receive loop does besides reading. -/
def RecvOp.OfTurn : RecvOp B → Prop
  | .loadClosed | .storeClosed | .loadHasErr | .checkPendingTasksEmpty => True
  | _ => False

/-- A turn keeps what reading a response keeps and the flags do not touch. -/
theorem follows_recvOneResp {φ : Type} {P : Protocol (RecvOp B) RecvOp.Res φ} {C : φ → Prop}
    (hturn : ∀ s o, C s → RecvOp.OfTurn o → P.ok s o ∧ ∀ r, C (P.next s o r)) (pf : Platform)
    (hread : ∀ s closeCh, C s → Follows P (fun _ s' => C s') s (readResp pf closeCh))
    {s : φ} (hs : C s) : Follows P (fun _ s' => C s') s (recvOneResp pf) := by
  have hclosed : ∀ s quit, C s → Follows P (fun _ s' => C s') s (recvClosed pf quit) := by
    intro s quit hs
    cases quit with
    | true => exact hs
    | false =>
      refine (hread s false hs).bind fun r s hs => ?_
      cases r with
      | error e =>
        obtain ⟨hok, hnext⟩ := hturn s .storeClosed hs trivial
        exact ⟨hok, hnext⟩
      | ok _ => exact hs
  obtain ⟨hok, hnext⟩ := hturn s .loadClosed hs trivial
  refine ⟨hok, fun closed => ?_⟩
  have hs := hnext closed
  cases closed with
  | false =>
    change Follows P _ _ (readResp pf true >>= _)
    refine (hread _ true hs).bind fun r s hs => ?_
    rcases r with e | _ | _
    · exact hs
    · obtain ⟨hok, hnext⟩ := hturn s .storeClosed hs trivial
      exact ⟨hok, hnext⟩
    · exact hs
  | true =>
    obtain ⟨hok, hnext⟩ := hturn _ .checkPendingTasksEmpty hs trivial
    refine ⟨hok, fun empty => ?_⟩
    have hs := hnext empty
    cases empty with
    | true => exact hclosed _ true hs
    | false =>
      obtain ⟨hok, hnext⟩ := hturn _ .loadHasErr hs trivial
      exact ⟨hok, fun hasErr => hclosed _ hasErr (hnext hasErr)⟩

/-- A turn of the receive loop begins and ends with empty hands. -/
theorem receiving_recvOneResp (pf : Platform) {s : RecvPhase} (h : s.Empty) :
    Follows (receiving (B := B)) (fun _ s => s.Empty) s (recvOneResp pf) := by
  refine follows_recvOneResp (fun s o hs ho => ?_) pf (fun s closeCh hs => ?_) h
  · cases o with
    | loadClosed | storeClosed | loadHasErr | checkPendingTasksEmpty =>
      exact ⟨trivial, fun _ => hs⟩
    | _ => cases ho
  · obtain ⟨held, a⟩ := s
    obtain rfl : held = none := hs
    exact receiving_readResp a pf closeCh

end Receiving

end RazorRpc
