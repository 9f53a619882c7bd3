import RazorRpc.ReqAction
import RazorRpc.RespFrame
import RazorRpc.Lib.Lts
import RazorRpc.Lib.Prog
import Mathlib.Data.List.Perm.Basic

/-!
# A server connection (`server_conn` in `stream/src/server/server.rs`)

Two coroutines serve a connection. The reader takes requests off the socket and has
them dispatched; the writer takes what is answered out of a channel and writes it. In
between are the tasks that the dispatcher has made of the requests: each has a clone of
the channel and answers when it likes, in any order, or is dropped without an answer.

* `WriteOp`, `Socket` — the writing half of the connection, with the buffer in front of it;
* `writeResp`, `writeRespInternal`, `flushResp`, `closeConn` — what the transport does
  with it (`transport/tcp/src/server.rs`), as programs;
* `SvrItem.frame` — the bytes of an answer, the same whatever the encode buffer held;
* `SvrConn`, `SvrConn.next` — the connection and its steps: the reader, the tasks and the
  writer in any order, with a socket that may fail at any write;
* `SvrConn.Inv` — the invariant: every request is in one place, and the answers go out
  whole, once, and in the order in which they were given.
-/

namespace RazorRpc

open Bytes Prog

/-! ## Writing -/

/-- What the writing side does to its socket. -/
inductive WriteOp : Type where
  /-- `write_all`, with time-out -/
  | writeAll (bytes : List UInt8)
  /-- `flush`, with time-out -/
  | flush
  | shutdownWrite

/-- Every operation answers whether it succeeded. -/
@[reducible] def WriteOp.Res : WriteOp → Type := fun _ => Bool

/-- Programs of the writing side. -/
abbrev Write := Prog WriteOp WriteOp.Res

namespace Write

def writeAll (bytes : List UInt8) : Write Bool := Prog.perform (WriteOp.writeAll bytes)
def flush : Write Bool := Prog.perform WriteOp.flush
def shutdownWrite : Write Bool := Prog.perform WriteOp.shutdownWrite

end Write

namespace TcpServer

open Write

/-- The blob of a response, if there is one. -/
def writeBlob : Option (List UInt8) → Write Bool
  | none => return true
  | some blob => writeAll blob

/-- `write_resp`: the encode buffer afterwards, and what is written. -/
def writeResp {T : Type} [ServerTaskEncode T] (buf : HeadedBuf rpcRespHeaderLen) (task : T) :
    HeadedBuf rpcRespHeaderLen × Write Bool :=
  let (buf, _, blob) := RespHead.encode buf task
  (buf, do
    if ← writeAll buf.bytes then writeBlob blob else return false)

/-- `write_resp_internal`. -/
def writeRespInternal (buf : HeadedBuf rpcRespHeaderLen) (seq : UInt64) (err : Option RpcIntErr) :
    HeadedBuf rpcRespHeaderLen × Write Bool :=
  let (buf, _) := RespHead.encodeInternal buf seq err
  (buf, writeAll buf.bytes)

/-- `flush_resp`. -/
def flushResp : Write Bool := flush

/-- `close_conn`. -/
def closeConn : Write Unit := do
  if ← flushResp then
    let _ ← shutdownWrite
    return ()
  else return ()

end TcpServer

/-! ## The socket -/

/-- The writing half of a socket with a buffer in front of it. -/
structure Socket where
  /-- on its way to the peer -/
  sent : List UInt8
  buffered : List UInt8
  /-- the write direction is shut down -/
  shut : Bool

/-- What becomes of an operation on the socket: it is done, or fails after `n` bytes. -/
inductive IoResult : Type where
  | done
  | failed (n : ℕ)

namespace Socket

/-- The bytes written, in order. -/
def out (s : Socket) : List UInt8 := s.sent ++ s.buffered

/-- `n` bytes leave the buffer. -/
def pass (s : Socket) (n : ℕ) : Socket :=
  { s with sent := s.sent ++ s.buffered.take n, buffered := s.buffered.drop n }

@[simp] theorem out_pass (s : Socket) (n : ℕ) : (s.pass n).out = s.out := by
  rw [out, out, pass, List.append_assoc, List.take_append_drop]

end Socket

def WriteOp.exec : IoResult → WriteOp → Socket → Socket × Bool
  | .done, .writeAll bytes, s => ({ s with buffered := s.buffered ++ bytes }, true)
  | .done, .flush, s => ({ s with sent := s.sent ++ s.buffered, buffered := [] }, true)
  | .done, .shutdownWrite, s => ({ s with shut := true }, true)
  | .failed n, .writeAll bytes, s => ({ s with buffered := s.buffered ++ bytes.take n }, false)
  | .failed n, .flush, s => (s.pass n, false)
  | .failed _, .shutdownWrite, s => (s, false)

/-! ## Answers -/

/-- What goes through the channel to the writer: a task with its result, or the answer
the reader gives by itself. -/
abbrev SvrItem (T : Type) := Except (UInt64 × Option RpcIntErr) T

namespace SvrItem

variable {T : Type} [ServerTaskEncode T]

/-- The sequence number that is answered. -/
def seq : SvrItem T → UInt64
  | .ok task => (ServerTaskEncode.encodeResp task).seq
  | .error (seq, _) => seq

/-- The `process!` of the writer. -/
def process (buf : HeadedBuf rpcRespHeaderLen) : SvrItem T → HeadedBuf rpcRespHeaderLen × Write Bool
  | .ok task => TcpServer.writeResp buf task
  | .error (seq, err) => TcpServer.writeRespInternal buf seq err

/-- The bytes of an answer. -/
def frame : SvrItem T → List UInt8
  | .ok task =>
    let out := ServerTaskEncode.encodeResp task
    match out.result with
    | .ok (msgLen, blob) =>
      if FitsHead msgLen blob then
        (RespHead.new 0 out.seq (UInt32.ofNat msgLen) (Int32.ofNat (blob.getD []).length)).toBytes ++
          out.written ++ blob.getD []
      else
        (RespHead.ofError out.seq (.rpc .encode)).toBytes ++
          (out.written ++ (RespHead.errString (.rpc .encode)).getD [])
    | .error e =>
      (RespHead.ofError out.seq e).toBytes ++ (out.written ++ (RespHead.errString e).getD [])
  | .error (seq, some e) =>
    (RespHead.ofError seq (.rpc e)).toBytes ++ (RespHead.errString (.rpc e)).getD []
  | .error (seq, none) => (RespHead.new 0 seq 0 0).toBytes

/-- The bytes of a task do not depend on what the encode buffer held. -/
theorem encode_frame (buf : HeadedBuf rpcRespHeaderLen) (task : T) :
    (RespHead.encode buf task).1.bytes ++ (RespHead.encode buf task).2.2.getD [] =
      frame (.ok task) := by
  rw [frame]
  generalize hout : ServerTaskEncode.encodeResp task = out
  rcases hres : out.result with e | ⟨msgLen, blob⟩
  · simp only [RespHead.encode, hout, hres, Option.getD_none, List.append_nil]
    exact RespHead.bytes_encodeError buf out.written out.seq e
  · rw [RespHead.encode_ok buf hout hres]
    by_cases hfit : FitsHead msgLen blob
    · simp only [if_pos hfit]
      rw [RespHead.bytes_writeHead]
    · simp only [if_neg hfit, Option.getD_none, List.append_nil]
      exact RespHead.bytes_encodeError buf out.written out.seq (.rpc .encode)

/-- Nor do those of a quick answer. -/
theorem encodeInternal_frame (buf : HeadedBuf rpcRespHeaderLen) (seq : UInt64)
    (err : Option RpcIntErr) :
    (RespHead.encodeInternal buf seq err).1.bytes = frame (.error (seq, err) : SvrItem T) := by
  -- nothing stands behind the room for the header
  have hhead : ∀ flag msgLen blobLen,
      (RespHead.writeHead buf.reset flag seq msgLen blobLen).bytes =
        (RespHead.new flag seq msgLen blobLen).toBytes := by
    intro flag msgLen blobLen
    have hbytes := HeadedBuf.bytes_writeHead buf buf.reset
      (RespHead.new flag seq msgLen blobLen).toBytes (RespHead.length_toBytes _)
      (List.append_nil _).symm
    rw [List.append_nil] at hbytes
    exact hbytes
  cases err with
  | none => exact hhead 0 0 0
  | some e =>
    have hlen := hhead respFlagHasErrString 0 (Int32.ofNat e.asBytes.length)
    simp only [RespHead.encodeInternal, RespHead.encodeError, RespHead.encodeError.writeErr,
      HeadedBuf.bytes_writeAll, hlen]
    rfl

end SvrItem

/-! ### What is written of an answer -/

/-- How much of an answer was written; `none` once the socket has failed. -/
def writing : Protocol WriteOp WriteOp.Res (Option (List UInt8)) where
  ok y
    | .writeAll _ => y.isSome = true
    | _ => False
  next y
    | .writeAll bytes, true => y.map (· ++ bytes)
    | _, _ => none

/-- The answer was written whole, or the socket has failed. -/
def Wrote (frame : List UInt8) (ok : Bool) (y : Option (List UInt8)) : Prop :=
  y = if ok then some frame else none

/-- Something remains to be written, or nothing. -/
theorem writing_writeBlob (bytes : List UInt8) (blob : Option (List UInt8)) :
    Follows writing (Wrote (bytes ++ blob.getD [])) (some bytes) (TcpServer.writeBlob blob) := by
  cases blob with
  | none => exact (congrArg some (List.append_nil bytes)).symm
  | some blob =>
    refine ⟨rfl, fun ok => ?_⟩
    cases ok with
    | true => exact rfl
    | false => exact rfl

theorem writing_process {T : Type} [ServerTaskEncode T] (buf : HeadedBuf rpcRespHeaderLen)
    (item : SvrItem T) : Follows writing (Wrote item.frame) (some []) (item.process buf).2 := by
  rcases item with ⟨seq, err⟩ | task
  · refine ⟨rfl, fun ok => ?_⟩
    cases ok with
    | true => exact congrArg some (SvrItem.encodeInternal_frame buf seq err)
    | false => exact rfl
  · refine ⟨rfl, fun ok => ?_⟩
    cases ok with
    | true =>
      have hrest := writing_writeBlob (RespHead.encode buf task).1.bytes (RespHead.encode buf task).2.2
      rw [SvrItem.encode_frame] at hrest
      exact hrest
    | false => exact rfl

/-- What was written of an answer is the beginning of it, and so it is with the bytes of
the next write. -/
theorem prefix_of_writing {frame bytes : List UInt8} {p : Write Bool}
    (h : Follows writing (Wrote frame) (some bytes) p) : bytes <+: frame := by
  induction p generalizing bytes with
  | ret ok =>
    cases ok with
    | true => exact (Option.some.inj h) ▸ List.prefix_refl bytes
    | false => cases h
  | act o k ih =>
    cases o with
    | writeAll more => exact (List.prefix_append bytes more).trans (ih true (h.2 true))
    | flush => exact h.1.elim
    | shutdownWrite => exact h.1.elim

/-! ## The connection -/

/-- Where the writer is. -/
inductive Writer (T : Type) : Type where
  /-- at `recv` -/
  | waiting
  /-- in `process!`, with what is left to write of the answer to request `i` -/
  | processing (i : ℕ) (item : SvrItem T) (p : Write Bool)
  /-- at `try_recv` -/
  | draining
  | flushing (p : Write Bool)
  | closing (p : Write Unit)
  /-- ended, with `Ok` or with an I/O error -/
  | returned (ok : Bool)

def Writer.isWaiting {T : Type} : Writer T → Bool
  | waiting => true
  | _ => false

theorem Writer.eq_waiting {T : Type} {w : Writer T} (h : w.isWaiting = true) : w = .waiting := by
  cases w <;> first | rfl | cases h

def Writer.isReturned {T : Type} : Writer T → Bool
  | returned _ => true
  | _ => false

/-- The channel was found empty for good. -/
def Writer.isClosing {T : Type} : Writer T → Bool
  | closing _ | returned true => true
  | _ => false

/-- A connection. A request is named by its place among the requests read. -/
structure SvrConn (T : Type) where
  /-- the reader has not ended -/
  reading : Bool
  /-- the tasks made of requests, as far as they are under way -/
  tasks : List ℕ
  chan : List (ℕ × SvrItem T)
  writer : Writer T
  encodeBuf : HeadedBuf rpcRespHeaderLen
  socket : Socket
  /-- ghost: the requests read -/
  reqs : List RpcSvrReq
  /-- ghost: what went into the channel -/
  answers : List (ℕ × SvrItem T)
  /-- ghost: what was answered when the writer had ended -/
  late : List (ℕ × SvrItem T)
  /-- ghost: the tasks dropped without an answer -/
  dropped : List ℕ
  /-- ghost: the answers written whole -/
  written : List (ℕ × SvrItem T)

/-- What `dispatch_req` does with a request. -/
structure Dispatched where
  /-- it makes a task of it -/
  kept : Bool
  /-- it returns `Ok(())` -/
  ok : Bool

/-- What happens next. -/
inductive SvrLabel (T : Type) : Type where
  /-- `read_req` returns a request -/
  | read (req : RpcSvrReq) (d : Dispatched)
  /-- `read_req` fails -/
  | readErr
  /-- a task gets its result -/
  | finish (i : ℕ) (task : T)
  /-- a task is dropped -/
  | abandon (i : ℕ)
  /-- the writer goes on; what the socket makes of it -/
  | writer (r : IoResult)
  /-- bytes leave the buffer of the socket -/
  | pass (n : ℕ)

namespace SvrConn

variable {T : Type}

/-- `server_conn`. -/
def init : SvrConn T where
  reading := true
  tasks := []
  chan := []
  writer := .waiting
  encodeBuf := .withCapacity rpcRespHeaderLen (512 - rpcRespHeaderLen)
  socket := ⟨[], [], false⟩
  reqs := []
  answers := []
  late := []
  dropped := []
  written := []

/-- `send` on the channel, which fails when the writer has ended. -/
def send (s : SvrConn T) (i : ℕ) (item : SvrItem T) : SvrConn T :=
  if s.writer.isReturned then { s with late := s.late ++ [(i, item)] }
  else { s with chan := s.chan ++ [(i, item)], answers := s.answers ++ [(i, item)] }

/-- `send_quick_resp`; the reader ends when it fails. -/
def sendQuickResp (s : SvrConn T) (i : ℕ) (seq : UInt64) (err : Option RpcIntErr) : SvrConn T :=
  { s.send i (.error (seq, err)) with reading := !s.writer.isReturned }

/-- What is left of a request that was dispatched. -/
def dispatch (s : SvrConn T) (i : ℕ) (d : Dispatched) : SvrConn T :=
  if d.kept then { s with tasks := s.tasks ++ [i] }
  else if d.ok then { s with dropped := s.dropped ++ [i] }
  else s

/-- The body of the loop of `Reader::run`, with a request. -/
def read (s : SvrConn T) (req : RpcSvrReq) (d : Dispatched) : SvrConn T :=
  let i := s.reqs.length
  let s := { s with reqs := s.reqs ++ [req] }
  if req.action = .num 0 ∧ req.msg = [] then s.sendQuickResp i req.seq none
  else
    let s := s.dispatch i d
    if d.ok then s else s.sendQuickResp i req.seq (some .decode)

/-- The writer ends with an error, and the channel goes with it. -/
def fail (s : SvrConn T) : SvrConn T := { s with writer := .returned false, chan := [] }

variable [ServerTaskEncode T]

/-- The writer takes an answer out of the channel. -/
def process (s : SvrConn T) (i : ℕ) (item : SvrItem T) (chan : List (ℕ × SvrItem T)) : SvrConn T :=
  let p := item.process s.encodeBuf
  { s with chan, encodeBuf := p.1, writer := .processing i item p.2 }

/-- One step of `Writer::run`. -/
def stepWriter (r : IoResult) (s : SvrConn T) : Option (SvrConn T) :=
  match s.writer with
  | .waiting =>
    match s.chan with
    | (i, item) :: chan => some (s.process i item chan)
    | [] =>
      -- `recv` fails once all clones of the channel are gone
      if s.reading = false ∧ s.tasks = [] then
        some { s with writer := .closing TcpServer.closeConn }
      else none
  | .processing i item (.ret true) =>
    some { s with writer := .draining, written := s.written ++ [(i, item)] }
  | .processing _ _ (.ret false) => some s.fail
  | .processing i item (.act o k) =>
    let q := o.exec r s.socket
    some { s with socket := q.1, writer := .processing i item (k q.2) }
  | .draining =>
    match s.chan with
    | (i, item) :: chan => some (s.process i item chan)
    | [] => some { s with writer := .flushing TcpServer.flushResp }
  | .flushing (.ret true) => some { s with writer := .waiting }
  | .flushing (.ret false) => some s.fail
  | .flushing (.act o k) =>
    let q := o.exec r s.socket
    some { s with socket := q.1, writer := .flushing (k q.2) }
  | .closing (.ret ()) => some { s with writer := .returned true }
  | .closing (.act o k) =>
    let q := o.exec r s.socket
    some { s with socket := q.1, writer := .closing (k q.2) }
  | .returned _ => none

/-- One step of the connection. -/
def next (s : SvrConn T) : SvrLabel T → Option (SvrConn T)
  | .read req d => if s.reading then some (s.read req d) else none
  | .readErr => if s.reading then some { s with reading := false } else none
  | .finish i task =>
    if i ∈ s.tasks then some (send { s with tasks := s.tasks.erase i } i (.ok task)) else none
  | .abandon i =>
    if i ∈ s.tasks then
      some { s with tasks := s.tasks.erase i, dropped := s.dropped ++ [i] }
    else none
  | .writer r => s.stepWriter r
  | .pass n => some { s with socket := s.socket.pass n }

/-- What is asked of a dispatcher: a request that it refuses it does not keep, and an
answer has the number of its request. -/
def Proper (s : SvrConn T) : SvrLabel T → Prop
  | .read _ d => d.ok = false → d.kept = false
  | .finish i task => ∀ req ∈ s.reqs[i]?, SvrItem.seq (.ok task) = req.seq
  | _ => True

instance (s : SvrConn T) : (l : SvrLabel T) → Decidable (Proper s l)
  | .read _ d => inferInstanceAs (Decidable (d.ok = false → d.kept = false))
  | .finish i task =>
    inferInstanceAs (Decidable (∀ req ∈ s.reqs[i]?, SvrItem.seq (.ok task) = req.seq))
  | .readErr | .abandon _ | .writer _ | .pass _ => .isTrue trivial

/-! ### What a step can be -/

omit [ServerTaskEncode T] in
/-- An answer goes into the channel, or comes too late. -/
theorem send_cases (s : SvrConn T) (i : ℕ) (item : SvrItem T) :
    s.writer.isReturned = true ∧ s.send i item = { s with late := s.late ++ [(i, item)] } ∨
      s.writer.isReturned = false ∧
        s.send i item = { s with chan := s.chan ++ [(i, item)], answers := s.answers ++ [(i, item)] } := by
  unfold send
  split
  · rename_i h
    exact Or.inl ⟨h, rfl⟩
  · rename_i h
    exact Or.inr ⟨Bool.eq_false_iff.mpr h, rfl⟩

/-- What a step of the writer can be. -/
inductive WriterStep (r : IoResult) (s : SvrConn T) : SvrConn T → Prop
  | take {i : ℕ} {item : SvrItem T} {chan : List (ℕ × SvrItem T)}
      (hwriter : s.writer = .waiting ∨ s.writer = .draining) (hchan : s.chan = (i, item) :: chan) :
      WriterStep r s (s.process i item chan)
  | write {i : ℕ} {item : SvrItem T} {o : WriteOp} {k : Bool → Write Bool}
      (hwriter : s.writer = .processing i item (.act o k)) :
      WriterStep r s { s with
        socket := (o.exec r s.socket).1, writer := .processing i item (k (o.exec r s.socket).2) }
  | wrote {i : ℕ} {item : SvrItem T} (hwriter : s.writer = .processing i item (.ret true)) :
      WriterStep r s { s with writer := .draining, written := s.written ++ [(i, item)] }
  | drained (hwriter : s.writer = .draining) (hchan : s.chan = []) :
      WriterStep r s { s with writer := .flushing TcpServer.flushResp }
  | flush {o : WriteOp} {k : Bool → Write Bool} (hwriter : s.writer = .flushing (.act o k)) :
      WriterStep r s { s with
        socket := (o.exec r s.socket).1, writer := .flushing (k (o.exec r s.socket).2) }
  | flushed (hwriter : s.writer = .flushing (.ret true)) :
      WriterStep r s { s with writer := .waiting }
  | fail (hwriter : (∃ i item, s.writer = .processing i item (.ret false)) ∨
      s.writer = .flushing (.ret false)) : WriterStep r s s.fail
  | hangUp (hwriter : s.writer = .waiting) (hchan : s.chan = []) (hreading : s.reading = false)
      (htasks : s.tasks = []) : WriterStep r s { s with writer := .closing TcpServer.closeConn }
  | close {o : WriteOp} {k : Bool → Write Unit} (hwriter : s.writer = .closing (.act o k)) :
      WriterStep r s { s with
        socket := (o.exec r s.socket).1, writer := .closing (k (o.exec r s.socket).2) }
  | closed (hwriter : s.writer = .closing (.ret ())) :
      WriterStep r s { s with writer := .returned true }

theorem stepWriter_cases {r : IoResult} {s s' : SvrConn T} (h : s.stepWriter r = some s') :
    WriterStep r s s' := by
  obtain ⟨reading, tasks, chan, writer, encodeBuf, socket, reqs, answers, late, dropped, written⟩ := s
  cases writer with
  | waiting =>
    cases chan with
    | nil =>
      simp only [stepWriter] at h
      split at h
      · rename_i hgone
        cases h
        exact .hangUp rfl rfl hgone.1 hgone.2
      · cases h
    | cons a chan =>
      cases h
      exact .take (Or.inl rfl) rfl
  | processing i item p =>
    rcases p with (_ | _) | ⟨o, k⟩
    · cases h
      exact .fail (Or.inl ⟨i, item, rfl⟩)
    · cases h
      exact .wrote rfl
    · cases h
      exact .write rfl
  | draining =>
    cases chan with
    | nil =>
      cases h
      exact .drained rfl rfl
    | cons a chan =>
      cases h
      exact .take (Or.inr rfl) rfl
  | flushing p =>
    rcases p with (_ | _) | ⟨o, k⟩
    · cases h
      exact .fail (Or.inr rfl)
    · cases h
      exact .flushed rfl
    · cases h
      exact .flush rfl
  | closing p =>
    rcases p with _ | ⟨o, k⟩
    · cases h
      exact .closed rfl
    · cases h
      exact .close rfl
  | returned ok => cases h

end SvrConn

/-! ## Every request in one place -/

variable {T : Type} [ServerTaskEncode T]

/-- The answers a request can get. -/
inductive SvrItem.Answers (req : RpcSvrReq) : SvrItem T → Prop
  | ping (h : req.IsPing) : Answers req (.error (req.seq, none))
  | refused (h : ¬ req.IsPing) : Answers req (.error (req.seq, some .decode))
  | task (h : ¬ req.IsPing) {task : T} (hseq : SvrItem.seq (.ok task) = req.seq) :
      Answers req (.ok task)

theorem SvrItem.Answers.seq_eq {req : RpcSvrReq} {item : SvrItem T} (h : Answers req item) :
    item.seq = req.seq := by
  cases h with
  | ping h => rfl
  | refused h => rfl
  | task h hseq => exact hseq

namespace SvrConn

/-- The requests that were answered, in time or too late. -/
def answered (s : SvrConn T) : List ℕ := (s.answers ++ s.late).map Prod.fst

/-- Every request read is with its task, answered, or dropped, and in one of these places
once; and what it was answered with is an answer to it. -/
structure Placed (s : SvrConn T) : Prop where
  places : (s.tasks ++ s.answered ++ s.dropped).Perm (List.range s.reqs.length)
  asked : ∀ i ∈ s.tasks, ∃ req, s.reqs[i]? = some req ∧ ¬ req.IsPing
  fits : ∀ a ∈ s.answers ++ s.late, ∃ req, s.reqs[a.1]? = some req ∧ SvrItem.Answers req a.2

namespace Placed

variable {s : SvrConn T} {i : ℕ} {item : SvrItem T}

theorem init : (SvrConn.init : SvrConn T).Placed :=
  ⟨List.Perm.refl _, fun _ h => absurd h List.not_mem_nil, fun _ h => absurd h List.not_mem_nil⟩

omit [ServerTaskEncode T] in
/-- What an answer leaves alone. -/
theorem send_frame (s : SvrConn T) (i : ℕ) (item : SvrItem T) :
    (s.send i item).tasks = s.tasks ∧ (s.send i item).reqs = s.reqs ∧
      (s.send i item).dropped = s.dropped ∧
      (s.send i item).answered.Perm (i :: s.answered) ∧
      ∀ a ∈ (s.send i item).answers ++ (s.send i item).late,
        a = (i, item) ∨ a ∈ s.answers ++ s.late := by
  rcases s.send_cases i item with ⟨-, hsend⟩ | ⟨-, hsend⟩
  · rw [hsend]
    refine ⟨rfl, rfl, rfl, ?_, fun a ha => ?_⟩
    · rw [answered, answered, ← List.append_assoc, List.map_append]
      exact List.perm_append_singleton _ _
    · rw [← List.append_assoc] at ha
      rcases List.mem_append.mp ha with ha | ha
      · exact Or.inr ha
      · exact Or.inl (List.mem_singleton.mp ha)
  · rw [hsend]
    refine ⟨rfl, rfl, rfl, ?_, fun a ha => ?_⟩
    · simp only [answered, List.map_append, List.append_assoc]
      exact List.perm_middle
    · rw [List.append_assoc] at ha
      rcases List.mem_append.mp ha with ha | ha
      · exact Or.inr (List.mem_append_left _ ha)
      · rcases List.mem_append.mp ha with ha | ha
        · exact Or.inl (List.mem_singleton.mp ha)
        · exact Or.inr (List.mem_append_right _ ha)

/-- A request without a place gets an answer. -/
theorem send (hplaces : (i :: (s.tasks ++ s.answered ++ s.dropped)).Perm (List.range s.reqs.length))
    (hasked : ∀ i ∈ s.tasks, ∃ req, s.reqs[i]? = some req ∧ ¬ req.IsPing)
    (hfits : ∀ a ∈ s.answers ++ s.late, ∃ req, s.reqs[a.1]? = some req ∧ SvrItem.Answers req a.2)
    (hitem : ∃ req, s.reqs[i]? = some req ∧ SvrItem.Answers req item) : (s.send i item).Placed := by
  obtain ⟨htasks, hreqs, hdropped, hanswered, hmem⟩ := send_frame s i item
  refine ⟨?_, ?_, fun a ha => ?_⟩
  · rw [htasks, hreqs, hdropped]
    refine List.Perm.trans ?_ hplaces
    refine (List.Perm.append_right _ (List.Perm.append_left _ hanswered)).trans ?_
    exact List.Perm.append_right _ List.perm_middle
  · rw [htasks, hreqs]
    exact hasked
  · rw [hreqs]
    rcases hmem a ha with rfl | ha
    · exact hitem
    · exact hfits a ha

omit [ServerTaskEncode T] in
/-- The requests read before are still there. -/
theorem getElem?_reqs {req req' : RpcSvrReq} (h : s.reqs[i]? = some req) :
    (s.reqs ++ [req'])[i]? = some req := by
  rw [List.getElem?_append_left (List.getElem?_eq_some_iff.mp h).1]
  exact h

omit [ServerTaskEncode T] in
theorem getElem?_reqs_length (req : RpcSvrReq) :
    (s.reqs ++ [req])[s.reqs.length]? = some req := by
  rw [List.getElem?_append_right (Nat.le_refl _), Nat.sub_self]
  rfl

/-- A request is read. -/
theorem read (h : s.Placed) (req : RpcSvrReq) {d : Dispatched} (hd : d.ok = false → d.kept = false) :
    (s.read req d).Placed := by
  have hplaces : (s.reqs.length :: (s.tasks ++ s.answered ++ s.dropped)).Perm
      (List.range (s.reqs ++ [req]).length) := by
    rw [List.length_append, List.length_singleton, List.range_succ]
    exact (List.Perm.cons _ h.places).trans (List.perm_append_singleton _ _).symm
  have hasked : ∀ i ∈ s.tasks, ∃ req', (s.reqs ++ [req])[i]? = some req' ∧ ¬ req'.IsPing := by
    intro i hi
    obtain ⟨req', hreq, hping⟩ := h.asked i hi
    exact ⟨req', getElem?_reqs hreq, hping⟩
  have hfits : ∀ a ∈ s.answers ++ s.late, ∃ req', (s.reqs ++ [req])[a.1]? = some req' ∧
      SvrItem.Answers req' a.2 := by
    intro a ha
    obtain ⟨req', hreq, hitem⟩ := h.fits a ha
    exact ⟨req', getElem?_reqs hreq, hitem⟩
  have hquick : ∀ err : Option RpcIntErr, SvrItem.Answers req (.error (req.seq, err) : SvrItem T) →
      (sendQuickResp { s with reqs := s.reqs ++ [req] } s.reqs.length req.seq err).Placed := by
    intro err hitem
    have hsend := send (s := { s with reqs := s.reqs ++ [req] }) hplaces hasked hfits
      ⟨req, getElem?_reqs_length req, hitem⟩
    exact ⟨hsend.places, hsend.asked, hsend.fits⟩
  obtain ⟨kept, ok⟩ := d
  unfold SvrConn.read
  dsimp only
  split
  · rename_i hping
    exact hquick none (.ping hping)
  · rename_i hping
    cases kept with
    | true =>
      cases ok with
      | false => cases hd rfl
      | true =>
        refine ⟨?_, ?_, hfits⟩
        · refine List.Perm.trans ?_ hplaces
          change ((s.tasks ++ [s.reqs.length]) ++ s.answered ++ s.dropped).Perm _
          simp only [List.append_assoc]
          exact List.perm_middle
        · intro i hi
          rcases List.mem_append.mp hi with hi | hi
          · exact hasked i hi
          · rw [List.mem_singleton.mp hi]
            exact ⟨req, getElem?_reqs_length req, hping⟩
    | false =>
      cases ok with
      | false => exact hquick (some .decode) (.refused hping)
      | true =>
        refine ⟨?_, hasked, hfits⟩
        refine List.Perm.trans ?_ hplaces
        change (s.tasks ++ s.answered ++ (s.dropped ++ [s.reqs.length])).Perm _
        rw [← List.append_assoc]
        exact List.perm_append_singleton _ _

omit [ServerTaskEncode T] in
/-- A task that goes away leaves its place to the request. -/
theorem perm_erase (h : i ∈ s.tasks) :
    (i :: (s.tasks.erase i ++ s.answered ++ s.dropped)).Perm (s.tasks ++ s.answered ++ s.dropped) :=
  List.Perm.append_right _ (List.Perm.append_right _ (List.perm_cons_erase h).symm)

/-- **The step lemma.** -/
theorem step (h : s.Placed) {l : SvrLabel T} (hok : Proper s l) {s' : SvrConn T}
    (hnext : next s l = some s') : s'.Placed := by
  cases l with
  | read req d =>
    simp only [next] at hnext
    split at hnext
    · cases hnext
      exact h.read req hok
    · cases hnext
  | readErr =>
    simp only [next] at hnext
    split at hnext
    · cases hnext
      exact ⟨h.places, h.asked, h.fits⟩
    · cases hnext
  | finish i task =>
    simp only [next] at hnext
    split at hnext
    · rename_i hi
      cases hnext
      obtain ⟨req, hreq, hping⟩ := h.asked i hi
      refine send (s := { s with tasks := s.tasks.erase i }) ((perm_erase hi).trans h.places)
        (fun j hj => h.asked j (List.mem_of_mem_erase hj)) h.fits ?_
      exact ⟨req, hreq, .task hping (hok req hreq)⟩
    · cases hnext
  | abandon i =>
    simp only [next] at hnext
    split at hnext
    · rename_i hi
      cases hnext
      refine ⟨?_, fun j hj => h.asked j (List.mem_of_mem_erase hj), h.fits⟩
      refine List.Perm.trans ?_ ((perm_erase hi).trans h.places)
      change (s.tasks.erase i ++ s.answered ++ (s.dropped ++ [i])).Perm _
      rw [← List.append_assoc]
      exact List.perm_append_singleton _ _
    · cases hnext
  | writer r =>
    cases stepWriter_cases hnext <;> exact ⟨h.places, h.asked, h.fits⟩
  | pass n =>
    cases hnext
    exact ⟨h.places, h.asked, h.fits⟩

end Placed

/-! ## What is written -/

/-- The bytes of answers, one after the other. -/
def frames (items : List (ℕ × SvrItem T)) : List UInt8 := items.flatMap fun a => a.2.frame

theorem frames_append (items items' : List (ℕ × SvrItem T)) :
    frames (items ++ items') = frames items ++ frames items' := List.flatMap_append

/-- A flush leaves the buffer empty, nothing is written any more, and a shutdown is for
the end and comes after a flush. -/
def tidying (closing : Bool) : Protocol WriteOp WriteOp.Res Bool where
  ok y
    | .writeAll _ => False
    | .flush => True
    | .shutdownWrite => closing = true ∧ y = true
  next y
    | .flush, ok => ok
    | _, _ => y

theorem tidying_flushResp : Follows (tidying false) (fun ok y => ok = y) false TcpServer.flushResp :=
  ⟨trivial, fun _ => rfl⟩

theorem tidying_closeConn : Follows (tidying true) (fun _ _ => True) false TcpServer.closeConn := by
  refine ⟨trivial, fun ok => ?_⟩
  cases ok with
  | true => exact ⟨⟨rfl, rfl⟩, fun _ => trivial⟩
  | false => exact trivial

/-- Of the answers, `written` are written and nothing else but `part`; `hand` is what the
writer is at. -/
structure Writing (s : SvrConn T) (hand : List (ℕ × SvrItem T)) (part : List UInt8) : Prop where
  answers : s.answers = s.written ++ hand ++ s.chan
  out : s.socket.out = frames s.written ++ part

/-- Nothing is left to be done: the reader has ended, no task is under way, and all that was
answered is written and flushed. -/
structure Finished (s : SvrConn T) : Prop where
  writing : s.Writing [] []
  chan : s.chan = []
  flushed : s.socket.buffered = []
  reading : s.reading = false
  tasks : s.tasks = []

/-- The writer, where it is. -/
def Writes (s : SvrConn T) : Writer T → Prop
  | .waiting => s.Writing [] [] ∧ s.socket.buffered = []
  | .processing i item p => ∃ y bytes, Follows writing (Wrote item.frame) y p ∧
      (∀ b ∈ y, b = bytes) ∧ bytes <+: item.frame ∧ s.Writing [(i, item)] bytes
  | .draining => s.Writing [] []
  | .flushing p => s.Writing [] [] ∧ ∃ y, Follows (tidying false) (fun ok y => ok = y) y p ∧
      (y = true → s.socket.buffered = [])
  | .closing p => s.Finished ∧ ∃ y, Follows (tidying true) (fun _ _ => True) y p
  | .returned true => s.Finished
  | .returned false => s.chan = [] ∧ s.written <+: s.answers ∧ s.socket.out <+: frames s.answers

omit [ServerTaskEncode T] in
theorem exec_writeAll (r : IoResult) (bytes : List UInt8) (s : Socket) :
    ((WriteOp.writeAll bytes).exec r s).1.shut = s.shut ∧
      (((WriteOp.writeAll bytes).exec r s).2 = true ∧
          ((WriteOp.writeAll bytes).exec r s).1.out = s.out ++ bytes ∨
        ((WriteOp.writeAll bytes).exec r s).2 = false ∧
          ∃ n, ((WriteOp.writeAll bytes).exec r s).1.out = s.out ++ bytes.take n) := by
  cases r with
  | done => exact ⟨rfl, Or.inl ⟨rfl, (List.append_assoc _ _ _).symm⟩⟩
  | failed n => exact ⟨rfl, Or.inr ⟨rfl, n, (List.append_assoc _ _ _).symm⟩⟩

omit [ServerTaskEncode T] in
/-- Nothing gets into the buffer, and after a flush there is nothing in it. -/
theorem exec_tidying {closing y : Bool} {o : WriteOp} (hok : (tidying closing).ok y o) (r : IoResult)
    {s : Socket} (hy : y = true → s.buffered = []) :
    (o.exec r s).1.out = s.out ∧ (s.buffered = [] → (o.exec r s).1.buffered = []) ∧
      ((tidying closing).next y o (o.exec r s).2 = true → (o.exec r s).1.buffered = []) ∧
      ((o.exec r s).1.shut = true → s.shut = true ∨ closing = true) := by
  cases o with
  | writeAll bytes => exact hok.elim
  | flush =>
    cases r with
    | done => exact ⟨by simp [WriteOp.exec, Socket.out], fun _ => rfl, fun _ => rfl, Or.inl⟩
    | failed n =>
      refine ⟨Socket.out_pass s n, fun h => ?_, Bool.noConfusion, Or.inl⟩
      change s.buffered.drop n = []
      rw [h, List.drop_nil]
  | shutdownWrite =>
    have hnil := hy hok.2
    cases r with
    | done => exact ⟨rfl, id, fun _ => hnil, fun _ => Or.inr hok.1⟩
    | failed n => exact ⟨rfl, id, fun _ => hnil, Or.inl⟩

/-- What is written, at any time. -/
structure InOrder (s : SvrConn T) : Prop where
  writes : s.Writes s.writer
  late : s.late ≠ [] → s.writer = .returned false
  shut : s.socket.shut = true → s.writer.isClosing = true

section

variable {s s' : SvrConn T} {w : Writer T}

theorem Writing.congr {hand : List (ℕ × SvrItem T)} {part : List UInt8}
    (h : s.Writing hand part) (hanswers : s'.answers = s.answers) (hchan : s'.chan = s.chan)
    (hwritten : s'.written = s.written) (hout : s'.socket.out = s.socket.out) :
    s'.Writing hand part := by
  refine ⟨?_, ?_⟩
  · rw [hanswers, hwritten, hchan]
    exact h.answers
  · rw [hout, hwritten]
    exact h.out

/-- What is written is the beginning of what was answered. -/
theorem Writing.isPrefix {hand : List (ℕ × SvrItem T)} {part : List UInt8}
    (h : s.Writing hand part) (hpart : part <+: frames hand) :
    s.written <+: s.answers ∧ s.socket.out <+: frames s.answers := by
  rw [h.answers, h.out, frames_append, frames_append, List.append_assoc, List.append_assoc]
  refine ⟨List.prefix_append _ _, (List.prefix_append_right_inj _).mpr ?_⟩
  exact hpart.trans (List.prefix_append _ _)

/-- Everything is written and flushed. -/
theorem Writing.sent_eq (h : s.Writing [] []) (hchan : s.chan = []) (hnil : s.socket.buffered = []) :
    s.socket.sent = frames s.answers := by
  have hout : s.socket.out = s.socket.sent := by rw [Socket.out, hnil, List.append_nil]
  have hanswers : s.answers = s.written := by
    rw [h.answers, hchan, List.append_nil, List.append_nil]
  rw [← hout, h.out, List.append_nil, hanswers]

theorem Finished.sent_eq (h : s.Finished) : s.socket.sent = frames s.answers :=
  h.writing.sent_eq h.chan h.flushed

theorem Finished.congr (h : s.Finished) (hanswers : s'.answers = s.answers) (hchan : s'.chan = s.chan)
    (hwritten : s'.written = s.written) (hout : s'.socket.out = s.socket.out)
    (hbuffered : s.socket.buffered = [] → s'.socket.buffered = [])
    (hgone : s.reading = false → s.tasks = [] → s'.reading = false ∧ s'.tasks = []) :
    s'.Finished :=
  ⟨h.writing.congr hanswers hchan hwritten hout, hchan.trans h.chan, hbuffered h.flushed,
    (hgone h.reading h.tasks).1, (hgone h.reading h.tasks).2⟩

/-- The writer does not move, and nothing is answered. -/
theorem Writes.congr (h : s.Writes w) (hanswers : s'.answers = s.answers) (hchan : s'.chan = s.chan)
    (hwritten : s'.written = s.written) (hout : s'.socket.out = s.socket.out)
    (hbuffered : s.socket.buffered = [] → s'.socket.buffered = [])
    (hgone : s.reading = false → s.tasks = [] → s'.reading = false ∧ s'.tasks = []) :
    s'.Writes w := by
  have hwriting : ∀ {hand : List (ℕ × SvrItem T)} {part : List UInt8}, s.Writing hand part →
      s'.Writing hand part := fun h => h.congr hanswers hchan hwritten hout
  cases w with
  | waiting => exact ⟨hwriting h.1, hbuffered h.2⟩
  | processing i item p =>
    obtain ⟨y, bytes, hfollows, hy, hprefix, h⟩ := h
    exact ⟨y, bytes, hfollows, hy, hprefix, hwriting h⟩
  | draining => exact hwriting h
  | flushing p =>
    obtain ⟨h, y, hfollows, hy⟩ := h
    exact ⟨hwriting h, y, hfollows, fun ht => hbuffered (hy ht)⟩
  | closing p =>
    exact ⟨h.1.congr hanswers hchan hwritten hout hbuffered hgone, h.2⟩
  | returned ok =>
    cases ok with
    | true =>
      have hfinished : s.Finished := h
      exact hfinished.congr hanswers hchan hwritten hout hbuffered hgone
    | false =>
      refine ⟨hchan.trans h.1, ?_, ?_⟩
      · rw [hwritten, hanswers]
        exact h.2.1
      · rw [hout, hanswers]
        exact h.2.2

/-- Something goes into the channel. -/
theorem Writes.answer {a : ℕ × SvrItem T} (h : s.Writes w) (hw : w.isReturned = false)
    (hopen : ¬ (s.reading = false ∧ s.tasks = [])) (hanswers : s'.answers = s.answers ++ [a])
    (hchan : s'.chan = s.chan ++ [a]) (hwritten : s'.written = s.written)
    (hsocket : s'.socket = s.socket) : s'.Writes w := by
  have hwriting : ∀ {hand : List (ℕ × SvrItem T)} {part : List UInt8}, s.Writing hand part →
      s'.Writing hand part := by
    intro hand part h
    refine ⟨?_, ?_⟩
    · rw [hanswers, hwritten, hchan, h.answers, List.append_assoc]
    · rw [hsocket, hwritten]
      exact h.out
  cases w with
  | waiting =>
    refine ⟨hwriting h.1, ?_⟩
    rw [hsocket]
    exact h.2
  | processing i item p =>
    obtain ⟨y, bytes, hfollows, hy, hprefix, h⟩ := h
    exact ⟨y, bytes, hfollows, hy, hprefix, hwriting h⟩
  | draining => exact hwriting h
  | flushing p =>
    obtain ⟨h, y, hfollows, hy⟩ := h
    refine ⟨hwriting h, y, hfollows, ?_⟩
    rw [hsocket]
    exact hy
  | closing p => exact absurd ⟨h.1.reading, h.1.tasks⟩ hopen
  | returned ok => cases hw

end

namespace InOrder

variable {s : SvrConn T}

theorem init : (SvrConn.init : SvrConn T).InOrder :=
  ⟨⟨⟨rfl, rfl⟩, rfl⟩, fun h => absurd rfl h, fun h => by cases h⟩

/-- Something is answered while the channel has a clone. -/
theorem send (h : s.InOrder) (hopen : ¬ (s.reading = false ∧ s.tasks = [])) (i : ℕ)
    (item : SvrItem T) (reading : Bool) (tasks dropped : List ℕ) (reqs : List RpcSvrReq) :
    InOrder { SvrConn.send { s with tasks, dropped, reqs } i item with reading } := by
  rcases send_cases { s with tasks, dropped, reqs } i item with ⟨hret, hsend⟩ | ⟨hret, hsend⟩
  · rw [hsend]
    have hfailed : s.writer = .returned false := by
      have hwrites := h.writes
      have hret : s.writer.isReturned = true := hret
      cases hwriter : s.writer with
      | returned ok =>
        rw [hwriter] at hwrites
        cases ok with
        | true => exact absurd ⟨Finished.reading hwrites, Finished.tasks hwrites⟩ hopen
        | false => rfl
      | _ =>
        rw [hwriter] at hret
        cases hret
    have hwrites := h.writes
    refine ⟨?_, fun _ => hfailed, h.shut⟩
    rw [hfailed] at hwrites
    change SvrConn.Writes _ s.writer
    rw [hfailed]
    exact hwrites
  · rw [hsend]
    exact ⟨h.writes.answer hret hopen rfl rfl rfl rfl, h.late, h.shut⟩

theorem late_eq_nil (h : s.InOrder) (hw : s.writer.isReturned = false) : s.late = [] := by
  by_contra hne
  rw [h.late hne] at hw
  cases hw

theorem not_shut (h : s.InOrder) (hw : s.writer.isClosing = false) : s.socket.shut = false := by
  by_contra hshut
  have hclosing := h.shut (Bool.eq_true_of_not_eq_false hshut)
  rw [hw] at hclosing
  cases hclosing

theorem finished (h : s.InOrder) (hclosing : s.writer.isClosing = true) : s.Finished := by
  have hwrites := h.writes
  cases hwriter : s.writer with
  | closing p =>
    rw [hwriter] at hwrites
    exact hwrites.1
  | returned ok =>
    rw [hwriter] at hwrites hclosing
    cases ok with
    | true => exact hwrites
    | false => cases hclosing
  | _ =>
    rw [hwriter] at hclosing
    cases hclosing

/-- An answer is the next to be written. -/
theorem take (h : s.InOrder) (hwriter : s.writer = .waiting ∨ s.writer = .draining) {i : ℕ}
    {item : SvrItem T} {chan : List (ℕ × SvrItem T)} (hchan : s.chan = (i, item) :: chan) :
    (s.process i item chan).InOrder := by
  have hwriting : s.Writing [] [] := by
    have hwrites := h.writes
    rcases hwriter with hwriter | hwriter
    · rw [hwriter] at hwrites
      exact hwrites.1
    · rw [hwriter] at hwrites
      exact hwrites
  have hlate : s.late = [] := h.late_eq_nil (by rcases hwriter with h | h <;> rw [h] <;> rfl)
  have hshut : s.socket.shut = false := h.not_shut (by rcases hwriter with h | h <;> rw [h] <;> rfl)
  refine ⟨⟨some [], [], writing_process s.encodeBuf item, ?_, List.nil_prefix, ?_, hwriting.out⟩,
    fun hne => absurd hlate hne, fun h => ?_⟩
  · intro b hb
    exact (Option.some.inj hb).symm
  · change s.answers = s.written ++ [(i, item)] ++ chan
    rw [hwriting.answers, hchan, List.append_nil, List.append_assoc]
    rfl
  · cases hshut.symm.trans h

/-- A write of an answer. -/
theorem write (h : s.InOrder) {i : ℕ} {item : SvrItem T} {o : WriteOp} {k : Bool → Write Bool}
    (hwriter : s.writer = .processing i item (.act o k)) (r : IoResult) :
    InOrder { s with
      socket := (o.exec r s.socket).1, writer := .processing i item (k (o.exec r s.socket).2) } := by
  have hlate : s.late = [] := h.late_eq_nil (by rw [hwriter]; rfl)
  have hshut : s.socket.shut = false := h.not_shut (by rw [hwriter]; rfl)
  have hwrites := h.writes
  rw [hwriter] at hwrites
  obtain ⟨y, bytes, hfollows, hy, -, hwriting⟩ := hwrites
  cases o with
  | flush => exact hfollows.1.elim
  | shutdownWrite => exact hfollows.1.elim
  | writeAll more =>
    have hsome : y = some bytes := by
      obtain ⟨b, hb⟩ := Option.isSome_iff_exists.mp hfollows.1
      rw [hb, hy b hb]
    subst hsome
    have hprefix : bytes ++ more <+: item.frame := prefix_of_writing (hfollows.2 true)
    obtain ⟨hshut', hexec⟩ := exec_writeAll r more s.socket
    refine ⟨?_, fun hne => absurd hlate hne, fun hs => ?_⟩
    · rcases hexec with ⟨hok, hout⟩ | ⟨hok, n, hout⟩
      · refine ⟨some (bytes ++ more), bytes ++ more, ?_, ?_, hprefix, hwriting.answers, ?_⟩
        · rw [hok]
          exact hfollows.2 true
        · intro b hb
          exact (Option.some.inj hb).symm
        · change ((WriteOp.writeAll more).exec r s.socket).1.out = _
          rw [hout, hwriting.out, List.append_assoc]
      · -- a part of the bytes, and nothing after them
        refine ⟨none, bytes ++ more.take n, ?_, (fun b hb => by cases hb), ?_, hwriting.answers, ?_⟩
        · rw [hok]
          exact hfollows.2 false
        · refine List.IsPrefix.trans ?_ hprefix
          exact (List.prefix_append_right_inj bytes).mpr (List.take_prefix n more)
        · change ((WriteOp.writeAll more).exec r s.socket).1.out = _
          rw [hout, hwriting.out, List.append_assoc]
    · have hs : ((WriteOp.writeAll more).exec r s.socket).1.shut = true := hs
      rw [hshut', hshut] at hs
      cases hs

/-- The answer is written. -/
theorem wrote (h : s.InOrder) {i : ℕ} {item : SvrItem T}
    (hwriter : s.writer = .processing i item (.ret true)) :
    InOrder { s with writer := .draining, written := s.written ++ [(i, item)] } := by
  have hlate : s.late = [] := h.late_eq_nil (by rw [hwriter]; rfl)
  have hshut : s.socket.shut = false := h.not_shut (by rw [hwriter]; rfl)
  have hwrites := h.writes
  rw [hwriter] at hwrites
  obtain ⟨y, bytes, hwrote, hy, -, hwriting⟩ := hwrites
  obtain rfl : item.frame = bytes := hy _ hwrote
  refine ⟨⟨?_, ?_⟩, fun hne => absurd hlate hne, fun hs => ?_⟩
  · rw [hwriting.answers, List.append_nil]
  · change s.socket.out = frames (s.written ++ [(i, item)]) ++ []
    rw [hwriting.out, frames_append, List.append_nil]
    simp [frames]
  · cases hshut.symm.trans hs

/-- The writer gives up. -/
theorem fail (h : s.InOrder) (hwriter : (∃ i item, s.writer = .processing i item (.ret false)) ∨
    s.writer = .flushing (.ret false)) : s.fail.InOrder := by
  have hshut : s.socket.shut = false :=
    h.not_shut (by rcases hwriter with ⟨i, item, h⟩ | h <;> rw [h] <;> rfl)
  have hwrites := h.writes
  refine ⟨⟨rfl, ?_⟩, fun _ => rfl, fun hs => ?_⟩
  · rcases hwriter with ⟨i, item, hwriter⟩ | hwriter
    · rw [hwriter] at hwrites
      obtain ⟨y, bytes, -, -, hprefix, hwriting⟩ := hwrites
      refine hwriting.isPrefix ?_
      simpa [frames] using hprefix
    · rw [hwriter] at hwrites
      exact hwrites.1.isPrefix List.nil_prefix
  · cases hshut.symm.trans hs

/-- The writer takes a step. -/
theorem writer_step (h : s.InOrder) {r : IoResult} {s' : SvrConn T} (hstep : WriterStep r s s') :
    s'.InOrder := by
  have hwrites := h.writes
  cases hstep with
  | take hwriter hchan => exact h.take hwriter hchan
  | write hwriter => exact h.write hwriter r
  | wrote hwriter => exact h.wrote hwriter
  | fail hwriter => exact h.fail hwriter
  | drained hwriter hchan =>
    rw [hwriter] at hwrites
    have hwriting : s.Writing [] [] := hwrites
    refine ⟨⟨hwriting.congr rfl rfl rfl rfl, false, tidying_flushResp, Bool.noConfusion⟩,
      fun hne => ?_, fun hs => ?_⟩
    · exact absurd (h.late_eq_nil (by rw [hwriter]; rfl)) hne
    · cases (h.not_shut (by rw [hwriter]; rfl)).symm.trans hs
  | @flush o k hwriter =>
    rw [hwriter] at hwrites
    obtain ⟨hwriting, y, hfollows, hy⟩ := hwrites
    obtain ⟨hout, -, hbuffered, hshut⟩ := exec_tidying hfollows.1 r hy
    refine ⟨⟨hwriting.congr rfl rfl rfl hout, _, hfollows.step _, hbuffered⟩, fun hne => ?_,
      fun hs => ?_⟩
    · exact absurd (h.late_eq_nil (by rw [hwriter]; rfl)) hne
    · rcases hshut hs with hs | hclosing
      · cases (h.not_shut (by rw [hwriter]; rfl)).symm.trans hs
      · cases hclosing
  | flushed hwriter =>
    rw [hwriter] at hwrites
    obtain ⟨hwriting, y, hfollows, hy⟩ := hwrites
    have hy' : true = y := hfollows
    refine ⟨⟨hwriting.congr rfl rfl rfl rfl, hy hy'.symm⟩, fun hne => ?_, fun hs => ?_⟩
    · exact absurd (h.late_eq_nil (by rw [hwriter]; rfl)) hne
    · cases (h.not_shut (by rw [hwriter]; rfl)).symm.trans hs
  | hangUp hwriter hchan hreading htasks =>
    rw [hwriter] at hwrites
    have hfinished : s.Finished := ⟨hwrites.1, hchan, hwrites.2, hreading, htasks⟩
    refine ⟨⟨hfinished.congr rfl rfl rfl rfl id fun hr ht => ⟨hr, ht⟩, false, tidying_closeConn⟩,
      fun hne => ?_, fun hs => rfl⟩
    exact absurd (h.late_eq_nil (by rw [hwriter]; rfl)) hne
  | close hwriter =>
    rw [hwriter] at hwrites
    obtain ⟨hfinished, y, hfollows⟩ := hwrites
    obtain ⟨hout, hbuffered, -⟩ := exec_tidying hfollows.1 r fun _ => hfinished.flushed
    refine ⟨⟨hfinished.congr rfl rfl rfl hout hbuffered fun hr ht => ⟨hr, ht⟩, _, hfollows.step _⟩,
      fun hne => ?_, fun hs => rfl⟩
    exact absurd (h.late_eq_nil (by rw [hwriter]; rfl)) hne
  | closed hwriter =>
    rw [hwriter] at hwrites
    refine ⟨hwrites.1.congr rfl rfl rfl rfl id fun hr ht => ⟨hr, ht⟩, fun hne => ?_, fun hs => rfl⟩
    exact absurd (h.late_eq_nil (by rw [hwriter]; rfl)) hne

/-- A request is read. -/
theorem read (h : s.InOrder) (hreading : s.reading = true) (req : RpcSvrReq) (d : Dispatched) :
    (s.read req d).InOrder := by
  have hopen : ¬ (s.reading = false ∧ s.tasks = []) := by
    rw [hreading]
    exact fun h => Bool.noConfusion h.1
  obtain ⟨kept, ok⟩ := d
  unfold SvrConn.read
  dsimp only
  split
  · exact h.send hopen s.reqs.length _ _ s.tasks s.dropped _
  · cases ok with
    | false =>
      cases kept with
      | true => exact h.send hopen s.reqs.length _ _ (s.tasks ++ [s.reqs.length]) s.dropped _
      | false => exact h.send hopen s.reqs.length _ _ s.tasks s.dropped _
    | true =>
      cases kept with
      | true =>
        refine ⟨h.writes.congr rfl rfl rfl rfl id fun hgone _ => ?_, h.late, h.shut⟩
        cases hreading.symm.trans hgone
      | false => exact ⟨h.writes.congr rfl rfl rfl rfl id fun hr ht => ⟨hr, ht⟩, h.late, h.shut⟩

/-- **The step lemma.** -/
theorem step (h : s.InOrder) {l : SvrLabel T} {s' : SvrConn T} (hnext : next s l = some s') :
    s'.InOrder := by
  cases l with
  | read req d =>
    simp only [next] at hnext
    split at hnext
    · rename_i hreading
      cases hnext
      exact h.read hreading req d
    · cases hnext
  | readErr =>
    simp only [next] at hnext
    split at hnext
    · cases hnext
      exact ⟨h.writes.congr rfl rfl rfl rfl id fun _ ht => ⟨rfl, ht⟩, h.late, h.shut⟩
    · cases hnext
  | finish i task =>
    simp only [next] at hnext
    split at hnext
    · rename_i hi
      cases hnext
      have hopen : ¬ (s.reading = false ∧ s.tasks = []) := by
        intro hgone
        rw [hgone.2] at hi
        cases hi
      have hsend := h.send hopen i (.ok task) s.reading (s.tasks.erase i) s.dropped s.reqs
      rcases send_cases { s with tasks := s.tasks.erase i } i (.ok task) with ⟨-, heq⟩ | ⟨-, heq⟩
      · rw [heq] at hsend ⊢
        exact hsend
      · rw [heq] at hsend ⊢
        exact hsend
    · cases hnext
  | abandon i =>
    simp only [next] at hnext
    split at hnext
    · rename_i hi
      cases hnext
      refine ⟨h.writes.congr rfl rfl rfl rfl id fun _ ht => ?_, h.late, h.shut⟩
      rw [ht] at hi
      cases hi
    · cases hnext
  | writer r => exact h.writer_step (stepWriter_cases hnext)
  | pass n =>
    cases hnext
    have hnil : s.socket.buffered = [] → (s.socket.pass n).buffered = [] := by
      intro h
      change s.socket.buffered.drop n = []
      rw [h, List.drop_nil]
    exact ⟨h.writes.congr rfl rfl rfl (s.socket.out_pass n) hnil fun hr ht => ⟨hr, ht⟩, h.late, h.shut⟩

/-- What is in the socket is the beginning of what was answered. -/
theorem isPrefix (h : s.InOrder) : s.socket.out <+: frames s.answers := by
  have hwrites := h.writes
  cases hwriter : s.writer with
  | waiting =>
    rw [hwriter] at hwrites
    exact (hwrites.1.isPrefix List.nil_prefix).2
  | processing i item p =>
    rw [hwriter] at hwrites
    obtain ⟨y, bytes, -, -, hprefix, hwriting⟩ := hwrites
    refine (hwriting.isPrefix ?_).2
    simpa [frames] using hprefix
  | draining =>
    rw [hwriter] at hwrites
    have hwriting : s.Writing [] [] := hwrites
    exact (hwriting.isPrefix List.nil_prefix).2
  | flushing p =>
    rw [hwriter] at hwrites
    exact (hwrites.1.isPrefix List.nil_prefix).2
  | closing p =>
    rw [hwriter] at hwrites
    exact (hwrites.1.writing.isPrefix List.nil_prefix).2
  | returned ok =>
    rw [hwriter] at hwrites
    cases ok with
    | true => exact ((Finished.writing hwrites).isPrefix List.nil_prefix).2
    | false => exact hwrites.2.2

end InOrder

/-! ## Whole runs -/

/-- Every state reached. -/
theorem placed_of_reach {s : SvrConn T} (h : Lts.Reach next Proper init s) : s.Placed :=
  h.invariant Placed.init fun _ _ _ h hok hnext => h.step hok hnext

theorem inOrder_of_reach {ok : SvrConn T → SvrLabel T → Prop} {s : SvrConn T}
    (h : Lts.Reach next ok init s) : s.InOrder :=
  h.invariant InOrder.init fun _ _ _ h _ hnext => h.step hnext

/-- **Every request is answered at most once, and by nothing but an answer to it**: at any
time, and whatever the socket does, a request read is with its task, or was answered once, or
its task was dropped. -/
theorem answered_once {s : SvrConn T} (h : Lts.Reach next Proper init s) :
    (s.tasks ++ s.answered ++ s.dropped).Perm (List.range s.reqs.length) ∧
      ∀ a ∈ s.answers ++ s.late, ∃ req, s.reqs[a.1]? = some req ∧ SvrItem.Answers req a.2 :=
  ⟨(placed_of_reach h).places, (placed_of_reach h).fits⟩

/-- Three requests: a ping, a call, and one that is refused. -/
def threeReqs : List (SvrLabel APIServerResp) :=
  [.read ⟨1, .num 0, [], none⟩ ⟨false, true⟩, .read ⟨2, .str "calc.add", [146, 1, 2], none⟩ ⟨true, true⟩,
    .read ⟨3, .num 7, [], none⟩ ⟨false, false⟩]

def writes (n : ℕ) : List (SvrLabel APIServerResp) := List.replicate n (.writer .done)

/-- The call is answered while the others are written, and the client leaves. -/
def orderlyEnd : List (SvrLabel APIServerResp) :=
  writes 3 ++ .finish 1 ⟨2, some [3], .ok ()⟩ :: .readErr :: writes 9

/-- Three requests, each answered once. -/
theorem answered_once_three :
    ∃ s : SvrConn APIServerResp, Lts.Reach next Proper init s ∧ s.reqs.length = 3 ∧
      (s.tasks ++ s.answered ++ s.dropped).Perm (List.range 3) := by
  have hrun : (Lts.exec next Proper init (threeReqs ++ orderlyEnd)).any
      (fun s => decide (s.reqs.length = 3)) = true := by decide +kernel
  obtain ⟨s, hreach, htest⟩ := Lts.Reach.exists_of_exec hrun
  have hlen : s.reqs.length = 3 := of_decide_eq_true htest
  exact ⟨s, hreach, hlen, hlen ▸ (answered_once hreach).1⟩

/-- The writer waits for an answer. -/
def Idle (s : SvrConn T) : Prop := s.writer.isWaiting = true ∧ s.chan = []

omit [ServerTaskEncode T] in
instance (s : SvrConn T) : Decidable s.Idle := inferInstanceAs (Decidable (_ ∧ _))

/-- **Answers go out whole, once, and in the order in which they were given**, and no answer
stays in a buffer while the writer waits for the next. -/
theorem writes_in_order {s : SvrConn T} (h : Lts.Reach next (fun _ _ => True) init s) :
    s.socket.out <+: frames s.answers ∧ (s.Idle → s.socket.sent = frames s.answers) := by
  refine ⟨(inOrder_of_reach h).isPrefix, fun hidle => ?_⟩
  have hwrites := (inOrder_of_reach h).writes
  rw [Writer.eq_waiting hidle.1] at hwrites
  exact hwrites.1.sent_eq hidle.2 hwrites.2

/-- The writer waits, with two answers sent. -/
theorem writes_in_order_two :
    ∃ s : SvrConn APIServerResp, Lts.Reach next (fun _ _ => True) init s ∧ s.answers.length = 2 ∧
      s.socket.sent = frames s.answers := by
  have hrun : (Lts.exec next (fun _ _ => True) init (threeReqs ++ writes 9)).any
      (fun s => decide (s.answers.length = 2 ∧ s.Idle)) = true := by decide +kernel
  obtain ⟨s, hreach, htest⟩ := Lts.Reach.exists_of_exec hrun
  obtain ⟨hlen, hidle⟩ := of_decide_eq_true htest
  exact ⟨s, hreach, hlen, (writes_in_order hreach).2 hidle⟩

/-- A writer that has found the channel empty for good has seen an answer to every request
whose task was not dropped. -/
theorem finished_of_closing {s : SvrConn T} (h : Lts.Reach next Proper init s)
    (hclosing : s.writer.isClosing = true) :
    s.Finished ∧ s.late = [] ∧
      (s.answers.map Prod.fst ++ s.dropped).Perm (List.range s.reqs.length) := by
  have hinv := inOrder_of_reach h
  have hfinished := hinv.finished hclosing
  have hlate : s.late = [] := by
    by_contra hne
    rw [hinv.late hne] at hclosing
    cases hclosing
  refine ⟨hfinished, hlate, ?_⟩
  have hplaces := (placed_of_reach h).places
  rw [hfinished.tasks, answered, hlate, List.append_nil] at hplaces
  exact hplaces

/-- **The write direction is shut down behind the last answer**: by then nothing is read any
more, no task is under way, and the peer was sent an answer to every request read whose task
was not dropped. -/
theorem shut_complete {s : SvrConn T} (h : Lts.Reach next Proper init s)
    (hshut : s.socket.shut = true) :
    (s.reading = false ∧ s.tasks = [] ∧ s.late = []) ∧ s.socket.sent = frames s.answers ∧
      (s.answers.map Prod.fst ++ s.dropped).Perm (List.range s.reqs.length) := by
  obtain ⟨hfinished, hlate, hplaces⟩ := finished_of_closing h ((inOrder_of_reach h).shut hshut)
  exact ⟨⟨hfinished.reading, hfinished.tasks, hlate⟩, hfinished.sent_eq, hplaces⟩

/-- An orderly end: three answers, then the shutdown. -/
theorem shut_complete_three :
    ∃ s : SvrConn APIServerResp, Lts.Reach next Proper init s ∧ s.socket.shut = true ∧
      s.answers.length = 3 ∧ s.socket.sent = frames s.answers := by
  have hrun : (Lts.exec next Proper init (threeReqs ++ orderlyEnd ++ writes 4)).any
      (fun s => decide (s.socket.shut = true ∧ s.answers.length = 3)) = true := by decide +kernel
  obtain ⟨s, hreach, htest⟩ := Lts.Reach.exists_of_exec hrun
  obtain ⟨hshut, hlen⟩ := of_decide_eq_true htest
  exact ⟨s, hreach, hshut, hlen, (shut_complete hreach hshut).2.1⟩

/-! ## The end of the writer -/

/-- No operation on the socket fails. -/
def Healthy (_ : SvrConn T) : SvrLabel T → Prop
  | .writer (.failed _) => False
  | _ => True

instance (s : SvrConn T) : (l : SvrLabel T) → Decidable (Healthy s l)
  | .writer (.failed _) => .isFalse id
  | .writer .done | .read _ _ | .readErr | .finish _ _ | .abandon _ | .pass _ => .isTrue trivial

/-- No operation of the writer has failed. -/
def Sound (s : SvrConn T) : Prop :=
  match s.writer with
  | .waiting | .draining => True
  | .processing _ item p => ∃ bytes, Follows writing (Wrote item.frame) (some bytes) p
  | .flushing p => p = TcpServer.flushResp ∨ p = .ret true
  | .closing p => p = TcpServer.closeConn ∨
      p = .act WriteOp.shutdownWrite (fun _ => .ret ()) ∨ p = .ret () ∧ s.socket.shut = true
  | .returned ok => ok = true ∧ s.socket.shut = true

theorem Sound.writer_step {s s' : SvrConn T} (h : s.Sound) (hstep : WriterStep .done s s') :
    s'.Sound := by
  unfold Sound at h
  cases hstep with
  | take hwriter hchan => exact ⟨[], writing_process _ _⟩
  | @write i item o k hwriter =>
    rw [hwriter] at h
    obtain ⟨bytes, hfollows⟩ := h
    cases o with
    | writeAll more => exact ⟨bytes ++ more, hfollows.2 true⟩
    | flush => exact hfollows.1.elim
    | shutdownWrite => exact hfollows.1.elim
  | wrote hwriter => exact trivial
  | drained hwriter hchan => exact Or.inl rfl
  | flush hwriter =>
    rw [hwriter] at h
    rcases h with h | h
    · cases h
      exact Or.inr rfl
    · cases h
  | flushed hwriter => exact trivial
  | fail hwriter =>
    rcases hwriter with ⟨i, item, hwriter⟩ | hwriter
    · rw [hwriter] at h
      obtain ⟨bytes, hwrote⟩ := h
      cases hwrote
    · rw [hwriter] at h
      rcases h with h | h
      · cases h
      · cases h
  | hangUp hwriter hchan hreading htasks => exact Or.inl rfl
  | close hwriter =>
    rw [hwriter] at h
    rcases h with h | h | h
    · cases h
      exact Or.inr (Or.inl rfl)
    · cases h
      exact Or.inr (Or.inr ⟨rfl, rfl⟩)
    · cases h.1
  | closed hwriter =>
    rw [hwriter] at h
    rcases h with h | h | h
    · cases h
    · cases h
    · exact ⟨rfl, h.2⟩

theorem Sound.congr {s s' : SvrConn T} (h : s.Sound) (hwriter : s'.writer = s.writer)
    (hshut : s'.socket.shut = s.socket.shut) : s'.Sound := by
  unfold Sound at h ⊢
  rw [hwriter, hshut]
  exact h

theorem sound_of_reach {s : SvrConn T} (h : Lts.Reach next Healthy init s) : s.Sound := by
  refine h.invariant trivial fun s l s' h hok hnext => ?_
  have hsend : ∀ (s : SvrConn T) (i : ℕ) (item : SvrItem T),
      (s.send i item).writer = s.writer ∧ (s.send i item).socket.shut = s.socket.shut := by
    intro s i item
    rcases s.send_cases i item with ⟨-, hsend⟩ | ⟨-, hsend⟩
    · rw [hsend]
      exact ⟨rfl, rfl⟩
    · rw [hsend]
      exact ⟨rfl, rfl⟩
  cases l with
  | read req d =>
    simp only [next] at hnext
    split at hnext
    · cases hnext
      obtain ⟨kept, ok⟩ := d
      unfold SvrConn.read
      dsimp only
      split
      · exact h.congr (hsend _ _ _).1 (hsend _ _ _).2
      · cases ok with
        | true => cases kept <;> exact h.congr rfl rfl
        | false => cases kept <;> exact h.congr (hsend _ _ _).1 (hsend _ _ _).2
    · cases hnext
  | readErr =>
    simp only [next] at hnext
    split at hnext
    · cases hnext
      exact h.congr rfl rfl
    · cases hnext
  | finish i task =>
    simp only [next] at hnext
    split at hnext
    · cases hnext
      exact h.congr (hsend _ _ _).1 (hsend _ _ _).2
    · cases hnext
  | abandon i =>
    simp only [next] at hnext
    split at hnext
    · cases hnext
      exact h.congr rfl rfl
    · cases hnext
  | writer r =>
    cases r with
    | done => exact h.writer_step (stepWriter_cases hnext)
    | failed n => exact hok.elim
  | pass n =>
    cases hnext
    exact h.congr rfl rfl

omit [ServerTaskEncode T] in
theorem exec_done (o : WriteOp) (s : Socket) : (o.exec .done s).2 = true := by
  cases o <;> rfl

/-- The operations of a program on a socket that works. -/
def opCount {α : Type} : Write α → ℕ
  | .ret _ => 0
  | .act _ k => opCount (k true) + 1

theorem opCount_process (buf : HeadedBuf rpcRespHeaderLen) (item : SvrItem T) :
    opCount (item.process buf).2 ≤ 2 := by
  rcases item with ⟨seq, err⟩ | task
  · exact Nat.le_succ 1
  · change opCount (TcpServer.writeBlob (RespHead.encode buf task).2.2) + 1 ≤ 2
    rcases (RespHead.encode buf task).2.2 with _ | blob
    · exact Nat.le_succ 1
    · exact Nat.le_refl 2

/-- A bound for the steps the writer has before it. -/
def rank (s : SvrConn T) : ℕ :=
  7 * s.chan.length +
    match s.writer with
    | .waiting => 4
    | .processing _ _ p => opCount p + 8
    | .draining => 7
    | .flushing p => opCount p + 5
    | .closing p => opCount p + 1
    | .returned _ => 0

/-- On a socket that works every step of the writer brings it nearer to its end. -/
theorem rank_writer_step {s s' : SvrConn T} (h : s.Sound) (hstep : WriterStep .done s s') :
    s'.rank < s.rank := by
  unfold Sound at h
  cases hstep with
  | @take i item chan hwriter hchan =>
    have hlen := opCount_process s.encodeBuf item
    rcases hwriter with hwriter | hwriter
    · simp only [rank, process, hwriter, hchan, List.length_cons]
      omega
    · simp only [rank, process, hwriter, hchan, List.length_cons]
      omega
  | write hwriter =>
    simp only [rank, hwriter, exec_done, opCount]
    omega
  | wrote hwriter =>
    simp only [rank, hwriter, opCount]
    omega
  | drained hwriter hchan =>
    simp only [rank, hwriter, TcpServer.flushResp, Write.flush, perform, opCount]
    omega
  | flush hwriter =>
    simp only [rank, hwriter, exec_done, opCount]
    omega
  | flushed hwriter =>
    simp only [rank, hwriter, opCount]
    omega
  | fail hwriter =>
    rcases hwriter with ⟨i, item, hwriter⟩ | hwriter
    · rw [hwriter] at h
      obtain ⟨bytes, hwrote⟩ := h
      cases hwrote
    · rw [hwriter] at h
      rcases h with h | h
      · cases h
      · cases h
  | hangUp hwriter hchan hreading htasks =>
    have hlen : opCount TcpServer.closeConn = 2 := rfl
    simp only [rank, hwriter, hlen]
    omega
  | close hwriter =>
    simp only [rank, hwriter, exec_done, opCount]
    omega
  | closed hwriter =>
    simp only [rank, hwriter, opCount]
    omega

omit [ServerTaskEncode T] in
/-- What the writer leaves alone. -/
theorem WriterStep.frame [ServerTaskEncode T] {r : IoResult} {s s' : SvrConn T}
    (h : WriterStep r s s') : s'.reading = s.reading ∧ s'.tasks = s.tasks ∧ s'.answers = s.answers := by
  cases h <;> exact ⟨rfl, rfl, rfl⟩

/-- The writer is never stuck once the reader and the tasks are gone. -/
theorem exists_stepWriter {s : SvrConn T} (hreading : s.reading = false) (htasks : s.tasks = [])
    (r : IoResult) : (∃ ok, s.writer = .returned ok) ∨ ∃ s', s.stepWriter r = some s' := by
  obtain ⟨reading, tasks, chan, writer, encodeBuf, socket, reqs, answers, late, dropped, written⟩ := s
  cases writer with
  | waiting =>
    cases chan with
    | nil => exact Or.inr ⟨_, if_pos ⟨hreading, htasks⟩⟩
    | cons a chan => exact Or.inr ⟨_, rfl⟩
  | processing i item p => rcases p with (_ | _) | ⟨o, k⟩ <;> exact Or.inr ⟨_, rfl⟩
  | draining => cases chan <;> exact Or.inr ⟨_, rfl⟩
  | flushing p => rcases p with (_ | _) | ⟨o, k⟩ <;> exact Or.inr ⟨_, rfl⟩
  | closing p => rcases p with _ | ⟨o, k⟩ <;> exact Or.inr ⟨_, rfl⟩
  | returned ok => exact Or.inl ⟨ok, rfl⟩

/-- The writer goes on alone, on a socket that works. -/
def goes (s : SvrConn T) (n : ℕ) : Option (SvrConn T) :=
  Lts.exec next (fun _ _ => True) s (List.replicate n (.writer .done))

theorem goes_end {s : SvrConn T} (h : s.Sound) (hreading : s.reading = false)
    (htasks : s.tasks = []) :
    ∃ n s', n ≤ s.rank ∧ s.goes n = some s' ∧ s'.Sound ∧ s'.answers = s.answers ∧
      ∃ ok, s'.writer = .returned ok := by
  induction hrank : s.rank using Nat.strong_induction_on generalizing s with
  | _ m ih =>
    rcases exists_stepWriter hreading htasks .done with hret | ⟨s₁, hstep⟩
    · exact ⟨0, s, Nat.zero_le _, rfl, h, rfl, hret⟩
    · have hcases := stepWriter_cases hstep
      obtain ⟨hreading₁, htasks₁, hanswers₁⟩ := hcases.frame
      have hlt := rank_writer_step h hcases
      obtain ⟨n, s', hn, hgoes, hsound, hanswers, hret⟩ := ih s₁.rank (hrank ▸ hlt)
        (h.writer_step hcases) (hreading₁.trans hreading) (htasks₁.trans htasks) rfl
      refine ⟨n + 1, s', by omega, ?_, hsound, hanswers.trans hanswers₁, hret⟩
      rw [goes, List.replicate_succ, Lts.exec, if_pos trivial]
      change (s.stepWriter .done).bind _ = _
      rw [hstep]
      exact hgoes

/-- **Nothing is left behind**: once the reader has ended and no task is under way, a writer
whose socket works ends by itself, at the latest after as many steps as `rank` says; then all
that was answered is sent and the write direction is shut down. -/
theorem drains {s : SvrConn T} (h : Lts.Reach next Healthy init s) (hreading : s.reading = false)
    (htasks : s.tasks = []) :
    ∃ n s', n ≤ s.rank ∧ s.goes n = some s' ∧ s'.writer = .returned true ∧
      s'.socket.shut = true ∧ s'.socket.sent = frames s.answers := by
  obtain ⟨n, s', hn, hgoes, hsound, hanswers, ok, hret⟩ :=
    goes_end (sound_of_reach h) hreading htasks
  have hinv := inOrder_of_reach ((h.mono fun _ _ _ => trivial).of_exec_from _ hgoes)
  unfold Sound at hsound
  rw [hret] at hsound
  obtain ⟨rfl, hshut⟩ := hsound
  refine ⟨n, s', hn, hgoes, hret, hshut, ?_⟩
  rw [← hanswers]
  exact (hinv.finished (hinv.shut hshut)).sent_eq

/-- The client leaves when an answer is in the channel and one is being written. -/
theorem drains_three :
    ∃ s s' : SvrConn APIServerResp, Lts.Reach next Healthy init s ∧ s.answers.length = 3 ∧
      (∃ n ≤ s.rank, s.goes n = some s') ∧ s'.socket.sent = frames s.answers := by
  have hrun : (Lts.exec next Healthy init (threeReqs ++ writes 4 ++
      [.finish 1 ⟨2, some [3], .ok ()⟩, .readErr])).any
      (fun s => decide (s.answers.length = 3 ∧ s.reading = false ∧ s.tasks = [])) = true := by
    decide +kernel
  obtain ⟨s, hreach, htest⟩ := Lts.Reach.exists_of_exec hrun
  obtain ⟨hlen, hreading, htasks⟩ := of_decide_eq_true htest
  obtain ⟨n, s', hn, hgoes, -, -, hsent⟩ := drains hreach hreading htasks
  exact ⟨s, s', hreach, hlen, ⟨n, hn, hgoes⟩, hsent⟩

end SvrConn

end RazorRpc
