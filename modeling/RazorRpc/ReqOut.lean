import RazorRpc.Linger
import RazorRpc.ReqStream
import RazorRpc.SvrConn

/-!
# Requests on their way out

A request takes several writes, any of which can fail after a part of its bytes, and there
is nothing in the stream to resynchronise on. So a broken-off frame must be the last thing
that is written: `closed` is set before the call that broke it off ends, and every call
that writes asks for `closed` first.

* `ClientOp.frame` — the bytes of a request, the same whatever the encode buffer held;
* `Outlet` — a connection with the socket its requests go to;
* `requesting` — what a call writes, and when: the number is drawn after `closed` was found
  unset, the frame is written from its beginning, and a task is registered when the frame
  of its request is whole;
* `Ordered` — the invariant.

The result is `requests_out`.
-/

namespace RazorRpc

open Bytes Prog ClientStream

variable {B : Type} [ClientTask B]

/-! ## Frames -/

namespace ClientOp

omit [ClientTask B] in
/-- The number of a request. -/
def seq : ClientOp B → UInt64
  | task t => t.seq
  | ping seq => seq

/-- The bytes of a request. -/
def frame (clientId : UInt64) : ClientOp B → List UInt8
  | task t =>
    if ReqHead.Encodes t.body then
      let action := ReqHead.encodeAction (ClientTask.getAction t.body)
      let msg := ClientTask.encodeReq t.body
      let blob := (ClientTask.getReqBlob t.body).getD []
      (ReqHead.new clientId action.1 t.seq (UInt32.ofNat (msg.ret.getD 0))
          (Int32.ofNat blob.length)).toBytes ++ (action.2 ++ msg.bytes) ++ blob
    else []
  | ping seq => (ReqHead.new clientId pingAction seq 0 0).toBytes

omit [ClientTask B] in
/-- The frame of a ping is its header. -/
theorem bytes_encodePing (buf : HeadedBuf rpcReqHeaderLen) (clientId seq : UInt64) :
    (ReqHead.encodePing buf clientId seq).bytes =
      (ReqHead.new clientId pingAction seq 0 0).toBytes := by
  have hbytes := HeadedBuf.bytes_writeHead buf buf.reset
    (ReqHead.new clientId pingAction seq 0 0).toBytes (ReqHead.length_toBytes _)
    (List.append_nil _).symm
  rw [List.append_nil] at hbytes
  exact hbytes

/-- The frame of a task that encodes: the buffer, then the blob. -/
theorem frame_of_encodes {t : Task B} (h : ReqHead.Encodes t.body)
    (buf : HeadedBuf rpcReqHeaderLen) (clientId : UInt64) :
    (ReqHead.encode buf clientId t).2 = .ok (ClientTask.getReqBlob t.body) ∧
      (ReqHead.encode buf clientId t).1.bytes ++ (ClientTask.getReqBlob t.body).getD [] =
        (task t).frame clientId := by
  obtain ⟨⟨msgLen, hret, hmsg⟩, hblob⟩ := id h
  obtain ⟨hok, hbytes⟩ := ReqHead.encode_of_encodes buf clientId t hret hmsg hblob
  have hlen : (ClientTask.encodeReq t.body).ret.getD 0 = msgLen := by
    rw [show (ClientTask.encodeReq t.body).ret = some msgLen from hret]
    rfl
  refine ⟨hok, ?_⟩
  rw [hbytes, frame, if_pos h]
  dsimp only
  rw [hlen]

/-- What an operation puts on the wire does not depend on what the buffer held. -/
theorem write_eq_frame (clientId : UInt64) (buf : HeadedBuf rpcReqHeaderLen) (op : ClientOp B) :
    (op.write clientId buf).2 = op.frame clientId := by
  cases op with
  | ping seq =>
    simp only [write, writeReq, Option.getD_none, List.append_nil]
    exact bytes_encodePing buf clientId seq
  | task t =>
    by_cases henc : ReqHead.Encodes t.body
    · obtain ⟨hok, hframe⟩ := frame_of_encodes henc buf clientId
      rcases hr : ReqHead.encode buf clientId t with ⟨buf', r⟩
      rw [hr] at hok hframe
      obtain rfl : r = .ok (ClientTask.getReqBlob t.body) := hok
      simp only [write, hr, writeReq]
      exact hframe
    · rw [write_of_not_encodes clientId buf henc, frame, if_neg henc]

theorem writeOps_eq_flatMap (clientId : UInt64) (buf : HeadedBuf rpcReqHeaderLen)
    (ops : List (ClientOp B)) : writeOps clientId buf ops = ops.flatMap (frame clientId) := by
  induction ops generalizing buf with
  | nil => rfl
  | cons op ops ih => rw [writeOps, ih, write_eq_frame, List.flatMap_cons]

end ClientOp

/-! ## The socket of the sender -/

/-- The operation succeeds. -/
def IoResult.ok : IoResult → Bool
  | .done => true
  | .failed _ => false

omit [ClientTask B] in
/-- What an operation of the sender does to the socket. -/
def SendOp.socket (r : IoResult) : SendOp B → Socket → Socket
  | .writeAll bytes, s => (WriteOp.exec r (.writeAll bytes) s).1
  | .flush, s => (WriteOp.exec r .flush s).1
  | .shutdownWrite, s => (WriteOp.exec r .shutdownWrite s).1
  | _, s => s

/-- A connection, and the socket its requests go to. -/
structure Outlet (B : Type) where
  sys : Sys B
  socket : Socket

/-- What happens next. -/
inductive OutletLabel (B : Type) : Type where
  | call (call : Call B)
  /-- the sender goes on; what the socket makes of it -/
  | sender (r : IoResult)
  | receiver (tick : Bool) (arrival : Arrival)
  | dropInner
  /-- bytes leave the buffer of the socket -/
  | pass (n : ℕ)

namespace Outlet

omit [ClientTask B] in
/-- The socket after a step of the sender. -/
def afterSender (s : Outlet B) (r : IoResult) : Socket :=
  match s.sys.sender with
  | .running _ (.act o _) => o.socket r s.socket
  | _ => s.socket

def init (cfg : ConnConfig) : Outlet B := ⟨Sys.init cfg, ⟨[], [], false⟩⟩

def next (cfg : ConnConfig) (s : Outlet B) : OutletLabel B → Option (Outlet B)
  | .call call => (Sys.next cfg s.sys (.call call)).map fun sys => { s with sys }
  | .sender r =>
    (Sys.next cfg s.sys (.sender r.ok)).map fun sys => ⟨sys, s.afterSender r⟩
  | .receiver tick arrival =>
    (Sys.next cfg s.sys (.receiver tick arrival)).map fun sys => { s with sys }
  | .dropInner => (Sys.next cfg s.sys .dropInner).map fun sys => { s with sys }
  | .pass n => some { s with socket := s.socket.pass n }

/-- The numbers last, and a task that is sent has an action the header can carry. -/
def Fit (s : Outlet B) : OutletLabel B → Prop
  | .call (.sendTask t _) => (ClientOp.task t).InDomain
  | .sender _ => s.sys.conn.seq.toNat + 1 < 2 ^ 64
  | _ => True

end Outlet

/-! ## What a call writes -/

/-- How far a call has come with its request. -/
inductive Requesting (B : Type) : Type where
  /-- it has none, or the connection was found closed -/
  | quiet
  /-- `closed` has not been asked for yet -/
  | start (request : UInt64 → ClientOp B)
  /-- `closed` was not set; no number is drawn -/
  | ready (request : UInt64 → ClientOp B)
  /-- these bytes of the request are written -/
  | writing (op : ClientOp B) (bytes : List UInt8)
  /-- the socket has failed; whether `closed` is set -/
  | torn (closed : Bool)

def requesting (clientId : UInt64) : Protocol (SendOp B) SendOp.Res (Requesting B) where
  ok
    | .ready _, .seqUpdate => True
    | _, .seqUpdate => False
    | .writing op bytes, .writeAll more => bytes ++ more <+: op.frame clientId
    | _, .writeAll _ => False
    | .writing op bytes, .regTask t => op = .task t ∧ bytes = op.frame clientId
    | _, .regTask _ => False
    | _, .errorHandle t => ∃ t' : Task B, t = t'.setRpcError .io
    | _, _ => True
  next
    | .start request, .loadClosed, closed => if closed then .quiet else .ready request
    | .ready request, .seqUpdate, seq => .writing (request seq) []
    | .writing op bytes, .writeAll more, ok =>
      if ok then .writing op (bytes ++ more) else .torn false
    | .writing op bytes, .flush, ok => if ok then .writing op bytes else .torn false
    | .torn _, .storeClosed, _ => .torn true
    | q, _, _ => q

/-- A call has nothing left to write, and what it broke off is closed. -/
def Requesting.CanEnd (clientId : UInt64) : Requesting B → Prop
  | quiet => True
  | start _ => False
  | ready _ => False
  | writing op bytes => bytes = op.frame clientId
  | torn closed => closed = true

section Calls

variable (clientId : UInt64)

/-- A request is written whole, or the socket fails. -/
def Requesting.Written (op : ClientOp B) (ok : Bool) (q : Requesting B) : Prop :=
  q = if ok then .writing op (op.frame clientId) else .torn false

theorem requesting_writeReq {op : ClientOp B} {buf : List UInt8} {blob : Option (List UInt8)}
    (hframe : buf ++ blob.getD [] = op.frame clientId) (needFlush : Bool) :
    Follows (requesting clientId) (Requesting.Written clientId op) (.writing op [])
      (TcpClient.writeReq buf blob needFlush) := by
  have hflush : Follows (requesting clientId) (Requesting.Written clientId op)
      (.writing op (op.frame clientId))
      (if needFlush then TcpClient.flushReq else return true) := by
    cases needFlush with
    | false => exact rfl
    | true =>
      refine ⟨trivial, fun ok => ?_⟩
      cases ok with
      | true => exact rfl
      | false => exact rfl
  refine ⟨⟨blob.getD [], hframe⟩, fun wrote => ?_⟩
  cases wrote with
  | false => exact rfl
  | true =>
    change Follows (requesting clientId) _ (.writing op buf) (TcpClient.writeBlob blob >>= _)
    cases blob with
    | none =>
      rw [Option.getD_none, List.append_nil] at hframe
      rw [hframe]
      exact hflush
    | some blob =>
      refine ⟨⟨[], (List.append_nil _).trans hframe⟩, fun wrote => ?_⟩
      cases wrote with
      | false => exact rfl
      | true =>
        change Follows (requesting clientId) _ (.writing op (buf ++ blob)) _
        rw [show buf ++ blob = op.frame clientId from hframe]
        exact hflush

theorem requesting_sendTask (task : Task B) (needFlush : Bool) :
    Follows (requesting clientId) (fun _ q => q.CanEnd clientId)
      (.start fun seq => .task (task.setSeq seq)) (sendTask clientId task needFlush) := by
  refine ⟨trivial, fun full => ⟨trivial, fun _ => ⟨trivial, fun closed => ?_⟩⟩⟩
  cases closed with
  | true => exact ⟨⟨task, rfl⟩, fun _ => ⟨trivial, fun _ => trivial⟩⟩
  | false =>
    refine ⟨trivial, fun seq => ⟨trivial, fun buf => ⟨trivial, fun _ => ?_⟩⟩⟩
    change Follows (requesting clientId) _ (.writing (.task (task.setSeq seq)) [])
      (writeEncoded _ _ _ (ReqHead.encode buf clientId (task.setSeq seq)).2 >>= finishSend)
    by_cases henc : ReqHead.Encodes task.body
    · obtain ⟨hok, hframe⟩ := ClientOp.frame_of_encodes (t := task.setSeq seq) henc buf clientId
      rw [hok]
      change Follows _ _ _ ((TcpClient.writeReq _ _ _ >>= _) >>= finishSend)
      rw [bind_assoc]
      refine (requesting_writeReq clientId hframe _).bind fun wrote q hq => ?_
      subst hq
      cases wrote with
      | true =>
        exact ⟨trivial, fun _ => ⟨⟨rfl, rfl⟩, fun _ => ⟨trivial, fun _ => rfl⟩⟩⟩
      | false =>
        refine ⟨trivial, fun _ => ⟨trivial, fun _ => ⟨trivial, fun _ => ⟨trivial, fun _ => ?_⟩⟩⟩⟩
        exact ⟨⟨task.setSeq seq, rfl⟩, fun _ => ⟨trivial, fun _ => ⟨trivial, fun _ => rfl⟩⟩⟩
    · -- nothing was written of it
      rw [ReqHead.encode_of_not_encodes buf clientId (task.setSeq seq) henc]
      refine ⟨trivial, fun _ => ⟨trivial, fun _ => ?_⟩⟩
      exact (if_neg henc).symm

theorem requesting_sendPingReq :
    Follows (requesting (B := B) clientId) (fun _ q => q.CanEnd clientId) (.start .ping)
      (sendPingReq clientId) := by
  refine ⟨trivial, fun closed => ?_⟩
  cases closed with
  | true => exact trivial
  | false =>
    refine ⟨trivial, fun seq => ⟨trivial, fun buf => ⟨trivial, fun _ => ?_⟩⟩⟩
    have hframe :
        (ReqHead.encodePing buf clientId seq).bytes ++ (none : Option (List UInt8)).getD [] =
        (ClientOp.ping seq : ClientOp B).frame clientId := by
      rw [Option.getD_none, List.append_nil]
      exact ClientOp.bytes_encodePing buf clientId seq
    change Follows (requesting clientId) _ (.writing (.ping seq) [])
      (TcpClient.writeReq _ none true >>= _)
    refine (requesting_writeReq clientId hframe _).bind fun wrote q hq => ?_
    subst hq
    cases wrote with
    | true => exact rfl
    | false => exact ⟨trivial, fun _ => rfl⟩

/-- The calls that write no request. -/
theorem requesting_flushReq :
    Follows (requesting (B := B) clientId) (fun _ q => q.CanEnd clientId) .quiet
      ClientStream.flushReq := by
  refine ⟨trivial, fun ok => ?_⟩
  cases ok with
  | true => exact trivial
  | false => exact ⟨trivial, fun _ => ⟨trivial, fun _ => ⟨trivial, fun _ => trivial⟩⟩⟩

theorem requesting_setErrorAndExit :
    Follows (requesting (B := B) clientId) (fun _ q => q.CanEnd clientId) .quiet
      ClientStream.setErrorAndExit := by
  refine ⟨trivial, fun _ => ⟨trivial, fun ok => ?_⟩⟩
  cases ok with
  | true => exact ⟨trivial, fun _ => trivial⟩
  | false => exact trivial

theorem requesting_dropStream :
    Follows (requesting (B := B) clientId) (fun _ q => q.CanEnd clientId) .quiet dropStream :=
  ⟨trivial, fun _ => ⟨trivial, fun _ => ⟨trivial, fun _ => trivial⟩⟩⟩

end Calls

/-! ## Every byte in its place -/

/-- The frames of these requests, one after the other. -/
def ClientOp.frames (clientId : UInt64) (ops : List (ClientOp B)) : List UInt8 :=
  ops.flatMap (frame clientId)

/-- The bytes in the socket, if these are the requests that were begun. -/
def Requesting.Out (clientId : UInt64) (c : Conn B) (out : List UInt8) (ops : List (ClientOp B)) :
    Requesting B → Prop
  | quiet | start _ =>
    out = ClientOp.frames clientId ops ∨
      c.closed = true ∧ out <+: ClientOp.frames clientId ops
  | ready _ => out = ClientOp.frames clientId ops
  | writing op bytes =>
    bytes <+: op.frame clientId ∧
      ∃ before, ops = before ++ [op] ∧ out = ClientOp.frames clientId before ++ bytes
  | torn closed => out <+: ClientOp.frames clientId ops ∧ (closed = true → c.closed = true)

/-- What a call makes its request of: a request with the number drawn. -/
def Requesting.Numbers : Requesting B → Prop
  | start request | ready request => ∀ seq, (request seq).seq = seq ∧ (request seq).InDomain
  | _ => True

/-- The requests begun, in the order of their numbers, and where their bytes are. -/
structure Ordered (clientId : UInt64) (c : Conn B) (socket : Socket) (q : Requesting B)
    (ops : List (ClientOp B)) : Prop where
  sorted : ops.Pairwise fun op op' => op.seq < op'.seq
  below : ∀ op ∈ ops, op.seq < c.seq
  domain : ∀ op ∈ ops, op.InDomain
  registered : ∀ t ∈ c.registered, .task t ∈ ops
  numbers : q.Numbers
  bytes : q.Out clientId c socket.out ops

section

variable {clientId : UInt64} {c c' : Conn B} {socket socket' : Socket} {q : Requesting B}
  {ops : List (ClientOp B)}

theorem ClientOp.frames_concat (clientId : UInt64) (ops : List (ClientOp B)) (op : ClientOp B) :
    frames clientId (ops ++ [op]) = frames clientId ops ++ op.frame clientId := by
  rw [frames, List.flatMap_append, List.flatMap_singleton]
  rfl

theorem Requesting.Out.congr {out : List UInt8} (h : q.Out clientId c out ops)
    (hclosed : c.closed = true → c'.closed = true) : q.Out clientId c' out ops := by
  cases q with
  | quiet | start request => exact h.imp_right fun h => ⟨hclosed h.1, h.2⟩
  | torn closed => exact ⟨h.1, fun ht => hclosed (h.2 ht)⟩
  | ready request => exact h
  | writing op bytes => exact h

/-- However far the call has come, nothing else is in the socket. -/
theorem Requesting.Out.isPrefix {out : List UInt8} (h : q.Out clientId c out ops) :
    out <+: ClientOp.frames clientId ops := by
  cases q with
  | quiet | start request =>
    rcases h with rfl | ⟨-, h⟩
    · exact List.prefix_refl _
    · exact h
  | ready request =>
    obtain rfl : out = ClientOp.frames clientId ops := h
    exact List.prefix_refl _
  | writing op bytes =>
    obtain ⟨hbytes, before, rfl, rfl⟩ := h
    rw [ClientOp.frames_concat]
    exact (List.prefix_append_right_inj _).mpr hbytes
  | torn closed => exact h.1

namespace Ordered

/-- What the other operations leave alone. -/
theorem congr (h : Ordered clientId c socket q ops) (hseq : c'.seq = c.seq)
    (hregistered : c'.registered = c.registered) (hclosed : c.closed = true → c'.closed = true)
    (hout : socket'.out = socket.out) : Ordered clientId c' socket' q ops := by
  refine ⟨h.sorted, ?_, h.domain, ?_, h.numbers, ?_⟩
  · rw [hseq]
    exact h.below
  · rw [hregistered]
    exact h.registered
  · rw [hout]
    exact h.bytes.congr hclosed

/-- A number is drawn, and the request begins. -/
theorem seqUpdate {request : UInt64 → ClientOp B}
    (h : Ordered clientId c socket (.ready request) ops) (hwrap : c.seq.toNat + 1 < 2 ^ 64)
    (hseq : c'.seq = c.seq + 1) (hregistered : c'.registered = c.registered) :
    Ordered clientId c' socket (.writing (request c.seq) []) (ops ++ [request c.seq]) := by
  obtain ⟨hnumber, hdomain⟩ := h.numbers c.seq
  have hsucc : c.seq < c'.seq := by
    rw [hseq, UInt64.lt_iff_toNat_lt, UInt64.toNat_add, UInt64.toNat_one, Nat.mod_eq_of_lt hwrap]
    exact Nat.lt_succ_self _
  refine ⟨?_, fun op hop => ?_, fun op hop => ?_, ?_, trivial,
    List.nil_prefix, ops, rfl, ?_⟩
  · refine List.pairwise_append.mpr
      ⟨h.sorted, List.pairwise_singleton _ _, fun op hop op' hop' => ?_⟩
    rw [List.mem_singleton.mp hop', hnumber]
    exact h.below op hop
  · rcases List.mem_append.mp hop with hop | hop
    · exact UInt64.lt_trans (h.below op hop) hsucc
    · rw [List.mem_singleton.mp hop, hnumber]
      exact hsucc
  · rcases List.mem_append.mp hop with hop | hop
    · exact h.domain op hop
    · rw [List.mem_singleton.mp hop]
      exact hdomain
  · rw [hregistered]
    exact fun t ht => List.mem_append_left _ (h.registered t ht)
  · rw [List.append_nil]
    exact h.bytes

/-- A part of the request is written, or the socket fails. -/
theorem writeAll {op : ClientOp B} {bytes more : List UInt8}
    (h : Ordered clientId c socket (.writing op bytes) ops)
    (hstarts : bytes ++ more <+: op.frame clientId) (r : IoResult)
    (hseq : c'.seq = c.seq) (hregistered : c'.registered = c.registered) :
    Ordered clientId c' ((SendOp.writeAll (B := B) more).socket r socket)
      (if r.ok then .writing op (bytes ++ more) else .torn false) ops := by
  obtain ⟨-, before, hops, hout⟩ := h.bytes
  have hbelow : ∀ op ∈ ops, op.seq < c'.seq := by
    rw [hseq]
    exact h.below
  have hreg : ∀ t ∈ c'.registered, .task t ∈ ops := by
    rw [hregistered]
    exact h.registered
  cases r with
  | done =>
    refine ⟨h.sorted, hbelow, h.domain, hreg, trivial, hstarts, before, hops, ?_⟩
    change socket.sent ++ (socket.buffered ++ more) = _
    rw [← List.append_assoc, ← List.append_assoc]
    exact congrArg (· ++ more) hout
  | failed n =>
    refine ⟨h.sorted, hbelow, h.domain, hreg, trivial, ?_, Bool.noConfusion⟩
    change socket.sent ++ (socket.buffered ++ more.take n) <+: _
    have hsocket : socket.sent ++ (socket.buffered ++ more.take n) =
        ClientOp.frames clientId before ++ (bytes ++ more.take n) := by
      rw [← List.append_assoc, ← List.append_assoc]
      exact congrArg (· ++ more.take n) hout
    rw [hsocket, hops, ClientOp.frames_concat, List.prefix_append_right_inj]
    exact ((List.prefix_append_right_inj bytes).mpr (List.take_prefix n more)).trans hstarts

omit [ClientTask B] in
/-- Only a write adds to what is in the socket. -/
theorem out_socket {o : SendOp B} (h : ∀ bytes, o ≠ .writeAll bytes) (r : IoResult)
    (socket : Socket) : (o.socket r socket).out = socket.out := by
  cases o with
  | writeAll bytes => exact absurd rfl (h bytes)
  | flush =>
    cases r with
    | done => exact List.append_nil _
    | failed n => exact Socket.out_pass socket n
  | shutdownWrite => cases r <;> rfl
  | _ => rfl

/-- One operation of a call. -/
theorem op (h : Ordered clientId c socket q ops) {r : IoResult} {o : SendOp B}
    (hok : (requesting clientId).ok q o) (hwrap : c.seq.toNat + 1 < 2 ^ 64) {a : o.Res}
    (hexec : SendOp.exec r.ok o c = (c', some a)) :
    ∃ ops', Ordered clientId c' (o.socket r socket) ((requesting clientId).next q o a) ops' := by
  by_cases hwrite : ∃ bytes, o = .writeAll bytes
  · obtain ⟨more, rfl⟩ := hwrite
    cases q with
    | writing op bytes =>
      cases hexec
      exact ⟨ops, h.writeAll hok r rfl rfl⟩
    | _ => exact absurd hok id
  have hout : (o.socket r socket).out = socket.out :=
    out_socket (fun bytes ho => hwrite ⟨bytes, ho⟩) r socket
  cases o with
  | writeAll bytes => exact absurd ⟨bytes, rfl⟩ hwrite
  | seqUpdate =>
    cases q with
    | ready request =>
      cases hexec
      exact ⟨_, h.seqUpdate hwrap rfl rfl⟩
    | _ => exact absurd hok id
  | regTask t =>
    cases q with
    | writing op bytes =>
      obtain ⟨timer, -, rfl⟩ := SendOp.exec_regTask hexec
      obtain ⟨rfl, -⟩ := hok
      refine ⟨ops, h.sorted, h.below, h.domain, fun t' ht' => ?_, trivial, h.bytes⟩
      rcases List.mem_append.mp ht' with ht' | ht'
      · exact h.registered t' ht'
      · obtain ⟨-, before, rfl, -⟩ := h.bytes
        rw [List.mem_singleton.mp ht']
        exact List.mem_append_right _ (List.mem_singleton_self _)
    | _ => exact absurd hok id
  | loadClosed =>
    cases hexec
    refine ⟨ops, ?_⟩
    cases q with
    | start request =>
      cases hclosed : c.closed with
      | true => exact ⟨h.sorted, h.below, h.domain, h.registered, trivial, h.bytes⟩
      | false =>
        -- nothing was broken off, or the connection would be closed
        have hwhole := h.bytes.resolve_right fun h => by
          rw [hclosed] at h
          cases h.1
        exact ⟨h.sorted, h.below, h.domain, h.registered, h.numbers, hwhole⟩
    | _ => exact h
  | flush =>
    cases hexec
    refine ⟨ops, ?_⟩
    have hsame : Ordered clientId c ((SendOp.flush (B := B)).socket r socket) q ops :=
      h.congr rfl rfl id hout
    cases q with
    | writing op bytes =>
      cases r with
      | done => exact hsame
      | failed n =>
        refine ⟨h.sorted, h.below, h.domain, h.registered, trivial, ?_, Bool.noConfusion⟩
        exact hsame.bytes.isPrefix
    | _ => exact hsame
  | storeClosed =>
    cases hexec
    have hsame : Ordered clientId { c with closed := true } socket q ops :=
      h.congr rfl rfl (fun _ => rfl) rfl
    refine ⟨ops, ?_⟩
    cases q with
    | torn closed =>
      exact ⟨h.sorted, h.below, h.domain, h.registered, trivial, h.bytes.1, fun _ => rfl⟩
    | _ => exact hsame
  | throttle =>
    rw [SendOp.exec_throttle hexec]
    refine ⟨ops, ?_⟩
    cases q <;> exact h
  | _ =>
    cases hexec
    refine ⟨ops, ?_⟩
    cases q <;> exact h.congr rfl rfl id hout

end Ordered

end

/-! ## Runs -/

/-- The call under way has come this far with its request. -/
def Sender.Requests (clientId : UInt64) (q : Requesting B) : Sender B → Prop
  | .running _ p => Follows (requesting clientId) (fun _ q => q.CanEnd clientId) q p
  | _ => q = .quiet

omit [ClientTask B] in
/-- The receiver draws no numbers. -/
theorem RecvOp.exec_seq {arrival : Arrival} {o : RecvOp B} {c c' : Conn B} {a : Option o.Res}
    (h : exec arrival o c = (c', a)) : c'.seq = c.seq := by
  obtain rfl : (exec arrival o c).1 = c' := congrArg Prod.fst h
  cases o with
  | readHead cancellable => rw [exec_readHead]
  | readExact n => rw [exec_readExact]
  | _ => rfl

/-- The receive loop draws no numbers, registers nothing and opens nothing. -/
theorem Sys.ReceiverStep.requests {pf : Platform} {arrival : Arrival} {c c' : Conn B}
    {p p' : Receiver B} (h : ReceiverStep pf arrival c p c' p') :
    c'.seq = c.seq ∧ c'.registered = c.registered ∧ (c.closed = true → c'.closed = true) := by
  cases h with
  | op hexec =>
    obtain ⟨-, -, hregistered, hclosed, -⟩ := RecvOp.exec_shared hexec
    have hseq := RecvOp.exec_seq hexec
    exact ⟨hseq, hregistered, hclosed⟩
  | wait hexec =>
    obtain ⟨-, -, hregistered, hclosed, -⟩ := RecvOp.exec_shared hexec
    exact ⟨RecvOp.exec_seq hexec, hregistered, hclosed⟩
  | close => exact ⟨rfl, rfl, fun _ => rfl⟩
  | stage | tick | giveUp | pull | again | fail | panic | clean | drain | leave | wake =>
    exact ⟨rfl, rfl, id⟩

namespace Outlet

variable {cfg : ConnConfig} {s s' : Outlet B}

/-- The requests begun are these. -/
def Orders (cfg : ConnConfig) (s : Outlet B) (ops : List (ClientOp B)) : Prop :=
  ∃ q, s.sys.sender.Requests cfg.clientId q ∧ Ordered cfg.clientId s.sys.conn s.socket q ops

theorem orders_init (cfg : ConnConfig) : (init cfg : Outlet B).Orders cfg [] := by
  refine ⟨.quiet, rfl, List.Pairwise.nil, ?_, ?_, ?_, trivial, Or.inl rfl⟩
  · exact fun _ h => absurd h List.not_mem_nil
  · exact fun _ h => absurd h List.not_mem_nil
  · exact fun _ h => absurd h List.not_mem_nil

namespace Orders

variable {ops : List (ClientOp B)}

/-- A call begins. -/
theorem call (h : s.Orders cfg ops) {call : Call B} (hfit : Fit s (.call call))
    (hnext : next cfg s (.call call) = some s') : s'.Orders cfg ops := by
  obtain ⟨sys, hsys, rfl⟩ := Option.map_eq_some_iff.mp hnext
  obtain ⟨⟨conn, sender, receiver, innerDropped⟩, socket⟩ := s
  obtain ⟨q, hsender, hordered⟩ := h
  cases sender with
  | idle =>
    cases hsys
    obtain rfl : q = .quiet := hsender
    cases call with
    | sendTask t needFlush =>
      have hrequest := requesting_sendTask cfg.clientId { t with id := conn.nextId } needFlush
      refine ⟨_, hrequest, hordered.sorted, hordered.below, hordered.domain, hordered.registered,
        fun seq => ⟨rfl, hfit⟩, hordered.bytes⟩
    | ping =>
      have hrequest := requesting_sendPingReq (B := B) cfg.clientId
      exact ⟨_, hrequest, hordered.sorted, hordered.below, hordered.domain, hordered.registered,
        fun seq => ⟨rfl, trivial⟩, hordered.bytes⟩
    | flushReq => exact ⟨_, requesting_flushReq cfg.clientId, hordered⟩
    | setErrorAndExit => exact ⟨_, requesting_setErrorAndExit cfg.clientId, hordered⟩
    | drop => exact ⟨_, requesting_dropStream cfg.clientId, hordered⟩
  | running dropping p => cases hsys
  | gone => cases hsys

/-- A step of the sender. -/
theorem sender (h : s.Orders cfg ops) {r : IoResult} (hfit : Fit s (.sender r))
    (hnext : next cfg s (.sender r) = some s') : ∃ ops', s'.Orders cfg ops' := by
  obtain ⟨sys, hsys, rfl⟩ := Option.map_eq_some_iff.mp hnext
  obtain ⟨⟨conn, sender, receiver, innerDropped⟩, socket⟩ := s
  obtain ⟨q, hsender, hordered⟩ := h
  obtain ⟨⟨c, p⟩, hstep, rfl⟩ := Option.map_eq_some_iff.mp hsys
  cases Sys.stepSender_cases hstep with
  | finish dropping res =>
    -- what is left behind is whole, or the connection is closed
    have hend : q.CanEnd cfg.clientId := hsender
    have hquiet : Requesting.Out cfg.clientId conn socket.out ops .quiet := by
      have hbytes := hordered.bytes
      cases q with
      | quiet => exact hbytes
      | start request => exact hend.elim
      | ready request => exact hend.elim
      | writing op bytes =>
        obtain ⟨-, before, rfl, hout⟩ := hbytes
        obtain rfl : bytes = op.frame cfg.clientId := hend
        exact Or.inl (hout.trans (ClientOp.frames_concat _ _ _).symm)
      | torn closed => exact Or.inr ⟨hbytes.2 hend, hbytes.1⟩
    refine ⟨ops, .quiet, ?_, hordered.sorted, hordered.below, hordered.domain,
      hordered.registered, trivial, hquiet⟩
    cases dropping with
    | true => exact rfl
    | false => exact rfl
  | op dropping hexec =>
    obtain ⟨ops', hordered'⟩ := hordered.op hsender.1 hfit hexec
    exact ⟨ops', _, hsender.step _, hordered'.congr rfl rfl id rfl⟩

theorem step (h : s.Orders cfg ops) {l : OutletLabel B} (hfit : Fit s l)
    (hnext : next cfg s l = some s') : ∃ ops', s'.Orders cfg ops' := by
  cases l with
  | call call => exact ⟨ops, h.call hfit hnext⟩
  | sender r => exact h.sender hfit hnext
  | receiver tick arrival =>
    obtain ⟨sys, hsys, rfl⟩ := Option.map_eq_some_iff.mp hnext
    obtain ⟨⟨c, p⟩, hstep, rfl⟩ := Option.map_eq_some_iff.mp hsys
    obtain ⟨q, hsender, hordered⟩ := h
    obtain ⟨hseq, hregistered, hclosed⟩ := (Sys.stepReceiver_cases hstep).requests
    exact ⟨ops, q, hsender, hordered.congr hseq hregistered hclosed rfl⟩
  | dropInner =>
    obtain ⟨sys, hsys, rfl⟩ := Option.map_eq_some_iff.mp hnext
    obtain ⟨q, hsender, hordered⟩ := h
    simp only [Sys.next] at hsys
    split at hsys
    · cases hsys
      exact ⟨ops, q, hsender, hordered.congr rfl rfl id rfl⟩
    · cases hsys
  | pass n =>
    cases hnext
    obtain ⟨q, hsender, hordered⟩ := h
    exact ⟨ops, q, hsender, hordered.congr rfl rfl id (Socket.out_pass _ _)⟩

end Orders

theorem orders_of_reach (h : Lts.Reach (next cfg) Fit (init cfg) s) : ∃ ops, s.Orders cfg ops := by
  refine h.invariant (I := fun s : Outlet B => ∃ ops, s.Orders cfg ops) ⟨[], orders_init cfg⟩ ?_
  intro s l s' hs hfit hnext
  obtain ⟨ops, hs⟩ := hs
  exact hs.step hfit hnext

end Outlet

/-! ## What a server reads -/

/-- What is read of some bytes does not depend on the bytes after them. -/
def Input.Steady {α : Type} (m : Input α) : Prop :=
  ∀ bs a rest more, m bs = .ok (a, rest) → m (bs ++ more) = .ok (a, rest ++ more)

namespace Input

variable {α β : Type}

theorem steady_pure (a : α) : Steady (pure a : Input α) := by
  rintro bs b rest more ⟨⟩
  rfl

theorem steady_throw (e : RpcIntErr) : Steady (throw e : Input α) := by
  rintro bs b rest more ⟨⟩

theorem steady_readExact (n : ℕ) : Steady (readExact n) := by
  intro bs a rest more h
  rw [readExact] at h
  split at h
  · rename_i hlen
    cases h
    rw [readExact, if_pos (Nat.le_trans hlen (by rw [List.length_append]; omega)),
      List.take_append_of_le_length hlen, List.drop_append_of_le_length hlen]
  · cases h

theorem Steady.bind {m : Input α} {f : α → Input β} (hm : m.Steady) (hf : ∀ a, (f a).Steady) :
    (m >>= f).Steady := by
  intro bs b rest more h
  obtain ⟨a, bs', hread, hrest⟩ := of_bind_ok h
  rw [bind_ok (hm bs a bs' more hread)]
  exact hf a bs' b rest more hrest

end Input

namespace TcpServer

open Input

variable {alloc : Int32 → Bool}

theorem steady_readReq : (readReq alloc).Steady := by
  refine (steady_readExact _).bind fun headBuf => ?_
  rcases ReqHead.decodeHead headBuf with e | head
  · exact steady_throw _
  have haction : (readAction head).Steady := by
    rw [readAction]
    rcases head.getAction with actionLen | num
    · refine (steady_readExact _).bind fun actionBuf => ?_
      rcases toStr? actionBuf with _ | s
      · exact steady_throw _
      · exact steady_pure _
    · exact steady_pure _
  have hmsg : (readMsg head).Steady := by
    rw [readMsg]
    split
    · exact steady_readExact _
    · exact steady_pure _
  have hblob : (readBlob alloc head).Steady := by
    rw [readBlob]
    split
    · split
      · exact (steady_readExact _).bind fun _ => steady_pure _
      · exact steady_throw _
    · exact steady_pure _
  exact haction.bind fun action => hmsg.bind fun msg => hblob.bind fun blob => steady_pure _

theorem steady_readReqs (n : ℕ) : (readReqs alloc n).Steady := by
  induction n with
  | zero => exact steady_pure _
  | succ n ih => exact steady_readReq.bind fun req => ih.bind fun reqs => steady_pure _

/-- There is no request in nothing. -/
theorem readReq_nil (req : RpcSvrReq) (rest : List UInt8) : readReq alloc [] ≠ .ok (req, rest) := by
  rintro ⟨⟩

/-- Of two readings of the same bytes, one of which reads them all, the other is the
beginning, and what it has left is the rest. -/
theorem readReqs_rest {n m : ℕ} {bs rest : List UInt8} {reqs all : List RpcSvrReq}
    (h : readReqs alloc n bs = .ok (reqs, rest)) (hall : readReqs alloc m bs = .ok (all, [])) :
    ∃ k more, all = reqs ++ more ∧ readReqs alloc k rest = .ok (more, []) := by
  induction n generalizing m bs reqs all with
  | zero =>
    cases h
    exact ⟨m, all, rfl, hall⟩
  | succ n ih =>
    obtain ⟨req, bs', hread, hrest⟩ := of_bind_ok h
    obtain ⟨reqs', bs'', hreqs, hret⟩ := of_bind_ok hrest
    cases hret
    cases m with
    | zero =>
      cases hall
      exact absurd hread (readReq_nil _ _)
    | succ m =>
      obtain ⟨req', bs₁, hread', hrest'⟩ := of_bind_ok hall
      obtain ⟨all', bs₂, hall', hret'⟩ := of_bind_ok hrest'
      cases hret'
      cases hread.symm.trans hread'
      obtain ⟨k, more, rfl, hmore⟩ := ih hreqs hall'
      exact ⟨k, more, rfl, hmore⟩

end TcpServer

/-- The frames of requests read as these requests. -/
theorem ClientOp.reads_frames {alloc : Int32 → Bool} (halloc : ∀ n, 0 < n → alloc n = true)
    (hreq : AppendsWhatItReturns B) (clientId : UInt64) {ops : List (ClientOp B)}
    (hdom : ∀ op ∈ ops, op.InDomain) :
    ∃ n, TcpServer.readReqs alloc n (frames clientId ops) = .ok (ops.filterMap request?, []) := by
  have hall := readReqs_writeOps halloc hreq clientId (.withCapacity rpcReqHeaderLen 0) ops hdom
  rw [writeOps_eq_flatMap] at hall
  exact ⟨_, hall⟩

/-- What was read of the first bytes of some requests are the first of them. -/
theorem ClientOp.reads_prefix {alloc : Int32 → Bool} (halloc : ∀ n, 0 < n → alloc n = true)
    (hreq : AppendsWhatItReturns B) {clientId : UInt64} {ops : List (ClientOp B)}
    (hdom : ∀ op ∈ ops, op.InDomain) {n : ℕ} {bs rest : List UInt8} {reqs : List RpcSvrReq}
    (hread : TcpServer.readReqs alloc n bs = .ok (reqs, rest)) (hbs : bs <+: frames clientId ops) :
    reqs <+: ops.filterMap request? := by
  obtain ⟨more, hmore⟩ := hbs
  obtain ⟨m, hall⟩ := reads_frames halloc hreq clientId hdom
  rw [← hmore] at hall
  have hsteady := TcpServer.steady_readReqs n bs reqs rest more hread
  obtain ⟨k, others, hreqs, -⟩ := TcpServer.readReqs_rest hsteady hall
  exact ⟨others, hreqs.symm⟩

/-- No call is under way. -/
def Sender.isIdle : Sender B → Bool
  | .idle => true
  | _ => false

namespace Outlet

variable {cfg : ConnConfig} {s : Outlet B}

/-- When no call is under way and the connection is open, the frames are whole. -/
theorem Orders.whole {ops : List (ClientOp B)} (h : s.Orders cfg ops)
    (hidle : s.sys.sender.isIdle = true) (hopen : s.sys.conn.closed = false) :
    s.socket.out = ClientOp.frames cfg.clientId ops := by
  obtain ⟨q, hsender, hordered⟩ := h
  obtain rfl : q = .quiet := by
    cases hs : s.sys.sender with
    | idle =>
      rw [hs] at hsender
      exact hsender
    | running dropping p =>
      rw [hs] at hidle
      cases hidle
    | gone =>
      rw [hs] at hidle
      cases hidle
  refine hordered.bytes.resolve_right fun hclosed => ?_
  rw [hopen] at hclosed
  cases hclosed.1

/-- **Requests out.** Whatever fails and when: what is in the socket is the beginning of the
frames of requests with growing numbers, among them those of all tasks registered; it ends
with a whole frame when no call is under way, unless the connection is closed; and what a
server reads of it are the first of these requests. -/
theorem requests_out {alloc : Int32 → Bool} (halloc : ∀ n, 0 < n → alloc n = true)
    (hreq : AppendsWhatItReturns B) (h : Lts.Reach (next cfg) Fit (init cfg) s) :
    ∃ ops : List (ClientOp B), (ops.Pairwise fun op op' => op.seq < op'.seq) ∧
      (∀ t ∈ s.sys.conn.registered, .task t ∈ ops) ∧
      s.socket.out <+: ClientOp.frames cfg.clientId ops ∧
      (s.sys.sender.isIdle = true → s.sys.conn.closed = false →
        s.socket.out = ClientOp.frames cfg.clientId ops) ∧
      ∀ n reqs rest, TcpServer.readReqs alloc n s.socket.sent = .ok (reqs, rest) →
        reqs <+: ops.filterMap ClientOp.request? := by
  obtain ⟨ops, horders⟩ := orders_of_reach h
  obtain ⟨q, hsender, hordered⟩ := id horders
  have hout := hordered.bytes.isPrefix
  refine ⟨ops, hordered.sorted, hordered.registered, hout, horders.whole,
    fun n reqs rest hread => ?_⟩
  have hsent : s.socket.sent <+: ClientOp.frames cfg.clientId ops :=
    (List.prefix_append _ _).trans hout
  exact ClientOp.reads_prefix halloc hreq hordered.domain hread hsent

section Fits

instance : (a : RpcAction) → Decidable a.InDomain
  | .str s => inferInstanceAs (Decidable ((ofStr s).length < 2 ^ 31))
  | .num n => inferInstanceAs (Decidable (0 ≤ n))

instance : (op : ClientOp B) → Decidable op.InDomain
  | .task t =>
    inferInstanceAs (Decidable (ReqHead.Encodes t.body → (ClientTask.getAction t.body).InDomain))
  | .ping _ => .isTrue trivial

instance (s : Outlet B) : (l : OutletLabel B) → Decidable (Fit s l)
  | .call (.sendTask t _) => inferInstanceAs (Decidable (ClientOp.task t).InDomain)
  | .call .flushReq | .call .ping | .call .setErrorAndExit | .call .drop => .isTrue trivial
  | .sender _ => inferInstanceAs (Decidable (_ < _))
  | .receiver _ _ | .dropInner | .pass _ => .isTrue trivial

end Fits

/-- A call goes out, and a ping of which the socket takes five bytes. -/
def callAndPing : List (OutletLabel APIClientReq) :=
  .call (.sendTask ⟨0, 0, .new "calc.add" [146, 1, 2]⟩ true) :: List.replicate 12 (.sender .done) ++
    .call .ping :: List.replicate 4 (.sender .done) ++ [.sender (.failed 5), .sender .done,
      .sender .done, .pass 100]

/-- The call is registered and its frame is whole; the ping is broken off. -/
theorem requests_out_torn :
    ∃ (s : Outlet APIClientReq) (ops : List (ClientOp APIClientReq)),
      Lts.Reach (next Sys.apiConfig) Fit (init Sys.apiConfig) s ∧
      (s.sys.conn.registered.length = 1 ∧ s.sys.conn.closed = true ∧ s.socket.sent.length = 48) ∧
      (∀ t ∈ s.sys.conn.registered, .task t ∈ ops) ∧
      s.socket.out <+: ClientOp.frames 9 ops := by
  have hrun : (Lts.exec (next Sys.apiConfig) Fit (init Sys.apiConfig) callAndPing).any
      (fun s => decide (s.sys.conn.registered.length = 1 ∧ s.sys.conn.closed = true ∧
        s.socket.sent.length = 48)) = true := by decide +kernel
  obtain ⟨s, hreach, htest⟩ := Lts.Reach.exists_of_exec hrun
  have halloc : ∀ n : Int32, 0 < n → (fun _ : Int32 => true) n = true := fun _ _ => rfl
  obtain ⟨ops, -, hregistered, hout, -⟩ := requests_out halloc appendsWhatItReturns_api hreach
  exact ⟨s, ops, hreach, of_decide_eq_true htest, hregistered, hout⟩

end Outlet

end RazorRpc
